import TypeRecovery.Proofs.Endless
import TypeRecovery.Proofs.Growth
import TypeRecovery.Proofs.Waiting

/-!
# When guesses come to rest

A program is tame when every operand on which a circle of dependencies depends either depends on no
merge or only has values passed on to it. Then the guesses on circles can only grow, out of finitely
many parts, and come to rest. What depends on them comes to rest after them, since nothing else goes
in circles.
-/
namespace TypeRecovery.Analysis

open Inquiry Relation

variable {a : Analysis}

/-- Some operand that depends on itself depends on `x`. -/
def Feeds (a : Analysis) (x : OperandId) : Prop :=
  ∃ y, TransGen a.Depends y y ∧ ReflTransGen a.Depends y x

def Tame (a : Analysis) : Prop := ∀ x, a.Feeds x → a.GuessFree x ∨ ∃ ys, a.PassesOn x ys

theorem Feeds.depends {x y : OperandId} (h : a.Feeds x) (hy : a.Depends x y) : a.Feeds y := by
  obtain ⟨z, hz, hzx⟩ := h
  exact ⟨z, hz, hzx.tail hy⟩

/-- The union of what is known of the values that are passed on. -/
def passedType? (known : OperandId → Option Ty) (ys : List (Option OperandId)) : Option Ty :=
  Ty.unionOf? (ys.filterMap (·.bind known))

theorem mem_filterMap_bind {known : OperandId → Option Ty} {ys : List (Option OperandId)} {t : Ty} :
    t ∈ ys.filterMap (·.bind known) ↔ ∃ y, some y ∈ ys ∧ known y = some t := by
  rw [List.mem_filterMap]
  constructor
  · rintro ⟨_ | y, hy, ht⟩
    · cases ht
    · exact ⟨y, hy, ht⟩
  · rintro ⟨y, hy, ht⟩
    exact ⟨some y, hy, ht⟩

/-- Every operand on which a circle depends knows a type that the old one grows to. -/
def GrowsFrom (a : Analysis) (f g : Findings) : Prop :=
  ∀ y, a.Feeds y → ∀ t, f.known? y = some t → ∃ u, g.known? y = some u ∧ t.GrowsTo u

/-- Guesses on circles are no more than what they would be made of now. -/
def Growing (a : Analysis) (f : Findings) : Prop :=
  ∀ x ys t, a.Feeds x → a.PassesOn x ys → f.about x = .guess t →
    ∃ u, passedType? f.known? ys = some u ∧ t.GrowsTo u

/-- The union grows with what is passed on. -/
theorem passedType?_grows {ys : List (Option OperandId)} {f g : Findings} (hf : KnownClean f)
    (hg : KnownClean g) (h : ∀ y, some y ∈ ys → ∀ s, f.known? y = some s →
      ∃ u, g.known? y = some u ∧ s.GrowsTo u) {t : Ty} (ht : passedType? f.known? ys = some t) :
    ∃ u, passedType? g.known? ys = some u ∧ t.GrowsTo u := by
  have hclean {k : Findings} (hk : KnownClean k) :
      ∀ s ∈ ys.filterMap (·.bind k.known?), s.Clean := by
    intro s hs
    obtain ⟨y, -, hy⟩ := mem_filterMap_bind.1 hs
    exact hk y s hy
  have hgrow : ∀ s ∈ ys.filterMap (·.bind f.known?),
      ∃ s' ∈ ys.filterMap (·.bind g.known?), s.GrowsTo s' := by
    intro s hs
    obtain ⟨y, hy, hs⟩ := mem_filterMap_bind.1 hs
    obtain ⟨s', hs', hgrows⟩ := h y hy s hs
    exact ⟨s', mem_filterMap_bind.2 ⟨y, hy, hs'⟩, hgrows⟩
  cases hu : passedType? g.known? ys with
  | none =>
    -- some value was known, and is still
    obtain ⟨hne, -⟩ := Ty.gathers_unionOf? (hclean hf) ht
    obtain ⟨s, hs⟩ := List.exists_mem_of_ne_nil _ hne
    obtain ⟨s', hs', -⟩ := hgrow s hs
    rw [passedType?, Ty.unionOf?, Ty.combineAll?_eq_none] at hu
    rw [hu] at hs'
    cases hs'
  | some u => exact ⟨u, rfl, Ty.growsTo_unionOf? (hclean hf) (hclean hg) hgrow ht hu⟩

/-- What an attempt makes of a guess on a circle. -/
theorem Growing.attempted {f : Findings} (h : a.Growing f) {x : OperandId}
    {ys : List (Option OperandId)} {t : Ty} {v : Finding} (hx : a.Feeds x) (hys : a.PassesOn x ys)
    (hfx : f.about x = .guess t) (hv : a.Attempted f x v) :
    ∃ u, passedType? f.known? ys = some u ∧ t.GrowsTo u ∧ (v = .guess u ∨ v = .settled u) := by
  obtain ⟨u, hu, hgrows⟩ := h x ys t hx hys hfx
  rcases hys.attempted hv with ⟨hnone, -⟩ | ⟨u', hu', hvu⟩
  · rw [passedType?, hnone] at hu
    cases hu
  · obtain rfl : u' = u := Option.some.inj (hu'.symm.trans hu)
    exact ⟨u', hu, hgrows, hvu⟩

theorem known?_of_eq {f : Findings} {x : OperandId} {u : Ty}
    (h : f.about x = .guess u ∨ f.about x = .settled u) : f.known? x = some u := by
  rw [Findings.known?]
  rcases h with h | h <;> rw [h] <;> rfl

theorem AttemptSpec.growsFrom (ht : a.Tame) {f g : Findings} {x : OperandId} {settled : Bool}
    (hf : a.Meets f) (h : a.Growing f) (hx : (f.about x).isSettled = false)
    (hspec : AttemptSpec a f x g settled) : a.GrowsFrom f g := by
  intro y hy t hty
  by_cases hyx : y = x
  · subst hyx
    cases hfy : f.about y with
    | nothing => simp [Findings.known?, hfy, Finding.known?] at hty
    | settled u => simp [hfy, Finding.isSettled] at hx
    | guess u =>
      obtain rfl : u = t := by simpa [Findings.known?, hfy, Finding.known?] using hty
      rcases ht y hy with hfree | ⟨ys, hys⟩
      · exact absurd hfy (hf.not_guess hfree)
      · obtain ⟨v, -, hgrows, hv⟩ := h.attempted hy hys hfy hspec.attempted
        exact ⟨v, known?_of_eq hv, hgrows⟩
  · refine ⟨t, ?_, .refl t⟩
    rw [Findings.known?, hspec.others y hyx]
    exact hty

theorem Meets.growing (hp : a.PresetsClean) (ht : a.Tame) {f : Findings} (h : a.Meets f) :
    a.Growing f := by
  induction h with
  | seed h =>
    intro x ys t _ _ hx
    rcases (seed_spec h).about x with hn | ⟨u, hu, -⟩
    · rw [hn] at hx
      cases hx
    · rw [hu] at hx
      cases hx
  | @attempt f g z settled hf hk hz hg ih =>
    have hspec := attempt_spec hg hz
    have hgrows := hspec.growsFrom ht hf ih hz
    have hcf := hf.knownClean hp
    have hcg := (Meets.attempt hf hk hz hg).knownClean hp
    intro x ys t hx hys hgx
    have hsources : ∀ y, some y ∈ ys → ∀ s, f.known? y = some s →
        ∃ u, g.known? y = some u ∧ s.GrowsTo u :=
      fun y hy => hgrows y (hx.depends (hys.depends_iff.2 hy))
    by_cases hxz : x = z
    · subst hxz
      rcases hys.attempted hspec.attempted with ⟨-, hv⟩ | ⟨u, hu, hv⟩
      · rw [hv] at hgx
        obtain ⟨u, hu, htu⟩ := ih x ys t hx hys hgx
        obtain ⟨v, hv, huv⟩ := passedType?_grows hcf hcg hsources hu
        exact ⟨v, hv, htu.trans huv⟩
      · obtain rfl : u = t := by
          rcases hv with hv | hv
          · rw [hv] at hgx
            exact Finding.guess.inj hgx
          · rw [hv] at hgx
            cases hgx
        exact passedType?_grows hcf hcg hsources hu
    · rw [hspec.others x hxz] at hgx
      obtain ⟨u, hu, htu⟩ := ih x ys t hx hys hgx
      obtain ⟨v, hv, huv⟩ := passedType?_grows hcf hcg hsources hu
      exact ⟨v, hv, htu.trans huv⟩
  | count _ ih => exact ih

/-- All parts of all types that are known. -/
def knownParts (f : Findings) : List Ty :=
  f.table.keys.flatMap fun y => ((f.known? y).map (Ty.parts .union)).getD []

theorem covered_knownParts {f : Findings} {y : OperandId} {t : Ty} (h : f.known? y = some t) :
    Ty.Covered (t.parts .union) (knownParts f) := by
  apply Ty.Covered.of_subset
  intro m hm
  refine List.mem_flatMap.2 ⟨y, ?_, by simpa [h] using hm⟩
  by_contra hy
  rw [Findings.known?, Findings.about_of_not_mem hy] at h
  cases h

/-- What is known of operands that circles depend on is made of the given parts. -/
def Within (a : Analysis) (parts : List Ty) (f : Findings) : Prop :=
  ∀ y, a.Feeds y → ∀ t, f.known? y = some t → Ty.Covered (t.parts .union) parts

theorem Within.attempted {parts : List Ty} {f : Findings} (h : a.Within parts f) (hf : KnownClean f)
    {x : OperandId} {ys : List (Option OperandId)} (hx : a.Feeds x) (hys : a.PassesOn x ys)
    {v : Finding} (hv : a.Attempted f x v) {t : Ty} (ht : v.known? = some t) :
    Ty.Covered (t.parts .union) parts := by
  rcases hys.attempted hv with ⟨-, hsame⟩ | ⟨u, hu, hnew⟩
  · rw [hsame] at ht
    exact h x hx t ht
  · obtain rfl : u = t := by
      rcases hnew with hnew | hnew <;> simpa [hnew, Finding.known?] using ht
    apply Ty.covered_unionOf? _ _ hu
    · intro s hs
      obtain ⟨z, -, hz⟩ := mem_filterMap_bind.1 hs
      exact hf z s hz
    · intro s hs
      obtain ⟨z, hz, hs⟩ := mem_filterMap_bind.1 hs
      exact h z (hx.depends (hys.depends_iff.2 hz)) s hs

section

variable {F : Nat → Findings} (hF : ∀ n, a.Reaches n (F n)) {n₀ : Nat}
  (hrank : ∀ x m, n₀ ≤ m → ((F m).about x).rank = ((F n₀).about x).rank)

include hF hrank

/-- Only operands that are guessed can be without rest. -/
theorem rests_of_guess {x : OperandId} (h : ∀ t, (F n₀).about x = .guess t → Rests F x) :
    Rests F x := by
  by_contra hrest
  unfold Rests at hrest
  push Not at hrest
  obtain ⟨m, hm, hsame⟩ := hrest n₀
  have heq : ((F (m + 1)).about x).rank = ((F m).about x).rank := by
    rw [hrank x m hm, hrank x (m + 1) (by omega)]
  obtain ⟨t, -, ht, -⟩ := ((hF m).step (hF (m + 1))).2.1.guess_changes (hF m).meets.nodup heq hsame
  obtain ⟨u, hu⟩ : ∃ u, (F n₀).about x = .guess u := by
    apply Finding.exists_guess_of_rank
    rw [← hrank x m hm, ht]
  obtain ⟨n, hn⟩ := h u hu
  obtain ⟨k, hk, hne⟩ := hrest n
  exact hne (hn k hk)

omit hF in
theorem guess_at {x : OperandId} {t : Ty} (hx : (F n₀).about x = .guess t) {m : Nat} (hm : n₀ ≤ m) :
    ∃ u, (F m).about x = .guess u := by
  apply Finding.exists_guess_of_rank
  rw [hrank x m hm, hx]

/-- An operand that is never guessed is settled by now, or never will be. -/
theorem known?_of_guessFree {x : OperandId} (hx : a.GuessFree x) {m : Nat} (hm : n₀ ≤ m)
    (hpending : x ∈ (F m).pending) : (F (m + 1)).known? x = none := by
  have hsettled := ((Findings.mem_pending (hF m).meets.nodup).1 hpending).2
  have hr := hrank x (m + 1) (Nat.le_succ_of_le hm)
  rw [← hrank x m hm] at hr
  cases hv : (F m).about x with
  | guess u => exact absurd hv ((hF m).meets.not_guess hx)
  | settled u => simp [hv, Finding.isSettled] at hsettled
  | nothing =>
    rw [Findings.known?]
    cases hw : (F (m + 1)).about x with
    | nothing => rfl
    | _ => simp [hv, hw, Finding.rank] at hr

/-- From some round on, the types of operands that circles depend on have no new parts. -/
theorem within_of_le (hp : a.PresetsClean) (ht : a.Tame) {m : Nat} (hm : n₀ ≤ m) :
    a.Within (knownParts (F n₀)) (F m) := by
  induction hm with
  | refl => exact fun y _ t hy => covered_knownParts hy
  | @step m hm ih =>
    obtain ⟨-, hspec, -⟩ := (hF m).step (hF (m + 1))
    -- along the pending operands: what is tried now is made of what was tried before
    have hfront : ∀ front rest, (F m).pending = front ++ rest → ∀ y ∈ front, a.Feeds y → ∀ t,
        (F (m + 1)).known? y = some t → Ty.Covered (t.parts .union) (knownParts (F n₀)) := by
      intro front
      induction front using List.reverseRecOn with
      | nil => simp
      | append_singleton front x ih' =>
        intro rest hsplit y hy hfeeds t hyt
        rw [List.append_assoc] at hsplit
        have hbefore := ih' _ hsplit
        rcases List.mem_append.1 hy with hy | hy
        · exact hbefore y hy hfeeds t hyt
        obtain rfl := List.mem_singleton.1 hy
        obtain ⟨f', hf', habout, hattempted⟩ := hspec.tried front y rest hsplit
        have hwithin : a.Within (knownParts (F n₀)) f' := by
          intro z hz s hs
          rw [Findings.known?, habout] at hs
          split at hs
          · rename_i hmem
            exact hbefore z hmem hz s hs
          · exact ih z hz s hs
        rcases ht y hfeeds with hfree | ⟨ys, hys⟩
        · have hmem : y ∈ (F m).pending := by
            rw [hsplit]
            simp
          rw [known?_of_guessFree hF hrank hfree hm hmem] at hyt
          cases hyt
        · exact hwithin.attempted (hf'.knownClean hp) hfeeds hys hattempted hyt
    intro y hy t hyt
    by_cases hmem : y ∈ (F m).pending
    · exact hfront _ [] (List.append_nil _).symm y hmem hy t hyt
    · rw [Findings.known?, hspec.others y hmem] at hyt
      exact ih y hy t hyt

theorem rests_of_feeds (hp : a.PresetsClean) (ht : a.Tame) {x : OperandId} (hx : a.Feeds x) :
    Rests F x := by
  apply rests_of_guess hF hrank
  intro t htx
  rcases ht x hx with hfree | ⟨ys, hys⟩
  · exact absurd htx ((hF n₀).meets.not_guess hfree)
  choose g hg using fun k : Nat => guess_at hrank htx (m := n₀ + k) (by omega)
  have hgrows : ∀ k, (g k).GrowsTo (g (k + 1)) := by
    intro k
    obtain ⟨-, hspec, -⟩ := (hF (n₀ + k)).step (hF (n₀ + k + 1))
    have hn := (hF (n₀ + k)).meets.nodup
    obtain ⟨f', hf', -, hself, hattempted⟩ :=
      hspec.attempted hn (Findings.mem_pending_of_guess hn (hg k))
    rw [hg k] at hself
    obtain ⟨u, -, hu, hv⟩ := (hf'.growing hp ht).attempted hx hys hself hattempted
    have hnext : (F (n₀ + k + 1)).about x = .guess (g (k + 1)) := hg (k + 1)
    rw [hnext] at hv
    rcases hv with hv | hv
    · rwa [Finding.guess.inj hv]
    · cases hv
  have hcovered : ∀ k, Ty.Covered ((g k).parts .union) (knownParts (F n₀)) := by
    intro k
    exact within_of_le hF hrank hp ht (by omega) x hx _ (known?_of_eq (Or.inl (hg k)))
  obtain ⟨k₀, hk₀⟩ := eventually_constant (s := fun k => (g k).weight (knownParts (F n₀)))
    (fun k => Ty.weight_mono (hcovered (k + 1)) (hgrows k)) fun k => Ty.weight_le _ _
  refine ⟨n₀ + k₀, ?_⟩
  intro m hm
  obtain ⟨k, rfl⟩ : ∃ k, m = n₀ + k := ⟨m - n₀, by omega⟩
  have hnext : (F (n₀ + k + 1)).about x = .guess (g (k + 1)) := hg (k + 1)
  rw [hg k, hnext]
  refine .guess ?_
  by_contra hne
  have hlt := Ty.weight_lt (hcovered (k + 1)) (hgrows k) (by simpa using hne)
  have heq := hk₀ k (by omega)
  have heq' := hk₀ (k + 1) (by omega)
  omega

omit hF hrank in
/-- Attempts that find the same make the same guess. -/
theorem equiv_of_attempted {f g : Findings} {x : OperandId} {t u : Ty}
    (h : Alike (fun t u => t.equiv u = true) (fun t u => t.equiv u = true) f.known? g.known?
      (a.inquiry x) (a.inquiry x))
    (hf : a.Attempted f x (.guess t)) (hg : a.Attempted g x (.guess u))
    (hself : g.about x = .guess t) : t.equiv u = true := by
  unfold Alike at h
  unfold Attempted at hf hg
  generalize (a.inquiry x).outcome f.known? = o at h hf
  generalize (a.inquiry x).outcome g.known? = p at h hg
  cases h with
  | answer he =>
    simp only at hf hg
    split at hf
    · split at hg
      · rw [Finding.guess.inj hf, Finding.guess.inj hg]
        exact he
      · cases hg
    · cases hf
  | wait =>
    simp only at hg
    rw [hself] at hg
    rw [Finding.guess.inj hg]
    exact Ty.equiv_refl t
  | guess he =>
    rw [Finding.guess.inj hf, Finding.guess.inj hg]
    exact he
  | fault e => exact hf.elim

/-- The guesses for an operand rest when all operands do that its rules may ask about. -/
theorem rests_of_depends {x : OperandId} (hx : a.OrderFree x) (h : ∀ y, a.Depends x y → Rests F y) :
    Rests F x := by
  apply rests_of_guess hF hrank
  intro t htx
  have hdeps : ∀ y, ∃ n, ∀ m, n ≤ m → a.Depends x y →
      Finding.Same ((F m).about y) ((F (m + 1)).about y) := by
    intro y
    by_cases hy : a.Depends x y
    · obtain ⟨n, hn⟩ := h y hy
      exact ⟨n, fun m hm _ => hn m hm⟩
    · exact ⟨0, fun m _ hy' => absurd hy' hy⟩
  obtain ⟨n₁, hrest⟩ := eventually_about hF (P := fun y v w => a.Depends x y → Finding.Same v w)
    (fun _ _ => .nothing) hdeps
  -- the findings with which `x` is tried in a round are the same as those behind the round
  have htried : ∀ m, n₀ + n₁ ≤ m → ∃ f', a.Meets f' ∧ f'.about x = (F m).about x ∧
      (∀ y, a.Depends x y → Finding.Same (f'.about y) ((F (m + 1)).about y)) ∧
      a.Attempted f' x ((F (m + 1)).about x) := by
    intro m hm
    obtain ⟨-, hspec, -⟩ := (hF m).step (hF (m + 1))
    obtain ⟨u, hu⟩ := guess_at hrank htx (m := m) (by omega)
    have hn := (hF m).meets.nodup
    obtain ⟨f', hf', hmix, hself, hattempted⟩ :=
      hspec.attempted hn (Findings.mem_pending_of_guess hn hu)
    refine ⟨f', hf', hself, ?_, hattempted⟩
    intro y hy
    rcases hmix y with hy' | hy'
    · rw [hy']
      exact hrest y m (by omega) hy
    · rw [hy']
      exact .refl _
  refine ⟨n₀ + n₁ + 1, ?_⟩
  intro m hm
  obtain ⟨k, rfl⟩ : ∃ k, m = k + 1 := ⟨m - 1, by omega⟩
  obtain ⟨f, hf, -, hfsame, hfv⟩ := htried k (by omega)
  obtain ⟨g, hg, hgself, hgsame, hgv⟩ := htried (k + 1) (by omega)
  have halike := alike_inquiry_of_depends hx (fun hp => hf.knownClean hp)
    (fun hp => hg.knownClean hp) fun y hy =>
      ((hfsame y hy).trans ((hrest y (k + 1) (by omega) hy).trans (hgsame y hy).symm)).known?
  obtain ⟨u, hu⟩ := guess_at hrank htx (m := k + 1) (by omega)
  obtain ⟨v, hv⟩ := guess_at hrank htx (m := k + 1 + 1) (by omega)
  rw [hu] at hfv hgself
  rw [hv] at hgv
  rw [hu, hv]
  exact .guess (equiv_of_attempted halike hfv hgv hgself)

theorem rests_of_tame (hp : a.PresetsClean) (ht : a.Tame) (x : OperandId) : Rests F x := by
  classical
  -- by the number of operands on which `x` depends
  induction hsize : (F 0).table.keys.countP (fun y => decide (TransGen a.Depends x y)) using
    Nat.strongRecOn generalizing x with
  | ind size ih =>
    by_cases hx : a.Feeds x
    · exact rests_of_feeds hF hrank hp ht hx
    apply rests_of_depends hF hrank (Or.inl hp)
    intro y hy
    by_cases hfeeds : a.Feeds y
    · exact rests_of_feeds hF hrank hp ht hfeeds
    by_cases hk : y ∈ (F 0).table.keys
    · apply ih _ _ y rfl
      rw [← hsize]
      apply countP_lt (x := y) _ hk
      · simpa using TransGen.single hy
      · rw [decide_eq_false_iff_not]
        exact fun hcircle => hfeeds ⟨y, hcircle, .refl⟩
      · intro z _ hz
        rw [decide_eq_true_eq] at hz ⊢
        exact .head hy hz
    · refine ⟨0, ?_⟩
      intro m _
      rw [about_eq_nothing hF hk, about_eq_nothing hF hk]
      exact .nothing

end

/-- Recovery of a tame program comes to an end by itself. -/
theorem not_endless_of_tame (hp : a.PresetsClean) (ht : a.Tame) : ¬a.Endless := by
  intro hend
  choose F hF using hend
  obtain ⟨n₀, hrank⟩ := eventually_rank hF
  obtain ⟨x, hx⟩ := exists_restless hF
  exact hx (rests_of_tame hF hrank hp ht x)

end TypeRecovery.Analysis
