import TypeRecovery.Proofs.Promptness

/-!
# The order of the operands

Two runs that try the operands in different orders find equal types for all operands that are
determined. These are the operands whose types can be derived or depend on no merge, those on
circles that keep a type or only pass values on, and all that prompt rules compute from them. For
others the order can matter: a rule that does not wait may be tried early or late, and a guess may
stay that some other order would never make.
-/
namespace TypeRecovery.Analysis

open Inquiry Relation

variable {a : Analysis}

/-- The same program with its operands in another order. -/
def reordered (a : Analysis) (xs : List OperandId) : Analysis :=
  a.scheduled xs a.settings.maxRounds

theorem inquiry_reordered (xs : List OperandId) (x : OperandId) :
    (a.reordered xs).inquiry x = a.inquiry x :=
  inquiry_scheduled xs a.settings.maxRounds x

theorem depends_reordered (xs : List OperandId) : (a.reordered xs).Depends = a.Depends := by
  funext x y
  simp only [Depends, inquiry_reordered]

/-- `τ` gives a type to each operand of the part `S`, and so do the rules whenever they come to a
type. -/
structure Typing (a : Analysis) (S : OperandId → Prop) (τ : OperandId → Ty) : Prop where
  steady : ∀ x, S x → a.Steady x
  closed : ∀ x y, S x → a.Open x → a.Depends x y → S y
  start : ∀ x t, S x → a.start? x = some t → t = τ x
  rules : ∀ x t known, S x → a.Open x → (∀ y, S y → known y = none ∨ known y = some (τ y)) →
    ((a.inquiry x).outcome known).type? = some t → t = τ x
  merges : ∀ x op, S x → op ∈ a.graph.producers x → op.action = .phi → a.graph.producers x = [op]

/-- The operands of the part `S` have values passed on from others of it, or depend on no merge and
wait for all they depend on. -/
def Relays (a : Analysis) (S : OperandId → Prop) : Prop :=
  ∀ x, S x → a.Open x →
    a.GuessFree x ∧ a.Steady x ∨ ∃ ys, a.PassesOn x ys ∧ ∀ y, some y ∈ ys → S y

/-- The type of the operand does not depend on the order. -/
inductive Determined (a : Analysis) : OperandId → Prop
  /-- The type follows from the given ones. -/
  | derived {x : OperandId} {t : Ty} (hx : a.Steady x) (h : a.Derived x t) : Determined a x
  /-- No merge is involved. -/
  | guessFree {x : OperandId} (hx : a.Steady x) (h : a.GuessFree x) : Determined a x
  /-- Each operand of a part of the program has one type all the time. -/
  | typed {x : OperandId} {S : OperandId → Prop} {τ : OperandId → Ty} (h : a.Typing S τ)
      (hx : S x) : Determined a x
  /-- Values are only passed on, in circles too. -/
  | relayed {x : OperandId} {S : OperandId → Prop} (hp : a.PresetsClean) (h : a.Relays S)
      (hx : S x) : Determined a x
  /-- The rules are prompt, and ask about determined operands. -/
  | computed {x : OperandId} (hx : a.Prompt x) (hfree : a.OrderFree x)
      (hwaits : ∀ op ∈ a.graph.producers x, ¬Hasty a.Open op)
      (h : ∀ y, a.Depends x y → Determined a y) : Determined a x

section

variable {xs : List OperandId} (hxs : xs.Perm a.operands)

include hxs

theorem open_reordered : (a.reordered xs).Open = a.Open := by
  funext x
  exact propext ⟨fun h => ⟨hxs.mem_iff.1 h.mem, h.start⟩, fun h => ⟨hxs.mem_iff.2 h.mem, h.start⟩⟩

theorem steady_reordered : (a.reordered xs).Steady = a.Steady := by
  have hdraws : (a.reordered xs).Draws = a.Draws := by
    funext x y
    rw [Draws, Draws, open_reordered hxs, depends_reordered]
  funext x
  unfold Steady
  rw [hdraws, open_reordered hxs]
  rfl

omit hxs in
theorem guessFree_reordered : (a.reordered xs).GuessFree = a.GuessFree := by
  funext x
  unfold GuessFree
  rw [depends_reordered]
  rfl

theorem Derived.reordered {x : OperandId} {t : Ty} (h : a.Derived x t) :
    (a.reordered xs).Derived x t := by
  induction h with
  | start hx h => exact .start (hxs.mem_iff.2 hx) h
  | rule hx h _ hnone ih =>
    rw [← inquiry_reordered xs] at h ih hnone
    refine .rule (by rwa [open_reordered hxs]) h ih ?_
    exact fun y hy hn hmem => hnone y hy hn (hxs.mem_iff.1 hmem)

theorem Typing.reordered {S : OperandId → Prop} {τ : OperandId → Ty} (h : a.Typing S τ) :
    (a.reordered xs).Typing S τ where
  steady := by
    rw [steady_reordered hxs]
    exact h.steady
  closed := by
    rw [open_reordered hxs, depends_reordered]
    exact h.closed
  start := h.start
  rules := by
    rw [open_reordered hxs]
    intro x t known
    rw [inquiry_reordered]
    exact h.rules x t known
  merges := h.merges

theorem PresetsClean.reordered (h : a.PresetsClean) : (a.reordered xs).PresetsClean :=
  fun x hx => h x (hxs.mem_iff.1 hx)

omit hxs in
theorem Prompt.reordered {x : OperandId} (h : a.Prompt x) : (a.reordered xs).Prompt x := by
  unfold Prompt
  rw [depends_reordered, inquiry_reordered]
  exact h

theorem Relays.reordered {S : OperandId → Prop} (h : a.Relays S) : (a.reordered xs).Relays S := by
  unfold Relays
  rw [open_reordered hxs, steady_reordered hxs, guessFree_reordered]
  exact h

/-- What is derived is settled at the end of both runs. -/
theorem Ends.settled_reordered {g' : Findings} (hg' : (a.reordered xs).Ends g') {x : OperandId}
    {t : Ty} (h : a.Derived x t) (hx : a.Steady x) : g'.about x = .settled t :=
  hg'.settled_of_derived (h.reordered hxs) (by rwa [steady_reordered hxs])

/-- An operand that depends on no merge is known in one run whenever it is in the other. -/
theorem Meets.known?_of_guessFree {f g' : Findings} (hf : a.Meets f)
    (hg' : (a.reordered xs).Ends g') {x : OperandId} {t : Ty} (hx : a.Steady x)
    (hfree : a.GuessFree x) (ht : f.known? x = some t) : g'.known? x = some t := by
  cases hfx : f.about x with
  | nothing => simp [Findings.known?, hfx, Finding.known?] at ht
  | guess u => exact absurd hfx (hf.not_guess hfree)
  | settled u =>
    obtain rfl : u = t := by simpa [Findings.known?, hfx, Finding.known?] using ht
    exact known?_of_eq (Or.inr (hg'.settled_reordered hxs (hf.derived hx hfx) hx))

theorem known?_reordered_of_start {g' : Findings} (hg' : (a.reordered xs).Ends g') {x : OperandId}
    {t : Ty} (hx : x ∈ a.operands) (h : a.start? x = some t) : g'.known? x = some t :=
  known?_of_eq (Or.inr (hg'.meets.about_of_start (hxs.mem_iff.2 hx) h))

end

theorem Typing.eq {S : OperandId → Prop} {τ : OperandId → Ty} (h : a.Typing S τ) {f : Findings}
    (hf : a.Meets f) {x : OperandId} {t : Ty} (hx : S x) (ht : f.known? x = some t) : t = τ x := by
  revert hx
  refine hf.known_induction (P := fun x t => S x → t = τ x) ?_ ?_ ht
  · exact fun x t _ hs hx => h.start x t hx hs
  · intro f _ x t _ _ hopen _ ih hrule hx
    refine h.rules x t f.known? hx hopen (fun y hy => ?_) hrule
    cases hs : f.known? y with
    | none => exact Or.inl rfl
    | some s => exact Or.inr (by rw [ih y s hs hy])

/-- Rules that come to a type from some knowledge come to one from all knowledge that has more. -/
theorem Typing.outcome_ne_wait {S : OperandId → Prop} {τ : OperandId → Ty} (h : a.Typing S τ)
    {f : Findings} (hf : a.Meets f) {x : OperandId} (hx : S x) (hopen : a.Open x)
    (hrule : ((a.inquiry x).outcome f.known?).type? ≠ none) {known : OperandId → Option Ty}
    (hmore : ∀ y s, S y → f.known? y = some s → known y = some s)
    (hout : ∀ y, y ∉ a.operands → known y = none) : (a.inquiry x).outcome known ≠ .wait := by
  have hheeds := (h.steady x hx).heeds hopen
  cases ho : (a.inquiry x).outcome f.known? with
  | answer t =>
    have hknown : ∀ y ∈ (a.inquiry x).asked f.known?, f.known? y = known y := by
      intro y hy
      cases hs : f.known? y with
      | none => rw [hout y (not_mem_of_heeds hheeds hf ho hy hs)]
      | some s => rw [hmore y s (h.closed x y hx hopen ⟨_, hy⟩) hs]
    rw [← outcome_congr hknown, ho]
    simp
  | guess t =>
    obtain ⟨op, hop, hphi⟩ := hheeds.guesses _ t ho
    obtain ⟨ys, hys⟩ := passesOn_of_guess (h.merges x op hx hop hphi) hphi ho
    refine hys.prompt f.known? known (fun y hy hne => ?_) hrule
    obtain ⟨s, hs⟩ := Option.ne_none_iff_exists'.1 hne
    rw [hmore y s (h.closed x y hx hopen hy) hs]
    simp
  | wait =>
    rw [ho] at hrule
    exact absurd rfl hrule
  | fault e =>
    rw [ho] at hrule
    exact absurd rfl hrule

section

variable {xs : List OperandId} (hxs : xs.Perm a.operands)

include hxs

/-- What is known at some time in one run is known at the end of the other. -/
theorem Typing.known? {S : OperandId → Prop} {τ : OperandId → Ty} (h : a.Typing S τ)
    {f g' : Findings} (hf : a.Meets f) (hg' : (a.reordered xs).Ends g') {x : OperandId} {t : Ty}
    (hx : S x) (ht : f.known? x = some t) : g'.known? x = some t := by
  have h' := h.reordered hxs
  suffices hne : g'.known? x ≠ none by
    obtain ⟨u, hu⟩ := Option.ne_none_iff_exists'.1 hne
    rw [hu, h'.eq hg'.meets hx hu, h.eq hf hx ht]
  revert hx
  refine hf.known_induction (P := fun x _ => S x → g'.known? x ≠ none) ?_ ?_ ht
  · intro x t hmem hs _
    rw [known?_reordered_of_start hxs hg' hmem hs]
    simp
  · intro f _ x t hf _ hopen _ ih hrule hx
    cases hgx : g'.about x with
    | settled u => simp [Findings.known?, hgx, Finding.known?]
    | _ =>
      -- the last attempt of the other run knows at least as much
      obtain ⟨f', hf', hsame, hattempted⟩ :=
        hg'.attempted (hxs.mem_iff.2 hopen.mem) (by rw [hgx]; rfl)
      have hmore : ∀ y s, S y → f.known? y = some s → f'.known? y = some s := by
        intro y s hy hs
        have hrel := (hsame y).known?
        rw [← Findings.known?, ← Findings.known?] at hrel
        cases hfy : f'.known? y with
        | none =>
          rw [hfy] at hrel
          exact absurd (eq_none_of_rel_none hrel) (ih y s hs hy)
        | some u => rw [h'.eq hf' hy hfy, h.eq hf hy hs]
      have hout : ∀ y, y ∉ a.operands → f'.known? y = none := by
        intro y hy
        rw [Findings.known?, hf'.about_of_not_mem (mt hxs.mem_iff.1 hy)]
        rfl
      have hwait := h.outcome_ne_wait hf hx hopen (by rw [hrule]; simp) hmore hout
      rw [← inquiry_reordered xs] at hwait
      obtain ⟨u, -, hu⟩ := type?_of_attempted hattempted hwait
      rw [Findings.known?, hu]
      simp

end

section

variable {xs : List OperandId} (hxs : xs.Perm a.operands)

include hxs

/-- What is known at some time in one run grows to what is known at the end of the other. -/
theorem Relays.growsTo {S : OperandId → Prop} (hp : a.PresetsClean) (h : a.Relays S)
    {f g' : Findings} (hf : a.Meets f) (hg' : (a.reordered xs).Ends g') {x : OperandId} {t : Ty}
    (hx : S x) (ht : f.known? x = some t) : ∃ u, g'.known? x = some u ∧ t.GrowsTo u := by
  revert hx
  refine hf.known_induction
    (P := fun x t => S x → ∃ u, g'.known? x = some u ∧ t.GrowsTo u) ?_ ?_ ht
  · exact fun x t hmem hs _ => ⟨t, known?_reordered_of_start hxs hg' hmem hs, .refl t⟩
  · intro f g x t hf hg hopen htg ih hrule hx
    rcases h x hx hopen with ⟨hfree, hsteady⟩ | ⟨ys, hys, hsources⟩
    · exact ⟨t, hg.known?_of_guessFree hxs hg' hsteady hfree htg, .refl t⟩
    have hys' : (a.reordered xs).PassesOn x ys := hys
    obtain ⟨f', hf', hrel, hlast⟩ :=
      hys'.prompt.known?_of_ends hg' (by rwa [open_reordered hxs]) hys'.waits
    have hgrow : ∀ y, some y ∈ ys → ∀ s, f.known? y = some s →
        ∃ w, f'.known? y = some w ∧ s.GrowsTo w := by
      intro y hy s hs
      obtain ⟨v, hv, hsv⟩ := ih y s hs (hsources y hy)
      obtain ⟨w, hw, hwv⟩ := exists_of_rel_some (hv ▸ hrel y)
      exact ⟨w, hw, hsv.trans (Or.inl (Ty.equiv_symm hwv))⟩
    rw [hys.type?_outcome] at hrule
    rw [hys'.type?_outcome] at hlast
    obtain ⟨w, hw, htw⟩ := passedType?_grows (hf.knownClean hp) (hf'.knownClean (hp.reordered hxs))
      hgrow hrule
    exact ⟨w, hlast.symm.trans hw, htw⟩

end

/-- What is known at the ends of two runs is the same if each grows to the other. -/
theorem rel_of_growsTo {o o' : Option Ty} (h : ∀ t, o = some t → ∃ u, o' = some u ∧ t.GrowsTo u)
    (h' : ∀ u, o' = some u → ∃ t, o = some t ∧ u.GrowsTo t) :
    Option.Rel (fun t u => t.equiv u = true) o o' := by
  cases o with
  | none =>
    cases o' with
    | none => exact .none
    | some u =>
      obtain ⟨t, ht, -⟩ := h' u rfl
      cases ht
  | some t =>
    obtain ⟨u, rfl, htu⟩ := h t rfl
    obtain ⟨t', ht', hut⟩ := h' u rfl
    obtain rfl := Option.some.inj ht'
    exact .some (htu.antisymm hut)

theorem rel_trans {o p q : Option Ty} (h : Option.Rel (fun t u => t.equiv u = true) o p)
    (h' : Option.Rel (fun t u => t.equiv u = true) p q) :
    Option.Rel (fun t u => t.equiv u = true) o q := by
  cases h with
  | none => exact h'
  | some h =>
    cases h' with
    | some h' => exact .some (Ty.equiv_trans h h')

theorem rel_symm {o p : Option Ty} (h : Option.Rel (fun t u => t.equiv u = true) o p) :
    Option.Rel (fun t u => t.equiv u = true) p o := by
  cases h with
  | none => exact .none
  | some h => exact .some (Ty.equiv_symm h)

theorem rel_type? {o p : Outcome Ty}
    (h : Outcome.Rel (fun t u => t.equiv u = true) (fun t u => t.equiv u = true) o p) :
    Option.Rel (fun t u => t.equiv u = true) o.type? p.type? := by
  cases h with
  | answer h => exact .some h
  | guess h => exact .some h
  | wait => exact .none
  | fault f => exact .none

section

variable {xs : List OperandId} (hxs : xs.Perm a.operands)

include hxs

/-- Without rules to try, both runs know what is known at the start. -/
theorem known?_eq_of_not_open {g g' : Findings} (hg : a.Ends g) (hg' : (a.reordered xs).Ends g')
    {x : OperandId} (hx : ¬a.Open x) : g.known? x = g'.known? x := by
  by_cases hmem : x ∈ a.operands
  · cases hs : a.start? x with
    | none => exact absurd ⟨hmem, hs⟩ hx
    | some t =>
      rw [known?_reordered_of_start hxs hg' hmem hs]
      exact known?_of_eq (Or.inr (hg.meets.about_of_start hmem hs))
  · rw [Findings.known?, Findings.known?, hg.meets.about_of_not_mem hmem,
      hg'.meets.about_of_not_mem (mt hxs.mem_iff.1 hmem)]

theorem Determined.rel {g g' : Findings} (hg : a.Ends g) (hg' : (a.reordered xs).Ends g')
    {x : OperandId} (hx : a.Determined x) :
    Option.Rel (fun t u => t.equiv u = true) (g.known? x) (g'.known? x) := by
  -- the first run tries the operands of the second one in another order
  have hback : ((a.reordered xs).reordered a.operands).Ends g := hg
  have hxs' : a.operands.Perm (a.reordered xs).operands := hxs.symm
  induction hx with
  | derived hsteady h =>
    rw [known?_of_eq (Or.inr (hg.settled_of_derived h hsteady)),
      known?_of_eq (Or.inr (hg'.settled_reordered hxs h hsteady))]
    exact .some (Ty.equiv_refl _)
  | @guessFree x hsteady h =>
    have hsteady' : (a.reordered xs).Steady x := by rwa [steady_reordered hxs]
    have h' : (a.reordered xs).GuessFree x := by rwa [guessFree_reordered]
    refine rel_of_growsTo (fun t ht => ⟨t, ?_, .refl t⟩) fun u hu => ⟨u, ?_, .refl u⟩
    · exact hg.meets.known?_of_guessFree hxs hg' hsteady h ht
    · exact hg'.meets.known?_of_guessFree hxs' hback hsteady' h' hu
  | typed h hx =>
    refine rel_of_growsTo (fun t ht => ⟨t, ?_, .refl t⟩) fun u hu => ⟨u, ?_, .refl u⟩
    · exact h.known? hxs hg.meets hg' hx ht
    · exact (h.reordered hxs).known? hxs' hg'.meets hback hx hu
  | relayed hp h hx =>
    refine rel_of_growsTo (fun t ht => ?_) fun u hu => ?_
    · exact h.growsTo hxs hp hg.meets hg' hx ht
    · exact (h.reordered hxs).growsTo hxs' (hp.reordered hxs) hg'.meets hback hx hu
  | @computed x hprompt hfree hwaits _ ih =>
    by_cases hopen : a.Open x
    · have hopen' : (a.reordered xs).Open x := by rwa [open_reordered hxs]
      have hwaits' : ∀ op ∈ a.graph.producers x, ¬Hasty (a.reordered xs).Open op := by
        rwa [open_reordered hxs]
      obtain ⟨f, hf, hfg, hlast⟩ := hprompt.known?_of_ends hg hopen hwaits
      obtain ⟨f', hf', hfg', hlast'⟩ := hprompt.reordered.known?_of_ends hg' hopen' hwaits'
      rw [inquiry_reordered] at hlast'
      rw [← hlast, ← hlast']
      apply rel_type?
      apply alike_inquiry_of_depends hfree
      · exact fun hp => hf.knownClean hp
      · exact fun hp => hf'.knownClean (hp.reordered hxs)
      · exact fun y hy => rel_trans (hfg y) (rel_trans (ih y hy) (rel_symm (hfg' y)))
    · rw [known?_eq_of_not_open hxs hg hg' hopen]
      exact (Finding.Same.refl _).known?

/-- A determined operand has equal types at the end of any two runs that converge, whatever the order
in which they try the operands. -/
theorem typeOf_equiv_of_perm {r r' : Recovery} (hr : Recovery.run a = .ok r)
    (hr' : Recovery.run (a.reordered xs) = .ok r') (hc : r.converged = true)
    (hc' : r'.converged = true) {x : OperandId} (hx : a.Determined x) :
    (r.typeOf x).equiv (r'.typeOf x) = true := by
  obtain ⟨g, hg, htype⟩ := ends_of_run hr hc
  obtain ⟨g', hg', htype'⟩ := ends_of_run hr' hc'
  have hrel := hx.rel hxs hg hg'
  rw [htype, htype']
  generalize g.known? x = o at hrel
  generalize g'.known? x = o' at hrel
  cases hrel with
  | some h => exact h
  | none => rfl

end

/-- A counter and a circle of merges. The operands in order: an integer, a string, the integer or
the second merge, the string or the first, a counter, its next value, the sum of the first merge and
the counter. -/
def sumOps : List Op :=
  [.plain { result := some ⟨2⟩ } .phi [(.vars, .many [some ⟨0⟩, some ⟨3⟩])],
   .plain { result := some ⟨3⟩ } .phi [(.vars, .many [some ⟨1⟩, some ⟨2⟩])],
   .plain { result := some ⟨4⟩ } .phi [(.vars, .many [some ⟨0⟩, some ⟨5⟩])],
   .plain { result := some ⟨5⟩ } .plus [(.left, .one (some ⟨4⟩)), (.right, .one (some ⟨0⟩))],
   .plain { result := some ⟨6⟩ } .plus [(.left, .one (some ⟨2⟩)), (.right, .one (some ⟨4⟩))]]

def sumOperands : Array Operand :=
  #[⟨.literal (.int 1), .unknown⟩, ⟨.literal (.text "a"), .unknown⟩]

def sumAnalysis : Analysis :=
  blockAnalysis sumOperands sumOps [⟨0⟩, ⟨3⟩, ⟨2⟩, ⟨1⟩, ⟨5⟩, ⟨4⟩, ⟨6⟩]

def sumOrder : List OperandId := [⟨6⟩, ⟨4⟩, ⟨5⟩, ⟨1⟩, ⟨2⟩, ⟨3⟩, ⟨0⟩]

def sumFindings (xs : List OperandId) (two three four five six : Finding) : Findings :=
  { table := ⟨xs.map fun x => (x, match x.index with
      | 0 => .settled .int
      | 1 => .settled .string
      | 2 => two
      | 3 => three
      | 4 => four
      | 5 => five
      | _ => six)⟩ }

/-- The findings at the end of a run with the operands in some order. -/
def sumEnd (xs : List OperandId) : Findings :=
  sumFindings xs (.guess (.compound .union .int .string []))
    (.guess (.compound .union .string .int [])) (.guess .int) (.guess .int) (.guess .mixed)

theorem sum_run :
    Recovery.run sumAnalysis =
      .ok ⟨sumAnalysis, (sumEnd sumAnalysis.operands).promote, 3, true⟩ := by
  have h₀ : sumAnalysis.Reaches 0
      (sumFindings sumAnalysis.operands .nothing .nothing .nothing .nothing .nothing) := .seed rfl
  have h₁ : sumAnalysis.Reaches 1
      (sumFindings sumAnalysis.operands (.guess (.compound .union .int .string [])) (.guess .string)
        (.guess .int) .nothing (.guess .mixed)) :=
    .round h₀ (by decide) rfl (by decide)
  have h₂ : sumAnalysis.Reaches 2 (sumEnd sumAnalysis.operands) :=
    .round h₁ (by decide) rfl (by decide)
  exact run_of_stalls h₂ (g := sumEnd sumAnalysis.operands) ⟨by decide, rfl, rfl⟩ (by decide)

/-- In this order the sum is guessed twice. -/
theorem sum_run_reordered :
    Recovery.run (sumAnalysis.reordered sumOrder) =
      .ok ⟨sumAnalysis.reordered sumOrder, (sumEnd sumOrder).promote, 4, true⟩ := by
  have h₀ : (sumAnalysis.reordered sumOrder).Reaches 0
      (sumFindings sumOrder .nothing .nothing .nothing .nothing .nothing) := .seed rfl
  have h₁ : (sumAnalysis.reordered sumOrder).Reaches 1
      (sumFindings sumOrder (.guess .int) (.guess (.compound .union .string .int [])) (.guess .int)
        (.guess .int) .nothing) :=
    .round h₀ (by decide) rfl (by decide)
  have h₂ : (sumAnalysis.reordered sumOrder).Reaches 2
      (sumFindings sumOrder (.guess (.compound .union .int .string []))
        (.guess (.compound .union .string .int [])) (.guess .int) (.guess .int) (.guess .int)) :=
    .round h₁ (by decide) rfl (by decide)
  have h₃ : (sumAnalysis.reordered sumOrder).Reaches 3 (sumEnd sumOrder) :=
    .round h₂ (by decide) rfl (by decide)
  exact run_of_stalls h₃ (g := sumEnd sumOrder) ⟨by decide, rfl, rfl⟩ (by decide)

theorem sum_not_hasty {O : OperandId → Prop} (x : OperandId) :
    ∀ op ∈ sumAnalysis.graph.producers x, ¬Hasty O op := by
  intro op hop hasty
  have hactions : ∀ op ∈ sumOps, op.action ≠ .newObject ∧ op.action ≠ .assertion := by decide
  obtain ⟨hnew, hassertion⟩ := hactions op (List.mem_of_mem_filter hop)
  cases hasty with
  | newObject ha _ _ => exact hnew ha
  | excludes _ => exact hassertion rfl

theorem sum_open {x : OperandId} (hx : sumAnalysis.Open x) : 2 ≤ x.index := by
  have hstart : ∀ x ∈ sumAnalysis.operands, sumAnalysis.start? x = none → 2 ≤ x.index := by decide
  exact hstart x hx.mem hx.start

theorem sum_relays : sumAnalysis.Relays fun x => x ∈ [⟨0⟩, ⟨1⟩, ⟨2⟩, ⟨3⟩] := by
  intro x hx hopen
  have hindex := sum_open hopen
  right
  simp only [List.mem_cons, List.not_mem_nil, or_false] at hx
  rcases hx with rfl | rfl | rfl | rfl
  · simp at hindex
  · simp at hindex
  · exact ⟨[some ⟨0⟩, some ⟨3⟩], ⟨_, rfl, rfl⟩, by simp⟩
  · exact ⟨[some ⟨1⟩, some ⟨2⟩], ⟨_, rfl, rfl⟩, by simp⟩

theorem sum_counter : sumAnalysis.PassesOn ⟨4⟩ [some ⟨0⟩, some ⟨5⟩] := ⟨_, rfl, rfl⟩

theorem sum_next : sumAnalysis.Computes ⟨5⟩ ⟨4⟩ ⟨0⟩ := ⟨_, rfl, by decide, rfl, rfl⟩

/-- The counter is an integer all the time. -/
theorem sum_typing : sumAnalysis.Typing (fun x => x ∈ [⟨0⟩, ⟨4⟩, ⟨5⟩]) fun _ => .int where
  steady x _ := fun y _ _ => sum_not_hasty y
  closed := by
    intro x y hx hopen hy
    have hindex := sum_open hopen
    simp only [List.mem_cons, List.not_mem_nil, or_false] at hx ⊢
    rcases hx with rfl | rfl | rfl
    · simp at hindex
    · have hsource : y = ⟨0⟩ ∨ y = ⟨5⟩ := by simpa using sum_counter.depends_iff.1 hy
      exact hsource.imp_right Or.inr
    · exact (sum_next.depends_iff.1 hy).elim (Or.inr ∘ Or.inl) Or.inl
  start := by
    intro x t hx ht
    simp only [List.mem_cons, List.not_mem_nil, or_false] at hx
    rcases hx with rfl | rfl | rfl
    · exact (Option.some.inj ht).symm
    · cases ht
    · cases ht
  rules := by
    intro x t known hx hopen hknown ht
    have hindex := sum_open hopen
    simp only [List.mem_cons, List.not_mem_nil, or_false] at hx
    have h₀ := hknown ⟨0⟩ (by simp)
    have h₄ := hknown ⟨4⟩ (by simp)
    have h₅ := hknown ⟨5⟩ (by simp)
    rcases hx with rfl | rfl | rfl
    · simp at hindex
    · rw [sum_counter.type?_outcome, passedType?] at ht
      rcases h₀ with h₀ | h₀ <;> rcases h₅ with h₅ | h₅ <;>
        simp_all [Ty.unionOf?, Ty.combineAll?, Ty.combine, Ty.equiv]
    · rw [sum_next.outcome] at ht
      rcases h₀ with h₀ | h₀ <;> rcases h₄ with h₄ | h₄ <;>
        simp_all [Outcome.type?, arithmetic, Ty.kind]
  merges := by
    intro x op hx hop _
    simp only [List.mem_cons, List.not_mem_nil, or_false] at hx
    rcases hx with rfl | rfl | rfl
    · cases hop
    · rw [List.mem_singleton.1 hop]
      rfl
    · rw [List.mem_singleton.1 hop]
      rfl

theorem sum_determined : sumAnalysis.Determined ⟨6⟩ := by
  have hsum : sumAnalysis.Computes ⟨6⟩ ⟨2⟩ ⟨4⟩ := ⟨_, rfl, by decide, rfl, rfl⟩
  have hclean : sumAnalysis.PresetsClean := by
    have hunknown : ∀ x ∈ sumAnalysis.operands,
        (sumAnalysis.graph.operand x).type.isUnknown = true := by decide
    intro x hx hknown
    simp [hunknown x hx] at hknown
  refine .computed hsum.prompt (Or.inl hclean) (sum_not_hasty _) fun y hy => ?_
  rcases hsum.depends_iff.1 hy with rfl | rfl
  · exact .relayed hclean sum_relays (by simp)
  · exact .typed sum_typing (by simp)

/-- Both orders give the sum the same type in the end. -/
theorem typeOf_equiv_of_perm_sum :
    sumOrder.Perm sumAnalysis.operands ∧ sumAnalysis.Determined ⟨6⟩ ∧
      ∃ r r', Recovery.run sumAnalysis = .ok r ∧
        Recovery.run (sumAnalysis.reordered sumOrder) = .ok r' ∧ r.converged = true ∧
        r'.converged = true ∧ (r.typeOf ⟨6⟩).equiv (r'.typeOf ⟨6⟩) = true := by
  have hperm : sumOrder.Perm sumAnalysis.operands := by decide
  exact ⟨hperm, sum_determined, _, _, sum_run, sum_run_reordered, rfl, rfl,
    typeOf_equiv_of_perm hperm sum_run sum_run_reordered rfl rfl sum_determined⟩

/-- Two objects of one class. The operands in order: a new object, a copy of it, its class, an
object of that class, another new object of the class. -/
def twinOps : List Op :=
  [.plain { result := some ⟨1⟩ } .assign [(.expr, .one (some ⟨0⟩))],
   .plain { result := some ⟨0⟩ } .newObject [(.cls, .one (some ⟨2⟩))],
   .plain { result := some ⟨2⟩ } .assign [(.expr, .one (some ⟨3⟩))],
   .plain { result := some ⟨4⟩ } .newObject [(.cls, .one (some ⟨2⟩))]]

def twinOperands : Array Operand :=
  #[⟨.temporary, .unknown⟩, ⟨.temporary, .unknown⟩, ⟨.temporary, .unknown⟩,
    ⟨.temporary, .named "Foo"⟩]

def twinAnalysis : Analysis :=
  blockAnalysis twinOperands twinOps [⟨0⟩, ⟨1⟩, ⟨2⟩, ⟨3⟩, ⟨4⟩]

def twinOrder : List OperandId := [⟨4⟩, ⟨1⟩, ⟨2⟩, ⟨3⟩, ⟨0⟩]

def twinFindings (xs : List OperandId) (first copy cls second : Finding) : Findings :=
  { table := ⟨xs.map fun x => (x, match x.index with
      | 0 => first
      | 1 => copy
      | 2 => cls
      | 3 => .settled (.named "Foo")
      | _ => second)⟩ }

/-- Whichever of the two objects is tried before its class is known is just some object. -/
theorem twin_order_matters :
    Analysis.of (blockGraph twinOperands twinOps) {} .empty = .ok twinAnalysis ∧
      twinOrder.Perm twinAnalysis.operands ∧
      ∃ r r', Recovery.run twinAnalysis = .ok r ∧
        Recovery.run (twinAnalysis.reordered twinOrder) = .ok r' ∧ r.converged = true ∧
        r'.converged = true ∧ r.typeOf ⟨0⟩ = .object ∧ r'.typeOf ⟨0⟩ = .named "Foo" ∧
        r.typeOf ⟨4⟩ = .named "Foo" ∧ r'.typeOf ⟨4⟩ = .object ∧
        Ty.equiv .object (.named "Foo") = false := by
  have h₀ : twinAnalysis.Reaches 0
      (twinFindings twinAnalysis.operands .nothing .nothing .nothing .nothing) := .seed rfl
  have h₁ : twinAnalysis.Reaches 1 (twinFindings twinAnalysis.operands (.settled .object)
      (.settled .object) (.settled (.named "Foo")) (.settled (.named "Foo"))) :=
    .round h₀ (by decide) rfl (by decide)
  have h₀' : (twinAnalysis.reordered twinOrder).Reaches 0
      (twinFindings twinOrder .nothing .nothing .nothing .nothing) := .seed rfl
  have h₁' : (twinAnalysis.reordered twinOrder).Reaches 1 (twinFindings twinOrder
      (.settled (.named "Foo")) .nothing (.settled (.named "Foo")) (.settled .object)) :=
    .round h₀' (by decide) rfl (by decide)
  have h₂' : (twinAnalysis.reordered twinOrder).Reaches 2 (twinFindings twinOrder
      (.settled (.named "Foo")) (.settled (.named "Foo")) (.settled (.named "Foo"))
      (.settled .object)) :=
    .round h₁' (by decide) rfl (by decide)
  refine ⟨by cbv, by decide, _, _, run_of_done h₁ rfl (by decide), run_of_done h₂' rfl (by decide),
    ?_⟩
  exact ⟨rfl, rfl, rfl, rfl, rfl, rfl, rfl⟩

end TypeRecovery.Analysis
