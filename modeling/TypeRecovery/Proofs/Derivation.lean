import TypeRecovery.Proofs.Endings
import TypeRecovery.Proofs.Waiting

/-!
# Types that follow from the given ones

Some operands come with a type, and the rules derive types of others from them. What can be derived
says nothing about rounds, and each operand has at most one type that can. Recovery settles exactly
the derived types, whatever the order in which it tries, as long as no rule answers too early.
-/
namespace TypeRecovery.Analysis

open Inquiry Relation

variable {a : Analysis}

/-- The operand has a type at the start, or the rules answer with it when all operands that they ask
about have derived types. -/
inductive Derived (a : Analysis) : OperandId → Ty → Prop
  | start {x : OperandId} {t : Ty} (hx : x ∈ a.operands) (h : a.start? x = some t) : Derived a x t
  | rule {x : OperandId} {t : Ty} {known : OperandId → Option Ty} (hx : a.Open x)
      (h : (a.inquiry x).outcome known = .answer t)
      (hsome : ∀ y ∈ (a.inquiry x).asked known, ∀ s, known y = some s → Derived a y s)
      (hnone : ∀ y ∈ (a.inquiry x).asked known, known y = none → y ∉ a.operands) : Derived a x t

theorem Derived.mem {x : OperandId} {t : Ty} (h : a.Derived x t) : x ∈ a.operands := by
  cases h with
  | start hx _ => exact hx
  | rule hx _ _ _ => exact hx.mem

theorem Derived.unique {x : OperandId} {t u : Ty} (h : a.Derived x t) (h' : a.Derived x u) :
    t = u := by
  induction h generalizing u with
  | start _ h =>
    cases h' with
    | start _ h' => exact Option.some.inj (h.symm.trans h')
    | rule hx _ _ _ => exact absurd (h.symm.trans hx.start) (by simp)
  | @rule x t known hx h hsome hnone ih =>
    cases h' with
    | start _ h' => exact absurd (h'.symm.trans hx.start) (by simp)
    | @rule _ _ known' _ h' hsome' hnone' =>
      -- the two derivations ask the same questions and hear the same answers
      have hsame : ∀ y ∈ (a.inquiry x).asked known, y ∈ (a.inquiry x).asked known' →
          known y = known' y := by
        intro y hy hy'
        cases hs : known y with
        | none =>
          cases hs' : known' y with
          | none => rfl
          | some s' => exact absurd (hsome' y hy' s' hs').mem (hnone y hy hs)
        | some s =>
          cases hs' : known' y with
          | none => exact absurd (hsome y hy s hs).mem (hnone' y hy' hs')
          | some s' => rw [ih y hy s hs (hsome' y hy' s' hs')]
      have houtcome := (path_congr hsame).1
      rw [h, h'] at houtcome
      exact Outcome.answer.inj houtcome

/-- The type of `x` has to be found and may depend on `y`. -/
def Draws (a : Analysis) (x y : OperandId) : Prop := a.Open x ∧ a.Depends x y

/-- No operation from which the type of `x` comes answers too early. -/
def Steady (a : Analysis) (x : OperandId) : Prop :=
  ∀ y, ReflTransGen a.Draws x y → a.Open y → ∀ op ∈ a.graph.producers y, ¬Hasty a.Open op

theorem Steady.depends {x y : OperandId} (h : a.Steady x) (hx : a.Open x) (hy : a.Depends x y) :
    a.Steady y :=
  fun z hz => h z (.head ⟨hx, hy⟩ hz)

theorem Steady.heeds {x : OperandId} (h : a.Steady x) (hx : a.Open x) :
    (a.inquiry x).Heeds a.Open (∃ op ∈ a.graph.producers x, op.action = .phi) :=
  heeds_inquiry (h x .refl hx)

/-- Only operands from outside the program are missing when rules that wait answer. -/
theorem not_mem_of_heeds {x y : OperandId} {G : Prop} (h : (a.inquiry x).Heeds a.Open G)
    {f : Findings} (hf : a.Meets f) {t : Ty} (ht : (a.inquiry x).outcome f.known? = .answer t)
    (hy : y ∈ (a.inquiry x).asked f.known?) (hnone : f.known? y = none) : y ∉ a.operands := by
  intro hmem
  cases hs : a.start? y with
  | none => exact h.answers _ t ht y hy ⟨hmem, hs⟩ hnone
  | some s =>
    rw [Findings.known?, hf.about_of_start hmem hs] at hnone
    cases hnone

theorem Meets.derived {f : Findings} (hf : a.Meets f) {x : OperandId} {t : Ty} (hx : a.Steady x)
    (hfx : f.about x = .settled t) : a.Derived x t := by
  induction hf generalizing x t with
  | seed h =>
    obtain ⟨hmem, hs⟩ := (seeded_of_seed h).start?_of_settled hfx
    exact .start hmem hs
  | @attempt f g z settled hf hk hz hg ih =>
    have hspec := attempt_spec hg hz
    by_cases hxz : x = z
    · subst hxz
      have hattempted := hspec.attempted
      rw [hfx] at hattempted
      obtain ⟨hanswer, hasked⟩ := answeredBy_of_attempted hattempted hz
      have hopen : a.Open x := ⟨(hf.mem_keys x).1 hk, hf.start?_of_pending hk hz⟩
      refine .rule hopen hanswer ?_ fun y hy => not_mem_of_heeds (hx.heeds hopen) hf hanswer hy
      intro y hy s hs
      rcases hasked y hy with hnone | ⟨s', hs', hfy⟩
      · rw [hnone] at hs
        cases hs
      · obtain rfl : s' = s := Option.some.inj (hs'.symm.trans hs)
        exact ih (hx.depends hopen ⟨_, hy⟩) hfy
    · rw [hspec.others x hxz] at hfx
      exact ih hx hfx
  | count _ ih => exact ih hx hfx

/-- At the end, every derived type is settled. -/
theorem Ends.settled_of_derived {g : Findings} (hg : a.Ends g) {x : OperandId} {t : Ty}
    (h : a.Derived x t) (hx : a.Steady x) : g.about x = .settled t := by
  induction h with
  | start hmem hs => exact hg.meets.about_of_start hmem hs
  | @rule x t known hopen h hsome hnone ih =>
    cases hgx : g.about x with
    | settled u =>
      have hu := hg.meets.derived hx hgx
      rw [hu.unique (.rule hopen h hsome hnone)]
    | _ =>
      -- the last attempt heard all derived types and no guess
      obtain ⟨f, hf, hsame, hattempted⟩ := hg.attempted hopen.mem (by rw [hgx]; rfl)
      have habout : ∀ y ∈ (a.inquiry x).asked known,
          f.about y = (known y).elim .nothing .settled := by
        intro y hy
        cases hs : known y with
        | none => exact hf.about_of_not_mem (hnone y hy hs)
        | some s =>
          have hsettled := hsame y
          rw [ih y hy s hs (hx.depends hopen ⟨_, hy⟩)] at hsettled
          generalize f.about y = v at hsettled
          cases hsettled
          rfl
      have hknown : ∀ y ∈ (a.inquiry x).asked known, known y = f.known? y := by
        intro y hy
        rw [Findings.known?, habout y hy]
        cases known y <;> rfl
      obtain ⟨houtcome, hasked⟩ := path_congr fun y hy _ => hknown y hy
      have hhears : (a.inquiry x).hearsGuess f = false := by
        rw [hearsGuess, ← hasked, List.any_eq_false]
        intro y hy
        rw [habout y hy]
        cases known y <;> simp [Finding.isGuess]
      rw [Attempted, ← houtcome, h] at hattempted
      simp [hhears, hgx] at hattempted

/-- What one order settles every order settles. -/
theorem Ends.settled_iff_derived {g : Findings} (hg : a.Ends g) {x : OperandId} {t : Ty}
    (hx : a.Steady x) : g.about x = .settled t ↔ a.Derived x t :=
  ⟨hg.meets.derived hx, fun h => hg.settled_of_derived h hx⟩

end TypeRecovery.Analysis
