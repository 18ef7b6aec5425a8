import Mathlib.Logic.Relation
import TypeRecovery.Proofs.Endings

/-!
# The course of a run

Recovery changes its findings in small steps: an operand is entered at the start, an operand is
tried, a round is counted, the guesses are made final. A run is a path of such steps, and there is no
choice on the way, so the moments that can be reached from the start are those that the run passes.

Each step keeps known types simplified and free of unknown parts, whatever rule it applies. This is
why an unknown type at the end means that the operand was not settled at any moment of the run.
-/
namespace TypeRecovery.Analysis

open Relation

/-- What remains to be done. -/
inductive Stage where
  /-- These operands are still to be entered. -/
  | seeding (todo : List OperandId)
  | between
  /-- In a round: these operands are still to be tried, and so many have been settled. -/
  | trying (todo : List OperandId) (settled : Nat)
  | ended

/-- A moment of a run, with the number of rounds that may still begin. -/
structure Moment where
  findings : Findings
  left : Nat
  stage : Stage

def start (a : Analysis) : Moment := ⟨.empty, a.settings.maxRounds, .seeding a.operands⟩

/-- One step of a run. -/
inductive Step (a : Analysis) : Moment → Moment → Prop
  | seedOne {f g : Findings} {n : Nat} {x : OperandId} {xs : List OperandId}
      (h : a.seedOne f x = .ok g) : Step a ⟨f, n, .seeding (x :: xs)⟩ ⟨g, n, .seeding xs⟩
  | seeded {f : Findings} {n : Nat} : Step a ⟨f, n, .seeding []⟩ ⟨f, n, .between⟩
  | stop {f : Findings} {n : Nat} (h : n = 0 ∨ f.pending = []) :
      Step a ⟨f, n, .between⟩ ⟨f, n, .ended⟩
  | round {f : Findings} {n : Nat} (h : f.pending ≠ []) :
      Step a ⟨f, n + 1, .between⟩ ⟨f, n, .trying f.pending 0⟩
  | attempt {f g : Findings} {n k : Nat} {x : OperandId} {xs : List OperandId} {settled : Bool}
      (h : a.attempt f x = .ok (g, settled)) :
      Step a ⟨f, n, .trying (x :: xs) k⟩ ⟨g, n, .trying xs (k + settled.toNat)⟩
  | count {f : Findings} {n k : Nat} (h : ¬(k = 0 ∧ f.changes = 0)) :
      Step a ⟨f, n, .trying [] k⟩ ⟨f.takeChanges.2, n, .between⟩
  | promote {f : Findings} {n k : Nat} (h : k = 0 ∧ f.changes = 0) :
      Step a ⟨f, n, .trying [] k⟩ ⟨f.takeChanges.2.promote, n, .ended⟩

/-- The moments that a run passes. -/
def Passes (a : Analysis) (m : Moment) : Prop := ReflTransGen (Step a) a.start m

variable {a : Analysis}

theorem step_rightUnique : Relator.RightUnique (Step a) := by
  intro m m₁ m₂ h₁ h₂
  cases h₁ with
  | seedOne h₁ =>
    cases h₂ with
    | seedOne h₂ =>
      rw [h₁] at h₂
      rw [Except.ok.inj h₂]
  | seeded =>
    cases h₂
    rfl
  | stop h₁ =>
    cases h₂ with
    | stop => rfl
    | round hp => exact absurd (h₁.resolve_left (Nat.succ_ne_zero _)) hp
  | round hp =>
    cases h₂ with
    | stop h₂ => exact absurd (h₂.resolve_left (Nat.succ_ne_zero _)) hp
    | round => rfl
  | attempt h₁ =>
    cases h₂ with
    | attempt h₂ =>
      rw [h₁] at h₂
      obtain ⟨rfl, rfl⟩ := Prod.mk.inj (Except.ok.inj h₂)
      rfl
  | count h₁ =>
    cases h₂ with
    | count => rfl
    | promote h₂ => exact absurd h₂ h₁
  | promote h₁ =>
    cases h₂ with
    | count h₂ => exact absurd h₁ h₂
    | promote => rfl

/-- Every moment that a run passes comes before its end. -/
theorem Passes.leads_to_ended {m : Moment} {f : Findings} {n : Nat} (hm : a.Passes m)
    (he : a.Passes ⟨f, n, .ended⟩) : ReflTransGen (Step a) m ⟨f, n, .ended⟩ := by
  rcases ReflTransGen.total_of_right_unique step_rightUnique hm he with h | h
  · exact h
  · rcases ReflTransGen.cases_head h with rfl | ⟨m', hstep, -⟩
    · exact .refl
    · cases hstep

theorem steps_of_seeding {xs : List OperandId} {f g : Findings} (n : Nat)
    (h : xs.foldlM a.seedOne f = .ok g) :
    ReflTransGen (Step a) ⟨f, n, .seeding xs⟩ ⟨g, n, .between⟩ := by
  induction xs generalizing f with
  | nil =>
    obtain rfl : f = g := Except.ok.inj h
    exact .single .seeded
  | cons x xs ih =>
    rw [List.foldlM_cons] at h
    cases hx : a.seedOne f x with
    | error e => simp [hx, bind, Except.bind] at h
    | ok f' =>
      simp only [hx, bind, Except.bind] at h
      exact .head (.seedOne hx) (ih h)

theorem steps_of_tries {xs : List OperandId} {f g : Findings} {k : Nat} (h : Tries a f xs g k)
    (n settled : Nat) :
    ReflTransGen (Step a) ⟨f, n, .trying xs settled⟩ ⟨g, n, .trying [] (settled + k)⟩ := by
  induction h generalizing settled with
  | nil f => exact .refl
  | @cons f f₁ g x xs b k hx _ ih =>
    have hcount : settled + (k + b.toNat) = settled + b.toNat + k := by omega
    rw [hcount]
    exact .head (.attempt hx) (ih _)

theorem steps_of_solve {limit : Nat} {f : Findings} {e : Ending} (h : a.solve limit f = .ok e) :
    ∃ n, ReflTransGen (Step a) ⟨f, limit, .between⟩ ⟨e.findings, n, .ended⟩ := by
  induction limit generalizing f e with
  | zero =>
    obtain rfl := Except.ok.inj h
    exact ⟨0, .single (.stop (Or.inl rfl))⟩
  | succ limit ih =>
    rcases solve_cases h with ⟨hp, rfl⟩ | ⟨hp, g, k, hg, hrest⟩
    · exact ⟨limit + 1, .single (.stop (Or.inr hp))⟩
    have hround : ReflTransGen (Step a) ⟨f, limit + 1, .between⟩ ⟨g, limit, .trying [] k⟩ := by
      have htries := steps_of_tries (tries_of_attemptAll hg) limit 0
      rw [Nat.zero_add] at htries
      exact .head (.round hp) htries
    rcases hrest with ⟨hstill, rfl⟩ | ⟨hprogress, e', he, rfl⟩
    · exact ⟨limit, hround.tail (.promote hstill)⟩
    · obtain ⟨n, hn⟩ := ih he
      exact ⟨n, (hround.tail (.count hprogress)).trans hn⟩

theorem passes_of_run {r : Recovery} (h : Recovery.run a = .ok r) :
    ∃ n, a.Passes ⟨r.findings, n, .ended⟩ := by
  obtain ⟨f₀, hs, hsolve⟩ := solve_of_run h
  obtain ⟨n, hn⟩ := steps_of_solve hsolve
  exact ⟨n, (steps_of_seeding _ hs).trans hn⟩

/-- An attempt leaves the findings, or records or settles the type that the rules come to. -/
theorem attempt_cases {f g : Findings} {x : OperandId} {settled : Bool}
    (h : a.attempt f x = .ok (g, settled)) :
    g = f ∨ ∃ t, ((a.inquiry x).outcome f.known?).type? = some t ∧
      (g = f.suggest x t ∨ g = f.settle x t) := by
  unfold attempt at h
  simp only at h
  cases ho : (a.inquiry x).outcome f.known? with
  | fault e => simp [ho] at h
  | wait =>
    simp only [ho, Except.ok.injEq, Prod.mk.injEq] at h
    exact Or.inl h.1.symm
  | guess t =>
    simp only [ho, Except.ok.injEq, Prod.mk.injEq] at h
    exact Or.inr ⟨t, rfl, Or.inl h.1.symm⟩
  | answer t =>
    simp only [ho] at h
    split at h
    · exact Or.inr ⟨t, rfl, Or.inl (Prod.mk.inj (Except.ok.inj h)).1.symm⟩
    · exact Or.inr ⟨t, rfl, Or.inr (Prod.mk.inj (Except.ok.inj h)).1.symm⟩

theorem isSettled_settle {f : Findings} {x y : OperandId} (t : Ty)
    (h : (f.about y).isSettled = true) : ((f.settle x t).about y).isSettled = true := by
  rw [Findings.about_settle]
  split
  · rfl
  · exact h

theorem isSettled_suggest {f : Findings} {x y : OperandId} (t : Ty)
    (h : (f.about y).isSettled = true) : ((f.suggest x t).about y).isSettled = true := by
  rw [Findings.about_suggest]
  split
  · rename_i hx
    rw [hx.1, h] at hx
    cases hx.2
  · exact h

/-- What is settled stays settled. -/
theorem Step.isSettled {m m' : Moment} (h : Step a m m') {x : OperandId}
    (hx : (m.findings.about x).isSettled = true) : (m'.findings.about x).isSettled = true := by
  cases h with
  | seedOne h =>
    rcases seedOne_start h with ⟨-, rfl⟩ | ⟨t, -, rfl⟩
    · rwa [Findings.about_add]
    · exact isSettled_settle t hx
  | attempt h =>
    rcases attempt_cases h with rfl | ⟨t, -, rfl | rfl⟩
    · exact hx
    · exact isSettled_suggest t hx
    · exact isSettled_settle t hx
  | @promote f n k h =>
    rw [Findings.about_promote, Findings.about_takeChanges]
    cases hf : f.about x <;> simp_all [Finding.isSettled, Finding.promote]
  | _ => exact hx

theorem isSettled_of_steps {m m' : Moment} (h : ReflTransGen (Step a) m m') {x : OperandId}
    (hx : (m.findings.about x).isSettled = true) : (m'.findings.about x).isSettled = true := by
  induction h with
  | refl => exact hx
  | tail _ hstep ih => exact hstep.isSettled ih

theorem clean_of_start? (hp : a.PresetsClean) {x : OperandId} (hx : x ∈ a.operands) {t : Ty}
    (h : a.start? x = some t) : t.Clean := by
  rcases start?_cases h with ⟨rfl, hu⟩ | hc
  · exact hp x hx hu
  · exact hc

theorem clean_of_type? {f : Findings} (hf : KnownClean f) {x : OperandId} {t : Ty}
    (h : ((a.inquiry x).outcome f.known?).type? = some t) : t.Clean := by
  obtain ⟨v, hattempted, hv⟩ : ∃ v, a.Attempted f x v ∧ v.known? = some t := by
    cases ho : (a.inquiry x).outcome f.known? with
    | answer u =>
      obtain rfl : u = t := by simpa [ho, Outcome.type?] using h
      refine ⟨if (a.inquiry x).hearsGuess f then .guess u else .settled u, ?_, ?_⟩
      · simp [Attempted, ho]
      · split <;> rfl
    | guess u =>
      obtain rfl : u = t := by simpa [ho, Outcome.type?] using h
      exact ⟨.guess u, by simp [Attempted, ho], rfl⟩
    | wait => simp [ho, Outcome.type?] at h
    | fault e => simp [ho, Outcome.type?] at h
  exact clean_of_attempted hf hattempted hv

theorem KnownClean.settle {f : Findings} (h : KnownClean f) (x : OperandId) {t : Ty}
    (ht : t.Clean) : KnownClean (f.settle x t) := by
  intro y u hy
  rw [Findings.known?, Findings.about_settle] at hy
  split at hy
  · obtain rfl : t = u := Option.some.inj hy
    exact ht
  · exact h y u hy

theorem KnownClean.suggest {f : Findings} (h : KnownClean f) (x : OperandId) {t : Ty}
    (ht : t.Clean) : KnownClean (f.suggest x t) := by
  intro y u hy
  rw [Findings.known?, Findings.about_suggest] at hy
  split at hy
  · obtain rfl : t = u := Option.some.inj hy
    exact ht
  · exact h y u hy

/-- Known types are clean, and only operands of the program wait to be entered. -/
structure Moment.Sound (a : Analysis) (m : Moment) : Prop where
  clean : KnownClean m.findings
  todo : ∀ xs, m.stage = .seeding xs → ∀ x ∈ xs, x ∈ a.operands

theorem Step.sound (hp : a.PresetsClean) {m m' : Moment} (h : Step a m m') (hm : m.Sound a) :
    m'.Sound a := by
  obtain ⟨hclean, htodo⟩ := hm
  cases h with
  | @seedOne f g n x xs h =>
    have hxs := htodo _ rfl
    refine ⟨?_, ?_⟩
    · rcases seedOne_start h with ⟨-, rfl⟩ | ⟨t, hs, rfl⟩
      · intro y u hy
        rw [Findings.known?, Findings.about_add] at hy
        exact hclean y u hy
      · exact hclean.settle x (clean_of_start? hp (hxs x List.mem_cons_self) hs)
    · intro ys hys y hy
      obtain rfl := Stage.seeding.inj hys
      exact hxs y (List.mem_cons_of_mem x hy)
  | attempt h =>
    refine ⟨?_, by simp⟩
    rcases attempt_cases h with rfl | ⟨t, ht, rfl | rfl⟩
    · exact hclean
    · exact hclean.suggest _ (clean_of_type? hclean ht)
    · exact hclean.settle _ (clean_of_type? hclean ht)
  | @promote f n k h =>
    refine ⟨?_, by simp⟩
    intro y u hy
    have hknown : (f.about y).promote.known? = (f.about y).known? := by cases f.about y <;> rfl
    rw [Findings.known?, Findings.about_promote, Findings.about_takeChanges, hknown] at hy
    exact hclean y u hy
  | _ => exact ⟨hclean, by simp⟩

theorem Passes.sound (hp : a.PresetsClean) {m : Moment} (h : a.Passes m) : m.Sound a := by
  induction h with
  | refl =>
    refine ⟨?_, ?_⟩
    · intro x t hx
      cases hx
    · intro xs hxs x hx
      obtain rfl := Stage.seeding.inj hxs
      exact hx
  | tail _ hstep ih => exact hstep.sound hp ih

/-- If the types that operands come with are simplified and nothing in them is unknown, the same
holds of every type that is guessed or settled at any moment of the run. So an operand has an unknown
type at the end exactly if it was not settled at any moment. -/
theorem known_simplified_of_passes (hp : ∀ x ∈ a.operands,
      (a.graph.operand x).type.isUnknown = false →
        (a.graph.operand x).type.simplify = (a.graph.operand x).type ∧
          (a.graph.operand x).type.Known) :
    (∀ m, a.Passes m → ∀ x t, m.findings.about x = .guess t ∨ m.findings.about x = .settled t →
      t.simplify = t ∧ t.Known) ∧
    ∀ r, Recovery.run a = .ok r → (∃ n, a.Passes ⟨r.findings, n, .ended⟩) ∧
      ∀ x ∈ a.operands, r.typeOf x = .unknown ↔
        ∀ m, a.Passes m → (m.findings.about x).isSettled = false := by
  have hpresets : a.PresetsClean := by
    intro x hx hu
    exact ⟨Ty.simplify_eq_self_iff.1 (hp x hx hu).1, (hp x hx hu).2⟩
  have hknown : ∀ m, a.Passes m → ∀ x t,
      m.findings.about x = .guess t ∨ m.findings.about x = .settled t → t.Clean := by
    intro m hm x t hx
    apply (hm.sound hpresets).clean x t
    rcases hx with hx | hx <;> rw [Findings.known?, hx] <;> rfl
  refine ⟨?_, ?_⟩
  · intro m hm x t hx
    have hclean := hknown m hm x t hx
    exact ⟨Ty.simplify_eq_self_iff.2 hclean.flat, hclean.known⟩
  intro r hr
  obtain ⟨n, hend⟩ := passes_of_run hr
  refine ⟨⟨n, hend⟩, ?_⟩
  intro x hx
  rw [Recovery.typeOf, analysis_of_run hr, if_pos hx, Findings.final, Findings.settled?]
  constructor
  · intro hunknown m hm
    by_contra hsettled
    have hend' := isSettled_of_steps (hm.leads_to_ended hend) (by simpa using hsettled)
    cases hf : r.findings.about x with
    | settled t =>
      obtain rfl : t = .unknown := by simpa [hf, Finding.settled?] using hunknown
      exact (hknown _ hend x .unknown (Or.inr hf)).known.self rfl
    | _ => simp [hf, Finding.isSettled] at hend'
  · intro hnever
    have hlast := hnever _ hend
    cases hf : r.findings.about x with
    | settled t => simp [hf, Finding.isSettled] at hlast
    | _ => rfl

def gapType : Ty := .compound .union .int (.arrayOf .string) []

/-- A merge with a gap. The operands in order: one that comes with a type, one of which nothing is
ever known, and the merge of the two, of which a guess is made final. -/
def gapAnalysis : Analysis :=
  blockAnalysis #[⟨.temporary, gapType⟩]
    [.plain { result := some ⟨2⟩ } .phi [(.vars, .many [some ⟨0⟩, some ⟨1⟩])]] [⟨0⟩, ⟨1⟩, ⟨2⟩]

def gapFindings (merge : Finding) : Findings :=
  { table := ⟨[(⟨0⟩, .settled gapType), (⟨1⟩, .nothing), (⟨2⟩, merge)]⟩ }

theorem gap_run :
    Recovery.run gapAnalysis =
      .ok ⟨gapAnalysis, (gapFindings (.guess gapType)).promote, 2, true⟩ := by
  have h₀ : gapAnalysis.Reaches 0 (gapFindings .nothing) := .seed rfl
  have h₁ : gapAnalysis.Reaches 1 (gapFindings (.guess gapType)) :=
    .round h₀ (by decide) rfl (by decide)
  exact run_of_stalls h₁ (g := gapFindings (.guess gapType)) ⟨by decide, rfl, rfl⟩ (by decide)

/-- The merge has a simplified type at the end, and the other operand was never settled. -/
theorem known_simplified_of_passes_gap :
    (∀ x ∈ gapAnalysis.operands, (gapAnalysis.graph.operand x).type.isUnknown = false →
      (gapAnalysis.graph.operand x).type.simplify = (gapAnalysis.graph.operand x).type ∧
        (gapAnalysis.graph.operand x).type.Known) ∧
    ∃ r n, Recovery.run gapAnalysis = .ok r ∧ gapAnalysis.Passes ⟨r.findings, n, .ended⟩ ∧
      r.findings.about ⟨2⟩ = .settled gapType ∧ gapType.simplify = gapType ∧ gapType.Known ∧
      ∀ m, gapAnalysis.Passes m → (m.findings.about ⟨1⟩).isSettled = false := by
  have hpreset : gapType.simplify = gapType ∧ gapType.Known := by
    refine ⟨rfl, ?_⟩
    simp [gapType, Ty.Known, Ty.Everywhere, Ty.EverywhereAll]
  have hp : ∀ x ∈ gapAnalysis.operands, (gapAnalysis.graph.operand x).type.isUnknown = false →
      (gapAnalysis.graph.operand x).type.simplify = (gapAnalysis.graph.operand x).type ∧
        (gapAnalysis.graph.operand x).type.Known := by
    intro x hx hknown
    have hzero : ∀ x ∈ gapAnalysis.operands,
        (gapAnalysis.graph.operand x).type.isUnknown = false → x = ⟨0⟩ := by decide
    rw [hzero x hx hknown]
    exact hpreset
  obtain ⟨hknown, hrun⟩ := known_simplified_of_passes hp
  obtain ⟨⟨n, hn⟩, hunknown⟩ := hrun _ gap_run
  obtain ⟨hsimplified, hmerge⟩ := hknown _ hn ⟨2⟩ gapType (Or.inr rfl)
  exact ⟨hp, _, n, gap_run, hn, rfl, hsimplified, hmerge, (hunknown ⟨1⟩ (by decide)).1 rfl⟩

end TypeRecovery.Analysis
