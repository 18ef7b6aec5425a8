import Mathlib.Data.List.Permutation
import TypeRecovery.Proofs.Rest

/-!
# Convergence

Whether there is a number of rounds that is enough. There is none exactly when the guess for some
operand grows or alternates for ever. There is one for every tame program, circles of merges
included. No fault is needed for rounds without end: it is enough that an operand is narrowed by
what is merged with it.
-/
namespace TypeRecovery.Analysis

variable {a : Analysis}

/-- The same analysis with another bound on the rounds. -/
def bounded (a : Analysis) (m : Nat) : Analysis := a.scheduled a.operands m

/-- No rule fails, however many rounds there are. -/
def Faultless (a : Analysis) : Prop := ∀ m, ∃ r, Recovery.run (a.bounded m) = .ok r

/-- Some number of rounds is enough, and so is every greater one. -/
def Converges (a : Analysis) : Prop :=
  ∃ n, ∀ m, n ≤ m → ∃ r, Recovery.run (a.bounded m) = .ok r ∧ r.converged = true

theorem attempt_bounded (m : Nat) : (a.bounded m).attempt = a.attempt := by
  funext f x
  have hinquiry : (a.bounded m).inquiry x = a.inquiry x := inquiry_scheduled a.operands m x
  rw [attempt, attempt, hinquiry]

theorem solve_bounded (m limit : Nat) (f : Findings) :
    (a.bounded m).solve limit f = a.solve limit f := by
  induction limit generalizing f with
  | zero => rfl
  | succ limit ih => simp only [solve, attemptAll, attempt_bounded, ih]

theorem run_bounded (m : Nat) {f₀ : Findings} (hs : a.seed = .ok f₀) :
    Recovery.run (a.bounded m) =
      (a.solve m f₀).map fun e => ⟨a.bounded m, e.findings, e.rounds, e.converged⟩ := by
  have hseed : (a.bounded m).seed = .ok f₀ := hs
  have hrounds : (a.bounded m).settings.maxRounds = m := rfl
  rw [Recovery.run, hseed, hrounds]
  simp only [bind, Except.bind, solve_bounded]
  cases a.solve m f₀ <;> rfl

theorem run_of_reaches {n : Nat} {f : Findings} (h : a.Reaches n f) (limit : Nat) :
    Recovery.run (a.bounded (n + limit)) =
      (a.solve limit f).map fun e =>
        ⟨a.bounded (n + limit), e.findings, e.rounds + n, e.converged⟩ := by
  obtain ⟨f₀, hs⟩ := h.seeded
  rw [run_bounded (n + limit) hs, solve_of_reaches hs h]
  cases a.solve limit f <;> rfl

/-- No round follows: all operands are settled, or one more round stalls. -/
def Last (a : Analysis) (f : Findings) : Prop := f.pending = [] ∨ ∃ g, a.Stalls f g

theorem Last.solve {f : Findings} (h : a.Last f) (limit : Nat) :
    ∃ e, a.solve (limit + 1) f = .ok e ∧ e.converged = true := by
  rcases h with hdone | ⟨g, hg⟩
  · exact ⟨_, solve_done hdone _, rfl⟩
  · exact ⟨_, solve_stalls hg limit, rfl⟩

theorem converges_of_last {n : Nat} {f : Findings} (h : a.Reaches n f) (hlast : a.Last f) :
    a.Converges := by
  refine ⟨n + 1, ?_⟩
  intro m hm
  obtain ⟨limit, rfl⟩ : ∃ limit, m = n + (limit + 1) := ⟨m - (n + 1), by omega⟩
  obtain ⟨e, he, hc⟩ := hlast.solve limit
  rw [run_of_reaches h, he]
  exact ⟨_, rfl, hc⟩

/-- While rounds make progress, too small a bound stops them and there is no fault. -/
theorem run_of_reaches_succ {n : Nat} {g : Findings} (h : a.Reaches (n + 1) g) :
    ∃ r, Recovery.run (a.bounded n) = .ok r ∧ r.converged = false := by
  obtain ⟨f, hf, hp, -, -⟩ := h.cases
  have hrun := run_of_reaches hf 0
  rw [Nat.add_zero, solve] at hrun
  refine ⟨_, hrun, ?_⟩
  simpa using hp

theorem faultless_of_last {n : Nat} {f : Findings} (h : a.Reaches n f) (hlast : a.Last f) :
    a.Faultless := by
  intro m
  rcases Nat.lt_or_ge m n with hm | hm
  · obtain ⟨g, hg⟩ := h.earlier (Nat.succ_le_of_lt hm)
    obtain ⟨r, hr, -⟩ := run_of_reaches_succ hg
    exact ⟨r, hr⟩
  · obtain ⟨limit, rfl⟩ : ∃ limit, m = n + limit := ⟨m - n, by omega⟩
    rw [run_of_reaches h]
    cases limit with
    | zero => exact ⟨_, rfl⟩
    | succ limit =>
      obtain ⟨e, he, -⟩ := hlast.solve limit
      rw [he]
      exact ⟨_, rfl⟩

/-- Without faults there is a last round, or there is always one more. -/
theorem exists_last (h : a.Faultless) (hend : ¬a.Endless) : ∃ n f, a.Reaches n f ∧ a.Last f := by
  by_contra hnone
  apply hend
  intro n
  induction n with
  | zero =>
    obtain ⟨r, hr⟩ := h 0
    cases hs : a.seed with
    | error e =>
      have hseed : (a.bounded 0).seed = .error e := hs
      simp [Recovery.run, hseed, bind, Except.bind] at hr
    | ok f₀ => exact ⟨f₀, .seed hs⟩
  | succ n ih =>
    obtain ⟨f, hf⟩ := ih
    have hlast : ¬a.Last f := fun hlast => hnone ⟨n, f, hf, hlast⟩
    have hp : f.pending ≠ [] := fun hp => hlast (Or.inl hp)
    cases hround : a.attemptAll f f.pending with
    | error e =>
      -- the fault would end a run with one round more
      obtain ⟨r, hr⟩ := h (n + 1)
      have hempty : f.pending.isEmpty = false := by simpa using hp
      rw [run_of_reaches hf, solve, hempty, hround] at hr
      simp [bind, Except.bind, Except.map] at hr
    | ok gk =>
      obtain ⟨g, k⟩ := gk
      refine ⟨g.takeChanges.2, .round hf hp hround ?_⟩
      rintro ⟨rfl, hc⟩
      exact hlast (Or.inr ⟨g, hp, hround, hc⟩)

theorem converges_iff_not_endless (h : a.Faultless) : a.Converges ↔ ¬a.Endless := by
  constructor
  · rintro ⟨n, hn⟩ hend
    obtain ⟨g, hg⟩ := hend (n + 1)
    obtain ⟨r, hr, hconv⟩ := run_of_reaches_succ hg
    obtain ⟨r', hr', hconv'⟩ := hn n (Nat.le_refl n)
    obtain rfl : r = r' := Except.ok.inj (hr.symm.trans hr')
    simp [hconv] at hconv'
  · intro hend
    obtain ⟨n, f, hf, hlast⟩ := exists_last h hend
    exact converges_of_last hf hlast

/-- A program whose rules do not fail converges unless some guess grows or alternates for ever, and
a tame program does. -/
theorem converges_iff_no_restless_guess (h : a.Faultless) :
    (a.Converges ↔ ∀ x, ¬a.Grows x ∧ ¬a.Alternates x) ∧
      (a.PresetsClean → a.Tame → a.Converges) := by
  constructor
  · rw [converges_iff_not_endless h, endless_iff]
    simp only [not_exists, not_or]
  · intro hp ht
    rw [converges_iff_not_endless h]
    exact not_endless_of_tame hp ht

/-- Two merges in a circle. The operands in order: an integer, a string, the integer or the second
merge, the string or the first. -/
def circleOps : List Op :=
  [.plain { result := some ⟨2⟩ } .phi [(.vars, .many [some ⟨0⟩, some ⟨3⟩])],
   .plain { result := some ⟨3⟩ } .phi [(.vars, .many [some ⟨1⟩, some ⟨2⟩])]]

def circleAnalysis : Analysis :=
  blockAnalysis #[⟨.literal (.int 1), .unknown⟩, ⟨.literal (.text "a"), .unknown⟩] circleOps
    [⟨0⟩, ⟨3⟩, ⟨2⟩, ⟨1⟩]

def circleFindings (two three : Finding) : Findings :=
  { table := ⟨[(⟨0⟩, .settled .int), (⟨3⟩, three), (⟨2⟩, two), (⟨1⟩, .settled .string)]⟩ }

def circleEnd : Findings :=
  circleFindings (.guess (.compound .union .int .string []))
    (.guess (.compound .union .string .int []))

theorem circle_tame : circleAnalysis.Tame := by
  intro x _
  by_cases h₂ : x = ⟨2⟩
  · exact Or.inr ⟨_, _, by rw [h₂]; rfl, rfl⟩
  by_cases h₃ : x = ⟨3⟩
  · exact Or.inr ⟨_, _, by rw [h₃]; rfl, rfl⟩
  left
  apply guessFree_of_producers_eq_nil
  apply List.filter_eq_nil_iff.2
  intro op hop
  have hresult : op.head.result = some ⟨2⟩ ∨ op.head.result = some ⟨3⟩ := by
    rcases List.mem_pair.1 hop with rfl | rfl
    · exact Or.inl rfl
    · exact Or.inr rfl
  rcases hresult with h | h <;> simpa [h, eq_comm] using ‹_›

theorem circle_faultless : circleAnalysis.Faultless := by
  have h₀ : circleAnalysis.Reaches 0 (circleFindings .nothing .nothing) := .seed rfl
  have h₁ : circleAnalysis.Reaches 1
      (circleFindings (.guess (.compound .union .int .string [])) (.guess .string)) :=
    .round h₀ (by decide) rfl (by decide)
  have h₂ : circleAnalysis.Reaches 2 circleEnd := .round h₁ (by decide) rfl (by decide)
  exact faultless_of_last h₂ (Or.inr ⟨circleEnd, by decide, rfl, rfl⟩)

/-- The merges of the circle come to rest. -/
theorem circle_converges :
    circleAnalysis.Faultless ∧ circleAnalysis.PresetsClean ∧ circleAnalysis.Tame ∧
      circleAnalysis.Converges := by
  have hunknown : ∀ x ∈ circleAnalysis.operands,
      (circleAnalysis.graph.operand x).type.isUnknown = true := by decide
  have hclean : circleAnalysis.PresetsClean := by
    intro x hx hknown
    simp [hunknown x hx] at hknown
  exact ⟨circle_faultless, hclean, circle_tame,
    (converges_iff_no_restless_guess circle_faultless).2 hclean circle_tame⟩

/-- An operand narrowed by what it is merged into. The operands in order: an integer, what is left
of another integer that is not of the type of the merge, the merge of these two, the other integer.
-/
def flipOps : List Op :=
  [.plain { result := some ⟨2⟩ } .phi [(.vars, .many [some ⟨0⟩, some ⟨1⟩])],
   .assertion { result := some ⟨1⟩ } (some ⟨3⟩) (.negation (.isType ⟨2⟩) [])]

def flipOperands : Array Operand :=
  #[⟨.literal (.int 1), .unknown⟩, ⟨.temporary, .unknown⟩, ⟨.temporary, .unknown⟩,
    ⟨.literal (.int 2), .unknown⟩]

def flipAnalysis : Analysis := blockAnalysis flipOperands flipOps [⟨0⟩, ⟨1⟩, ⟨2⟩, ⟨3⟩]

def flipFindings (one two : Finding) : Findings :=
  { table := ⟨[(⟨0⟩, .settled .int), (⟨1⟩, one), (⟨2⟩, two), (⟨3⟩, .settled .int)]⟩ }

/-- What is left is null after an even number of rounds, and an integer after an odd one. -/
theorem flip_reaches (n : Nat) :
    flipAnalysis.Reaches (2 * n + 2)
        (flipFindings (.guess .null) (.guess (.compound .union .int .null []))) ∧
      flipAnalysis.Reaches (2 * n + 3) (flipFindings (.guess .int) (.guess .int)) := by
  have next {m : Nat}
      (h : flipAnalysis.Reaches m
        (flipFindings (.guess .null) (.guess (.compound .union .int .null [])))) :
      flipAnalysis.Reaches (m + 1) (flipFindings (.guess .int) (.guess .int)) :=
    .round h (by decide) rfl (by decide)
  induction n with
  | zero =>
    have h₀ : flipAnalysis.Reaches 0 (flipFindings .nothing .nothing) := .seed rfl
    have h₁ : flipAnalysis.Reaches 1 (flipFindings .nothing (.guess .int)) :=
      .round h₀ (by decide) rfl (by decide)
    have h₂ : flipAnalysis.Reaches 2
        (flipFindings (.guess .null) (.guess (.compound .union .int .null []))) :=
      .round h₁ (by decide) rfl (by decide)
    exact ⟨h₂, next h₂⟩
  | succ n ih =>
    have h : flipAnalysis.Reaches (2 * n + 4)
        (flipFindings (.guess .null) (.guess (.compound .union .int .null []))) :=
      .round ih.2 (by decide) rfl (by decide)
    exact ⟨h, next h⟩

/-- There is no fault, and no number of rounds is enough. -/
theorem flip_not_converges :
    Analysis.of (blockGraph flipOperands flipOps) {} .empty = .ok flipAnalysis ∧
      flipAnalysis.Faultless ∧
      ∀ m r, Recovery.run (flipAnalysis.bounded m) = .ok r → r.converged = false := by
  have hrun (m : Nat) :
      ∃ r, Recovery.run (flipAnalysis.bounded m) = .ok r ∧ r.converged = false := by
    obtain ⟨g, hg⟩ := (flip_reaches m).1.earlier (m := m + 1) (by omega)
    exact run_of_reaches_succ hg
  refine ⟨by cbv, ?_, ?_⟩
  · intro m
    obtain ⟨r, hr, -⟩ := hrun m
    exact ⟨r, hr⟩
  · intro m r hr
    obtain ⟨r', hr', hc⟩ := hrun m
    rw [Except.ok.inj (hr.symm.trans hr')]
    exact hc

end TypeRecovery.Analysis
