import Mathlib.Data.List.Permutation
import Mathlib.Tactic.ByContra
import TypeRecovery.Proofs.Dependence

/-!
# Guesses that are made final

When a round makes no progress, the guesses are taken for the types of their operands. Such a type
need not be what the rules make of the final types: a rule may have answered on an early guess and
wait now that the guess is wider, and an incomplete merge records its guess without regard to other
operations that write the same operand. These two are the only exceptions. Whenever all operations
that write an operand answer at the end, or a merge is the only one, the rules confirm the type.
-/
namespace TypeRecovery.Analysis

open Inquiry

/-- The operands that a merge takes its value from. -/
def incoming (op : Op) : List (Option OperandId) :=
  match op.slot? .vars with
  | some (.many xs) => xs
  | _ => []

/-- The types that are known of the values a merge takes. -/
def incomingTypes (known : OperandId → Option Ty) (op : Op) : List Ty :=
  (incoming op).filterMap (·.bind known)

/-- A merge of which some value is not known. -/
def IncompleteMerge (known : OperandId → Option Ty) (op : Op) : Prop :=
  op.action = .phi ∧ ∃ x ∈ incoming op, x.bind known = none

/-- The rules confirm a type of an operand: all operations that write the operand answer, and their
answers merge to the type, or an incomplete merge is the only one, and what it knows merges to the
type. -/
def Confirmed (a : Analysis) (known : OperandId → Option Ty) (x : OperandId) (t : Ty) : Prop :=
  (∃ tss, List.Forall₂ (fun op ts => (a.rule op).outcome known = .answer ts)
      (a.graph.producers x) tss ∧ (Ty.lubAll tss.flatten).equiv t = true) ∨
    ∃ op u, a.graph.producers x = [op] ∧ IncompleteMerge known op ∧
      Ty.unionOf? (incomingTypes known op) = some u ∧ u.equiv t = true

/-- The run makes the guesses of `g` final, which a round without progress left of `f`. -/
structure Promotes (a : Analysis) (r : Recovery) (f g : Findings) : Prop where
  run : Recovery.run a = .ok r
  last : ∃ n, r.rounds = n + 1 ∧ a.Reaches n f
  stalls : a.Stalls f g

variable {a : Analysis}

theorem solve_of_run {r : Recovery} (h : Recovery.run a = .ok r) :
    ∃ f₀, a.seed = .ok f₀ ∧
      a.solve a.settings.maxRounds f₀ = .ok ⟨r.findings, r.rounds, r.converged⟩ := by
  unfold Recovery.run at h
  cases hs : a.seed with
  | error e => simp [hs, bind, Except.bind] at h
  | ok f₀ =>
    refine ⟨f₀, rfl, ?_⟩
    simp only [hs, bind, Except.bind, pure, Except.pure] at h
    cases he : a.solve a.settings.maxRounds f₀ with
    | error e => simp [he] at h
    | ok e =>
      simp only [he, Except.ok.injEq] at h
      rw [← h]

theorem Promotes.findings {r : Recovery} {f g : Findings} (h : a.Promotes r f g) :
    r.findings = g.takeChanges.2.promote := by
  obtain ⟨n, hn, hf⟩ := h.last
  obtain ⟨f₀, hs, hsolve⟩ := solve_of_run h.run
  by_cases hm : a.settings.maxRounds ≤ n
  · -- the bound would have ended the run before
    obtain ⟨f', hf'⟩ := hf.earlier hm
    have hlimit := solve_of_reaches hs hf' 0
    rw [Nat.add_zero, hsolve] at hlimit
    have hrounds := congrArg Ending.rounds (Except.ok.inj hlimit)
    simp only at hrounds
    omega
  · obtain ⟨k, hk⟩ : ∃ k, a.settings.maxRounds = n + (k + 1) :=
      ⟨a.settings.maxRounds - n - 1, by omega⟩
    rw [hk, solve_of_reaches hs hf, solve_stalls h.stalls] at hsolve
    have hfindings := congrArg Ending.findings (Except.ok.inj hsolve)
    exact hfindings.symm

/-- Making guesses final changes nothing about what is known. -/
theorem Promotes.known? {r : Recovery} {f g : Findings} (h : a.Promotes r f g) :
    r.findings.known? = g.known? := by
  funext x
  rw [h.findings, Findings.known?, Findings.about_promote, Findings.about_takeChanges,
    Findings.known?]
  cases g.about x <;> rfl

theorem known?_of_attempted {f : Findings} {x : OperandId} {v : Finding}
    (h : a.Attempted f x v) (hx : f.known? x ≠ none) : v.known? ≠ none := by
  unfold Attempted at h
  split at h
  · rw [h]
    split <;> simp [Finding.known?]
  · rw [h]
    exact hx
  · simp [h, Finding.known?]
  · exact h.elim

/-- What is known stays known. -/
theorem AttemptSpec.known? {f g : Findings} {x y : OperandId} {settled : Bool}
    (h : AttemptSpec a f x g settled) (hy : f.known? y ≠ none) : g.known? y ≠ none := by
  by_cases hyx : y = x
  · subst hyx
    exact known?_of_attempted h.attempted hy
  · rw [Findings.known?, h.others y hyx]
    exact hy

/-- Every guess was made by rules that knew no more than is known now. -/
def Backed (a : Analysis) (f : Findings) : Prop :=
  ∀ x t, f.about x = .guess t → ∃ known : OperandId → Option Ty,
    (∀ y, known y ≠ none → f.known? y ≠ none) ∧
      ∃ u, (a.inquiry x).outcome known = .answer u ∨ (a.inquiry x).outcome known = .guess u

theorem Meets.backed {f : Findings} (h : a.Meets f) : a.Backed f := by
  induction h with
  | seed h =>
    intro x t hx
    rcases (seed_spec h).about x with hn | ⟨u, hu, -⟩
    · rw [hn] at hx
      cases hx
    · rw [hu] at hx
      cases hx
  | @attempt f g x _ _ _ hx hg ih =>
    have hspec := attempt_spec hg hx
    intro y t hy
    have hold (hf : f.about y = .guess t) : ∃ known : OperandId → Option Ty,
        (∀ z, known z ≠ none → g.known? z ≠ none) ∧
          ∃ u, (a.inquiry y).outcome known = .answer u ∨ (a.inquiry y).outcome known = .guess u := by
      obtain ⟨known, hknown, hu⟩ := ih y t hf
      exact ⟨known, fun z hz => hspec.known? (hknown z hz), hu⟩
    by_cases hyx : y = x
    · subst hyx
      have hattempted := hspec.attempted
      unfold Attempted at hattempted
      split at hattempted
      · rename_i u hu
        exact ⟨f.known?, fun z hz => hspec.known? hz, u, Or.inl hu⟩
      · exact hold (hattempted.symm.trans hy)
      · rename_i u hu
        exact ⟨f.known?, fun z hz => hspec.known? hz, u, Or.inr hu⟩
      · exact hattempted.elim
    · rw [hspec.others y hyx] at hy
      exact hold hy
  | count _ ih => exact ih

/-- A merge that writes its operand alone guesses for it. -/
theorem outcome_inquiry_merge {known : OperandId → Option Ty} {x : OperandId} {op : Op}
    (hp : a.graph.producers x = [op]) (hop : IncompleteMerge known op) :
    (a.inquiry x).outcome known = match Ty.unionOf? (incomingTypes known op) with
      | none => .wait
      | some u => .guess u := by
  obtain ⟨hphi, y, hy, hunknown⟩ := hop
  unfold incoming at hy
  split at hy
  · rename_i xs hxs
    have hall : (xs.all fun x => (x.bind known).isSome) = false := by
      rw [← Bool.not_eq_true, List.all_eq_true]
      intro hall
      have hsome := hall y hy
      rw [hunknown] at hsome
      exact absurd hsome (by decide)
    have hrule : (a.rule op).outcome known = match Ty.unionOf? (incomingTypes known op) with
        | none => .wait
        | some u => .guess u := by
      rw [rule_phi hphi, outcome_merge hxs, hall, incomingTypes, incoming, hxs]
      rfl
    rw [outcome_inquiry_of_producer hp, hrule]
    cases Ty.unionOf? (incomingTypes known op) <;> rfl
  · simp at hy

theorem answer_ne_nil {x : OperandId} (hx : a.OrderFree x) {f : Findings} (hf : a.Meets f) {op : Op}
    (hop : op ∈ a.graph.producers x) {ts : List Ty}
    (h : (a.rule op).outcome f.known? = .answer ts) : ts ≠ [] := by
  have hrule : ∃ R, Alike (Ty.Answers R) (fun _ _ => True) f.known? f.known?
      (a.rule op) (a.rule op) := by
    rcases hx with hp | hc
    · exact ⟨_, alike_rule Ty.exchange_cleanEquiv (hf.knownClean hp).rel a op (fun _ _ _ _ => trivial)
        fun _ _ _ h => h.2⟩
    · exact ⟨_, alike_rule Ty.exchange_equiv (fun y => (Finding.Same.refl (f.about y)).known?) a op
        (fun _ _ _ _ => trivial) fun haction => absurd haction (hc op hop)⟩
  obtain ⟨R, hR⟩ := hrule
  unfold Alike at hR
  rw [h] at hR
  cases hR with
  | answer hts => exact hts.ne_nil

/-- A guess at the end is what the last attempt made of the operand, with findings from which the
rules conclude the same as at the end. -/
theorem Stalls.attempted {n : Nat} {f g : Findings} (hf : a.Reaches n f) (h : a.Stalls f g)
    {x : OperandId} {t : Ty} (hx : g.about x = .guess t) (hfree : a.OrderFree x) :
    ∃ f', Alike (fun t u => t.equiv u = true) (fun t u => t.equiv u = true) f'.known? g.known?
        (a.inquiry x) (a.inquiry x) ∧ a.Attempted f' x (.guess t) := by
  obtain ⟨hg, hspec, hsame⟩ := h.spec hf
  obtain ⟨u, hu⟩ : ∃ u, f.about x = .guess u := by
    have hfx := hsame x
    rw [hx] at hfx
    generalize f.about x = v at hfx
    cases hfx
    exact ⟨_, rfl⟩
  have hpending := Findings.mem_pending_of_guess hf.meets.nodup hu
  obtain ⟨f', hmeets, hmix, -, hattempted⟩ := hspec.attempted hf.meets.nodup hpending
  refine ⟨f', ?_, hx ▸ hattempted⟩
  apply alike_inquiry_of_depends hfree (fun hp => hmeets.knownClean hp) fun hp => hg.knownClean hp
  intro y _
  apply Finding.Same.known?
  rcases hmix y with hy | hy
  · rw [hy]
    exact hsame y
  · rw [hy]
    exact .refl _

theorem exists_answers {known : OperandId → Option Ty} {ops : List Op}
    (h : ∀ op ∈ ops, ∃ ts, (a.rule op).outcome known = .answer ts) :
    ∃ tss, List.Forall₂ (fun op ts => (a.rule op).outcome known = .answer ts) ops tss := by
  induction ops with
  | nil => exact ⟨[], .nil⟩
  | cons op ops ih =>
    obtain ⟨ts, hts⟩ := h op List.mem_cons_self
    obtain ⟨tss, htss⟩ := ih fun o ho => h o (List.mem_cons_of_mem op ho)
    exact ⟨ts :: tss, .cons hts htss⟩

theorem confirmed_of_answers {n : Nat} {f g : Findings} (hf : a.Reaches n f) (h : a.Stalls f g)
    {x : OperandId} {t : Ty} (hx : g.about x = .guess t) (hfree : a.OrderFree x)
    (hall : ∀ op ∈ a.graph.producers x, ∃ ts, (a.rule op).outcome g.known? = .answer ts) :
    a.Confirmed g.known? x t := by
  obtain ⟨hg, -, -⟩ := h.spec hf
  obtain ⟨f', halike, hattempted⟩ := h.attempted hf hx hfree
  obtain ⟨tss, htss⟩ := exists_answers hall
  have hne : tss.flatten ≠ [] := by
    cases hops : a.graph.producers x with
    | nil =>
      -- nobody can have made a guess for an operand that nobody writes
      obtain ⟨known, -, u, hu⟩ := hg.backed x t hx
      simp only [inquiry, hops, List.mapM_nil] at hu
      rcases hu with hu | hu <;> cases hu
    | cons op ops =>
      rw [hops] at htss
      obtain ⟨ts, tss', hts, -, rfl⟩ := List.forall₂_cons_left_iff.1 htss
      have hts' := answer_ne_nil hfree hg (hops ▸ List.mem_cons_self) hts
      simp [hts']
  unfold Alike at halike
  rw [outcome_inquiry htss hne] at halike
  refine Or.inl ⟨tss, htss, ?_⟩
  unfold Attempted at hattempted
  generalize (a.inquiry x).outcome f'.known? = o at halike hattempted
  cases halike with
  | @answer u _ hu =>
    simp only at hattempted
    split at hattempted
    · obtain rfl : t = u := by simpa using hattempted
      exact Ty.equiv_symm hu
    · cases hattempted

theorem confirmed_of_merge {n : Nat} {f g : Findings} (hf : a.Reaches n f) (h : a.Stalls f g)
    {x : OperandId} {t : Ty} (hx : g.about x = .guess t) (hfree : a.OrderFree x) {op : Op}
    (hp : a.graph.producers x = [op]) (hop : IncompleteMerge g.known? op) :
    a.Confirmed g.known? x t := by
  obtain ⟨hg, -, -⟩ := h.spec hf
  obtain ⟨f', halike, hattempted⟩ := h.attempted hf hx hfree
  unfold Alike at halike
  rw [outcome_inquiry_merge hp hop] at halike
  unfold Attempted at hattempted
  cases hu : Ty.unionOf? (incomingTypes g.known? op) with
  | none =>
    -- then nothing was known of the incoming values when the guess was made
    obtain ⟨known, hknown, v, hv⟩ := hg.backed x t hx
    have hnone : ∀ y : Option OperandId, y.bind g.known? = none → y.bind known = none := by
      intro y hy
      cases y with
      | none => rfl
      | some y =>
        by_contra hy'
        exact hknown y hy' hy
    have hempty : incomingTypes known op = [] := by
      have hempty' : incomingTypes g.known? op = [] := Ty.combineAll?_eq_none.1 hu
      simp only [incomingTypes, List.filterMap_eq_nil_iff] at hempty' ⊢
      exact fun y hy => hnone y (hempty' y hy)
    obtain ⟨hphi, y, hy, hunknown⟩ := hop
    rw [outcome_inquiry_merge hp ⟨hphi, y, hy, hnone y hunknown⟩, hempty] at hv
    rcases hv with hv | hv <;> cases hv
  | some u =>
    refine Or.inr ⟨op, u, hp, hop, hu, ?_⟩
    rw [hu] at halike
    simp only at halike
    generalize (a.inquiry x).outcome f'.known? = o at halike hattempted
    cases halike with
    | @guess v _ hv =>
      obtain rfl : t = v := by simpa using hattempted
      exact Ty.equiv_symm hv

/-- The type that a guess gives an operand at the end is confirmed by the rules only if all
operations that write the operand answer at the end, or an incomplete merge is the only one. Then it
is confirmed indeed. -/
theorem confirmed_iff_of_promotes {r : Recovery} {f g : Findings} (h : a.Promotes r f g)
    {x : OperandId} {t : Ty} (hx : g.about x = .guess t) (hfree : a.OrderFree x) :
    r.findings.about x = .settled t ∧
      (a.Confirmed r.findings.known? x t ↔
        (∀ op ∈ a.graph.producers x, ∃ ts, (a.rule op).outcome r.findings.known? = .answer ts) ∨
          ∃ op, a.graph.producers x = [op] ∧ IncompleteMerge r.findings.known? op) := by
  obtain ⟨n, -, hf⟩ := h.last
  constructor
  · rw [h.findings, Findings.about_promote, Findings.about_takeChanges, hx]
    rfl
  rw [h.known?]
  constructor
  · rintro (⟨tss, htss, -⟩ | ⟨op, u, hp, hop, -⟩)
    · left
      intro op hop
      obtain ⟨i, hi, rfl⟩ := List.getElem_of_mem hop
      have hi' : i < tss.length := htss.length_eq ▸ hi
      exact ⟨tss[i], htss.get hi hi'⟩
    · exact Or.inr ⟨op, hp, hop⟩
  · rintro (hall | ⟨op, hp, hop⟩)
    · exact confirmed_of_answers hf h.stalls hx hfree hall
    · exact confirmed_of_merge hf h.stalls hx hfree hp hop

/-- A guess that goes stale. The elements of an array are taken while the array is only guessed.
Later the guess becomes a union with a type that is no array, the elements can no longer be told,
and the first guess for them stays. -/
def staleOps : List Op :=
  [.plain { result := some ⟨2⟩ } .phi [(.vars, .many [some ⟨0⟩, some ⟨1⟩])],
    .plain { result := some ⟨3⟩ } .iteratorValue [(.var, .one (some ⟨2⟩))],
    .plain { result := some ⟨4⟩ } .iteratorValue [(.var, .one (some ⟨0⟩))],
    .plain { result := some ⟨1⟩ } .phi [(.vars, .many [some ⟨4⟩, some ⟨5⟩])],
    .plain { result := some ⟨5⟩ } .includeFile []]

def staleOperands : Array Operand := #[⟨.temporary, .arrayOf .int⟩]

def staleAnalysis : Analysis :=
  blockAnalysis staleOperands staleOps [⟨0⟩, ⟨1⟩, ⟨2⟩, ⟨3⟩, ⟨4⟩, ⟨5⟩]

/-- The findings of the program, of which some are the same all the time. -/
def staleFindings (one two three four : Finding) : Findings :=
  { table := ⟨[(⟨0⟩, .settled (.arrayOf .int)), (⟨1⟩, one), (⟨2⟩, two), (⟨3⟩, three), (⟨4⟩, four),
      (⟨5⟩, .nothing)]⟩ }

def staleEnd : Findings :=
  staleFindings (.guess .int) (.guess (.compound .union (.arrayOf .int) .int [])) (.guess .int)
    (.settled .int)

def staleRecovery : Recovery := ⟨staleAnalysis, staleEnd.promote, 3, true⟩

theorem stale_promotes : staleAnalysis.Promotes staleRecovery staleEnd staleEnd := by
  have h₀ : staleAnalysis.Reaches 0 (staleFindings .nothing .nothing .nothing .nothing) := .seed rfl
  have h₁ : staleAnalysis.Reaches 1
      (staleFindings .nothing (.guess (.arrayOf .int)) (.guess .int) (.settled .int)) :=
    .round (g := { staleFindings .nothing (.guess (.arrayOf .int)) (.guess .int) (.settled .int) with
      changes := 2 }) h₀ (by decide) rfl (by decide)
  have h₂ : staleAnalysis.Reaches 2 staleEnd :=
    .round (g := { staleEnd with changes := 2 }) h₁ (by decide) rfl (by decide)
  exact ⟨rfl, ⟨2, rfl, h₂⟩, ⟨by decide, rfl, rfl⟩⟩

/-- The array and the value merged into it are confirmed at the end. -/
theorem confirmed_of_stale_promotes :
    staleAnalysis.Promotes staleRecovery staleEnd staleEnd ∧
      staleAnalysis.Confirmed staleRecovery.findings.known? ⟨2⟩
        (.compound .union (.arrayOf .int) .int []) ∧
      staleAnalysis.Confirmed staleRecovery.findings.known? ⟨1⟩ .int := by
  refine ⟨stale_promotes, ?_, ?_⟩
  · refine ((confirmed_iff_of_promotes stale_promotes rfl (Or.inr ?_)).2.2 (Or.inl ?_))
    · decide
    · intro op hop
      obtain rfl : op = .plain { result := some ⟨2⟩ } .phi [(.vars, .many [some ⟨0⟩, some ⟨1⟩])] :=
        List.mem_singleton.1 hop
      exact ⟨_, rfl⟩
  · refine ((confirmed_iff_of_promotes stale_promotes rfl (Or.inr ?_)).2.2 (Or.inr ⟨_, rfl, ?_⟩))
    · decide
    · exact ⟨rfl, some ⟨5⟩, by decide, rfl⟩

/-- The elements of the array are not: their guess is final though no rule answers any more. -/
theorem stale_not_confirmed :
    Analysis.of (blockGraph staleOperands staleOps) {} .empty = .ok staleAnalysis ∧
      staleAnalysis.Promotes staleRecovery staleEnd staleEnd ∧ staleAnalysis.OrderFree ⟨3⟩ ∧
      staleEnd.about ⟨3⟩ = .guess .int ∧
      ¬staleAnalysis.Confirmed staleRecovery.findings.known? ⟨3⟩ .int := by
  refine ⟨by cbv, stale_promotes, Or.inr (by decide), rfl, ?_⟩
  rintro (⟨tss, htss, -⟩ | ⟨op, u, hp, hop, -⟩)
  · obtain ⟨ts, _, hts, -⟩ := List.forall₂_cons_left_iff.1 htss
    cases hts
  · obtain rfl := (List.cons.inj hp).1
    cases hop.1

end TypeRecovery.Analysis
