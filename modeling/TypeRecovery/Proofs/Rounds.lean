import TypeRecovery.Proofs.Agreement
import TypeRecovery.Proofs.Attempts

/-!
# Rounds one after the other

`Reaches n f` says that recovery arrives at the findings `f` by `n` rounds that make progress. From
there it goes on as if it had just started, with `n` rounds less to spend. What holds of all findings
that are reached is shown for the first ones and for one round.
-/
namespace TypeRecovery.Analysis

open Inquiry

inductive Reaches (a : Analysis) : Nat → Findings → Prop
  | seed {f : Findings} (h : a.seed = .ok f) : Reaches a 0 f
  | round {n k : Nat} {f g : Findings} (hf : Reaches a n f) (hp : f.pending ≠ [])
      (hg : a.attemptAll f f.pending = .ok (g, k)) (hprogress : ¬(k = 0 ∧ g.changes = 0)) :
      Reaches a (n + 1) g.takeChanges.2

/-- A round that starts with `f` settles nothing and changes no guess, and leaves `g`. -/
structure Stalls (a : Analysis) (f g : Findings) : Prop where
  pending : f.pending ≠ []
  attempts : a.attemptAll f f.pending = .ok (g, 0)
  changes : g.changes = 0

/-- The types that come with operands are clean. -/
def PresetsClean (a : Analysis) : Prop :=
  ∀ x ∈ a.operands, (a.graph.operand x).type.isUnknown = false → (a.graph.operand x).type.Clean

structure SeedSpec (a : Analysis) (f : Findings) : Prop where
  nodup : f.table.keys.Nodup
  changes : f.changes = 0
  about : ∀ x, f.about x = .nothing ∨ ∃ t, f.about x = .settled t ∧ (a.PresetsClean → t.Clean)

theorem seedOne_spec {a : Analysis} {f g : Findings} {x : OperandId} (hx : x ∈ a.operands)
    (hf : SeedSpec a f) (h : a.seedOne f x = .ok g) : SeedSpec a g := by
  have settled {t : Ty} (hg : g = f.settle x t) (ht : a.PresetsClean → t.Clean) :
      SeedSpec a g := by
    refine ⟨hg ▸ Table.nodup_keys_alter hf.nodup x _, hg ▸ hf.changes, fun y => ?_⟩
    rw [hg, Findings.about_settle]
    split
    · exact Or.inr ⟨t, rfl, ht⟩
    · exact hf.about y
  unfold seedOne at h
  simp only at h
  split at h
  · rename_i hu
    refine settled (by simpa using h.symm) fun hc => hc x hx (by simpa using hu)
  · split at h
    · exact settled (by simpa using h.symm) fun _ => Ty.clean_declaredOrMixed _
    · split at h
      · rename_i hv
        exact settled (by simpa using h.symm) fun _ => Ty.clean_of_ofValue hv
      · simp at h
    · obtain rfl : f.add x = g := by simpa using h
      refine ⟨Table.nodup_keys_alter hf.nodup x _, hf.changes, fun y => ?_⟩
      rw [Findings.about_add]
      exact hf.about y

theorem seed_spec {a : Analysis} {f : Findings} (h : a.seed = .ok f) : SeedSpec a f := by
  have hfold (xs : List OperandId) (hxs : ∀ x ∈ xs, x ∈ a.operands) (g : Findings)
      (hg : SeedSpec a g) (h : xs.foldlM a.seedOne g = .ok f) : SeedSpec a f := by
    induction xs generalizing g with
    | nil =>
      obtain rfl : g = f := by simpa [pure, Except.pure] using h
      exact hg
    | cons x xs ih =>
      rw [List.foldlM_cons] at h
      cases hx : a.seedOne g x with
      | error e => simp [hx, bind, Except.bind] at h
      | ok g' =>
        simp only [hx, bind, Except.bind] at h
        have hg' := seedOne_spec (hxs x List.mem_cons_self) hg hx
        exact ih (fun y hy => hxs y (List.mem_cons_of_mem x hy)) g' hg' h
  refine hfold a.operands (fun _ h => h) .empty ⟨List.nodup_nil, rfl, fun x => Or.inl rfl⟩ h

variable {a : Analysis}

theorem Meets.nodup {f : Findings} (h : a.Meets f) : f.table.keys.Nodup := by
  induction h with
  | seed h => exact (seed_spec h).nodup
  | attempt _ hk hx h ih =>
    rw [(attempt_spec h hx).keys hk]
    exact ih
  | count _ ih => exact ih

theorem Reaches.meets {n : Nat} {f : Findings} (h : a.Reaches n f) : a.Meets f := by
  induction h with
  | seed h => exact .seed h
  | round _ _ hg _ ih => exact .count (round_spec ih ih.nodup hg).1

theorem Reaches.changes {n : Nat} {f : Findings} (h : a.Reaches n f) : f.changes = 0 := by
  cases h with
  | seed h => exact (seed_spec h).changes
  | round => rfl

/-- What is reached is one round after what was reached before. -/
theorem Reaches.cases {n : Nat} {g : Findings} (h : a.Reaches (n + 1) g) :
    ∃ f, a.Reaches n f ∧ f.pending ≠ [] ∧ RoundSpec a f g ∧
      ¬∀ x, Finding.Same (f.about x) (g.about x) := by
  cases h with
  | @round n k f g hf hp hg hprogress =>
    obtain ⟨-, hspec, hstill⟩ := round_spec hf.meets hf.meets.nodup hg
    refine ⟨f, hf, hp, ⟨hspec.tried, hspec.others, hspec.keys⟩, fun hall => hprogress ?_⟩
    obtain ⟨hk, hc⟩ := hstill.2 hall
    exact ⟨hk, hc.trans hf.changes⟩

theorem Reaches.unique {n : Nat} {f g : Findings} (hf : a.Reaches n f) (hg : a.Reaches n g) :
    f = g := by
  induction hf generalizing g with
  | seed h =>
    cases hg with
    | seed h' =>
      rw [h] at h'
      exact Except.ok.inj h'
  | round _ _ h _ ih =>
    cases hg with
    | round hf' _ h' _ =>
      obtain rfl := ih hf'
      rw [h] at h'
      rw [(Prod.mk.inj (Except.ok.inj h')).1]

theorem Reaches.seeded {n : Nat} {f : Findings} (h : a.Reaches n f) : ∃ f₀, a.seed = .ok f₀ := by
  induction h with
  | seed h => exact ⟨_, h⟩
  | round _ _ _ _ ih => exact ih

theorem Reaches.earlier {n m : Nat} {f : Findings} (h : a.Reaches n f) (hm : m ≤ n) :
    ∃ g, a.Reaches m g := by
  induction n generalizing f with
  | zero =>
    obtain rfl : m = 0 := by omega
    exact ⟨f, h⟩
  | succ n ih =>
    rcases Nat.eq_or_lt_of_le hm with rfl | hlt
    · exact ⟨f, h⟩
    · obtain ⟨g, hg, -⟩ := h.cases
      exact ih hg (by omega)

theorem Stalls.spec {n : Nat} {f g : Findings} (hf : a.Reaches n f) (h : a.Stalls f g) :
    a.Meets g ∧ RoundSpec a f g ∧ ∀ x, Finding.Same (f.about x) (g.about x) := by
  obtain ⟨hg, hspec, hstill⟩ := round_spec hf.meets hf.meets.nodup h.attempts
  exact ⟨hg, hspec, hstill.1 ⟨rfl, by rw [h.changes, hf.changes]⟩⟩

/-- All types that are known are clean. -/
def KnownClean (f : Findings) : Prop := ∀ x t, f.known? x = some t → t.Clean

theorem KnownClean.rel {f : Findings} (h : KnownClean f) (x : OperandId) :
    Option.Rel Ty.CleanEquiv (f.known? x) (f.known? x) := by
  cases hx : f.known? x with
  | none => exact .none
  | some t => exact .some ⟨Ty.equiv_refl t, h x t hx, h x t hx⟩

theorem clean_of_attempted {f : Findings} (hf : KnownClean f) {x : OperandId} {v : Finding}
    (h : a.Attempted f x v) {t : Ty} (ht : v.known? = some t) : t.Clean := by
  have halike : Alike Ty.CleanEquiv Ty.CleanEquiv f.known? f.known? (a.inquiry x) (a.inquiry x) :=
    alike_inquiry Ty.exchange_cleanEquiv hf.rel a x (fun _ _ _ _ _ h => h) fun _ _ _ _ _ h => h.2
  unfold Alike at halike
  unfold Attempted at h
  split at h
  · rename_i u hu
    rw [hu] at halike
    cases halike with
    | answer hc =>
      obtain rfl : u = t := by
        split at h <;> simpa [h, Finding.known?] using ht
      exact hc.2.1
  · rw [h] at ht
    exact hf x t ht
  · rename_i u hu
    rw [hu] at halike
    cases halike with
    | guess hc =>
      obtain rfl : u = t := by simpa [h, Finding.known?] using ht
      exact hc.2.1
  · exact h.elim

theorem Meets.knownClean (hp : a.PresetsClean) {f : Findings} (h : a.Meets f) : KnownClean f := by
  induction h with
  | seed h =>
    intro x t hx
    rw [Findings.known?] at hx
    rcases (seed_spec h).about x with hn | ⟨u, hu, hc⟩
    · simp [hn, Finding.known?] at hx
    · obtain rfl : u = t := by simpa [hu, Finding.known?] using hx
      exact hc hp
  | @attempt f g x _ _ _ hx hg ih =>
    have hspec := attempt_spec hg hx
    intro y t hy
    rw [Findings.known?] at hy
    by_cases hyx : y = x
    · subst hyx
      exact clean_of_attempted ih hspec.attempted hy
    · rw [hspec.others y hyx] at hy
      exact ih y t hy
  | count _ ih => exact ih

/-- A bound of at least one round: there is nothing to do, or a round without progress is the last
one, or the rounds go on. -/
theorem solve_cases {limit : Nat} {f : Findings} {e : Ending} (h : a.solve (limit + 1) f = .ok e) :
    f.pending = [] ∧ e = ⟨f, 0, true⟩ ∨
      f.pending ≠ [] ∧ ∃ g k, a.attemptAll f f.pending = .ok (g, k) ∧
        ((k = 0 ∧ g.changes = 0) ∧ e = ⟨g.takeChanges.2.promote, 1, true⟩ ∨
          ¬(k = 0 ∧ g.changes = 0) ∧ ∃ e', a.solve limit g.takeChanges.2 = .ok e' ∧
            e = { e' with rounds := e'.rounds + 1 }) := by
  rw [solve] at h
  by_cases hp : f.pending.isEmpty = true
  · rw [if_pos hp] at h
    exact Or.inl ⟨List.isEmpty_iff.1 hp, (Except.ok.inj h).symm⟩
  · rw [if_neg hp] at h
    refine Or.inr ⟨mt List.isEmpty_iff.2 hp, ?_⟩
    cases hg : a.attemptAll f f.pending with
    | error e' => simp [hg, bind, Except.bind] at h
    | ok gk =>
      obtain ⟨g, k⟩ := gk
      simp only [hg, bind, Except.bind] at h
      refine ⟨g, k, rfl, ?_⟩
      by_cases hstill : k = 0 ∧ g.takeChanges.1 = 0
      · rw [if_pos hstill] at h
        exact Or.inl ⟨hstill, (Except.ok.inj h).symm⟩
      · rw [if_neg hstill] at h
        refine Or.inr ⟨hstill, ?_⟩
        cases he : a.solve limit g.takeChanges.2 with
        | error e' => simp [he] at h
        | ok e' =>
          simp only [he] at h
          exact ⟨e', rfl, (Except.ok.inj h).symm⟩

theorem solve_of_reaches {n : Nat} {f f₀ : Findings} (hs : a.seed = .ok f₀) (h : a.Reaches n f)
    (limit : Nat) :
    a.solve (n + limit) f₀ =
      (a.solve limit f).map fun e => { e with rounds := e.rounds + n } := by
  induction h generalizing limit with
  | seed h =>
    rw [hs] at h
    obtain rfl := Except.ok.inj h
    rw [Nat.zero_add]
    cases a.solve limit f₀ <;> rfl
  | @round n k f g _ hp hg hprogress ih =>
    have hlimit : n + 1 + limit = n + (limit + 1) := by omega
    have hempty : f.pending.isEmpty = false := by simpa using hp
    rw [hlimit, ih, solve, hempty, hg]
    simp only [Bool.false_eq_true, if_false, bind, Except.bind, Findings.takeChanges, hprogress]
    cases a.solve limit { g with changes := 0 } with
    | error e => rfl
    | ok e => simp [Except.map, pure, Except.pure, Nat.add_assoc, Nat.add_comm 1 n]

theorem solve_stalls {f g : Findings} (h : a.Stalls f g) (limit : Nat) :
    a.solve (limit + 1) f = .ok ⟨g.takeChanges.2.promote, 1, true⟩ := by
  have hempty : f.pending.isEmpty = false := by simpa using h.pending
  rw [solve, hempty, h.attempts]
  simp [bind, Except.bind, Findings.takeChanges, h.changes, pure, Except.pure]

theorem solve_done {f : Findings} (h : f.pending = []) (limit : Nat) :
    a.solve limit f = .ok ⟨f, 0, true⟩ := by
  cases limit <;> simp [solve, h]

theorem run_of_reaches_of_le {n : Nat} {f : Findings} (h : a.Reaches n f)
    (hn : n ≤ a.settings.maxRounds) :
    Recovery.run a = (a.solve (a.settings.maxRounds - n) f).map fun e =>
      ⟨a, e.findings, e.rounds + n, e.converged⟩ := by
  obtain ⟨f₀, hs⟩ := h.seeded
  have hsolve := solve_of_reaches hs h (a.settings.maxRounds - n)
  rw [Nat.add_sub_cancel' hn] at hsolve
  simp only [Recovery.run, hs, bind, Except.bind, hsolve]
  cases a.solve (a.settings.maxRounds - n) f <;> rfl

theorem run_of_stalls {n : Nat} {f g : Findings} (hf : a.Reaches n f) (h : a.Stalls f g)
    (hn : n < a.settings.maxRounds) :
    Recovery.run a = .ok ⟨a, g.takeChanges.2.promote, 1 + n, true⟩ := by
  obtain ⟨limit, hlimit⟩ : ∃ limit, a.settings.maxRounds - n = limit + 1 :=
    ⟨a.settings.maxRounds - n - 1, by omega⟩
  rw [run_of_reaches_of_le hf (Nat.le_of_lt hn), hlimit, solve_stalls h]
  rfl

theorem run_of_done {n : Nat} {f : Findings} (hf : a.Reaches n f) (h : f.pending = [])
    (hn : n ≤ a.settings.maxRounds) : Recovery.run a = .ok ⟨a, f, 0 + n, true⟩ := by
  rw [run_of_reaches_of_le hf hn, solve_done h]
  rfl

/-- A program of one block. -/
def blockGraph (operands : Array Operand) (ops : List Op) : Graph :=
  { operands, log := ops.toArray
    funcs := #[{ name := "main", blocks := [ops] }]
    scripts := [{ file := "main", main := ⟨0⟩ }] }

/-- The analysis of a program of one block that declares nothing. -/
def blockAnalysis (operands : Array Operand) (ops : List Op) (used : List OperandId) : Analysis :=
  { graph := blockGraph operands ops
    settings := {}
    signatures := .empty
    visited := ops
    operands := used
    index := ⟨[], .empty, .empty, .empty⟩
    hierarchy := .empty }

end TypeRecovery.Analysis
