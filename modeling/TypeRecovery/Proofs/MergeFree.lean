import TypeRecovery.Proofs.Course
import TypeRecovery.Proofs.Waiting

/-!
# Programs without merges

Only merges guess, and only who hears a guess guesses too. Where no operand is written by a merge,
no moment of a run holds a guess. A round that makes progress must then settle an operand, and a
round that makes none is the last. So there are at most as many rounds as operands are pending at
the start, however these depend on each other, and a bound of that size is not met before the run
has come to its end.
-/
namespace TypeRecovery.Analysis

open Inquiry Relation

variable {a : Analysis} {x : OperandId}

/-- No operand of the program is written by a merge. -/
def MergeFree (a : Analysis) : Prop :=
  ∀ x ∈ a.operands, ∀ op ∈ a.graph.producers x, op.action ≠ .phi

theorem mergeFree_of_log (h : ∀ op ∈ a.graph.log.toList, op.action ≠ .phi) : a.MergeFree :=
  fun _ _ op hop => h op (List.mem_of_mem_filter hop)

/-- Nothing is guessed, and only operands of the program have been entered. -/
structure Firm (a : Analysis) (f : Findings) : Prop where
  changes : f.changes = 0
  about : ∀ x t, f.about x ≠ .guess t
  keys : ∀ x ∈ f.table.keys, x ∈ a.operands

theorem firm_empty : a.Firm .empty where
  changes := rfl
  about _ _ h := by cases h
  keys _ h := absurd h List.not_mem_nil

theorem Firm.keys_alter {f : Findings} (hf : a.Firm f) (hx : x ∈ a.operands)
    {v : Option Finding → Finding} : ∀ y ∈ (f.table.alter x v).keys, y ∈ a.operands := by
  intro y hy
  rcases Table.mem_keys_alter.1 hy with hy | rfl
  · exact hf.keys y hy
  · exact hx

theorem Firm.settle {f : Findings} (hf : a.Firm f) (hx : x ∈ a.operands) (t : Ty) :
    a.Firm (f.settle x t) := by
  refine ⟨hf.changes, ?_, hf.keys_alter hx⟩
  intro y u
  rw [Findings.about_settle]
  split
  · simp
  · exact hf.about y u

theorem Firm.add {f : Findings} (hf : a.Firm f) (hx : x ∈ a.operands) : a.Firm (f.add x) := by
  refine ⟨hf.changes, ?_, hf.keys_alter hx⟩
  intro y u
  rw [Findings.about_add]
  exact hf.about y u

theorem Firm.mem_of_pending {f : Findings} (hf : a.Firm f) (hx : x ∈ f.pending) :
    x ∈ a.operands := by
  obtain ⟨e, he, rfl⟩ := List.mem_map.1 hx
  exact hf.keys _ (List.mem_map_of_mem (List.mem_of_mem_filter he))

/-- Without guesses there is nothing to hear, so an attempt settles the operand or leaves it. -/
theorem Firm.attempt {f g : Findings} {settled : Bool} (hm : a.MergeFree) (hf : a.Firm f)
    (hx : x ∈ a.operands) (h : a.attempt f x = .ok (g, settled)) : a.Firm g := by
  unfold Analysis.attempt at h
  simp only at h
  cases ho : (a.inquiry x).outcome f.known? with
  | answer t =>
    have hhears : (a.inquiry x).hearsGuess f = false := by
      apply Bool.eq_false_iff.2
      intro hheard
      obtain ⟨y, -, hy⟩ := List.any_eq_true.1 hheard
      cases hfy : f.about y with
      | guess u => exact hf.about y u hfy
      | _ => simp [hfy, Finding.isGuess] at hy
    simp only [ho, hhears, Bool.false_eq_true, if_false, Except.ok.injEq, Prod.mk.injEq] at h
    rw [← h.1]
    exact hf.settle hx t
  | wait =>
    simp only [ho, Except.ok.injEq, Prod.mk.injEq] at h
    rwa [← h.1]
  | guess t => exact absurd ho (outcome_inquiry_ne_guess (hm x hx) _ t)
  | fault e => simp [ho] at h

theorem Firm.promote {f : Findings} (hf : a.Firm f) : a.Firm f.promote := by
  refine ⟨hf.changes, ?_, ?_⟩
  · intro y u
    rw [Findings.about_promote]
    cases f.about y <;> simp [Finding.promote]
  · intro y hy
    have hkeys : f.promote.table.keys = f.table.keys := by
      simp [Findings.promote, Table.mapValues, Table.keys, Function.comp_def]
    exact hf.keys y (hkeys ▸ hy)

/-- The operands that are left to enter or to try. -/
def Stage.todo : Stage → List OperandId
  | .seeding xs | .trying xs _ => xs
  | .between | .ended => []

theorem Step.firm (hm : a.MergeFree) {m m' : Moment} (h : Step a m m') (hf : a.Firm m.findings)
    (htodo : ∀ x ∈ m.stage.todo, x ∈ a.operands) :
    a.Firm m'.findings ∧ ∀ x ∈ m'.stage.todo, x ∈ a.operands := by
  cases h with
  | seedOne h =>
    have hx := htodo _ List.mem_cons_self
    refine ⟨?_, fun y hy => htodo y (List.mem_cons_of_mem _ hy)⟩
    rcases seedOne_start h with ⟨-, rfl⟩ | ⟨t, -, rfl⟩
    · exact hf.add hx
    · exact hf.settle hx t
  | round h => exact ⟨hf, fun y => hf.mem_of_pending⟩
  | attempt h =>
    have hx := htodo _ List.mem_cons_self
    exact ⟨hf.attempt hm hx h, fun y hy => htodo y (List.mem_cons_of_mem _ hy)⟩
  | count h => exact ⟨⟨rfl, hf.about, hf.keys⟩, by simp [Stage.todo]⟩
  | promote h => exact ⟨Firm.promote ⟨rfl, hf.about, hf.keys⟩, by simp [Stage.todo]⟩
  | _ => exact ⟨hf, by simp [Stage.todo]⟩

theorem Passes.firm (hm : a.MergeFree) {m : Moment} (h : a.Passes m) :
    a.Firm m.findings ∧ ∀ x ∈ m.stage.todo, x ∈ a.operands := by
  induction h with
  | refl => exact ⟨firm_empty, fun _ hx => hx⟩
  | tail _ hstep ih => exact hstep.firm hm ih.1 ih.2

theorem Meets.ne_guess (hm : a.MergeFree) {f : Findings} (hf : a.Meets f) (x : OperandId) (t : Ty) :
    f.about x ≠ .guess t := by
  apply hf.not_guess_of_closed (S := fun _ => True) ?_ (fun _ _ _ _ => trivial) trivial
  exact fun y hy _ => hm y hy

theorem Meets.about_of_not_settled (hm : a.MergeFree) {f : Findings} (hf : a.Meets f)
    (hx : (f.about x).isSettled = false) : f.about x = .nothing := by
  cases hfx : f.about x with
  | nothing => rfl
  | guess u => exact absurd hfx (hf.ne_guess hm x u)
  | settled u =>
    rw [hfx] at hx
    cases hx

section Rounds

variable {f₀ : Findings} (hm : a.MergeFree) (hs : a.seed = .ok f₀)

include hs in
theorem pending_le_operands : f₀.pending.length ≤ a.operands.length := by
  have hmeets : a.Meets f₀ := .seed hs
  have hsub : f₀.pending ⊆ a.operands := by
    intro x hx
    exact (hmeets.mem_keys x).1 ((Findings.mem_pending hmeets.nodup).1 hx).1
  exact (List.subperm_of_subset (Findings.nodup_pending hmeets.nodup) hsub).length_le

include hm

/-- A round that makes progress settles an operand. -/
theorem Meets.pending_lt {f g : Findings} (hf : a.Meets f) (hg : a.Meets g)
    (hround : RoundSpec a f g) (hprogress : ¬∀ x, Finding.Same (f.about x) (g.about x)) :
    g.pending.length < f.pending.length := by
  have hsettled {y : OperandId} (hy : y ∈ g.pending) : y ∈ f.pending := by
    by_contra hn
    rw [Findings.mem_pending hg.nodup, hround.keys, hround.others y hn] at hy
    exact hn ((Findings.mem_pending hf.nodup).2 hy)
  obtain ⟨x, hx⟩ := not_forall.1 hprogress
  have hpending : x ∈ f.pending := by
    by_contra hn
    apply hx
    rw [hround.others x hn]
    exact .refl _
  have hgone : x ∉ g.pending := by
    intro hxg
    have hfx := hf.about_of_not_settled hm ((Findings.mem_pending hf.nodup).1 hpending).2
    have hgx := hg.about_of_not_settled hm ((Findings.mem_pending hg.nodup).1 hxg).2
    rw [hfx, hgx] at hx
    exact hx .nothing
  have hsub : x :: g.pending ⊆ f.pending := List.cons_subset.2 ⟨hpending, fun y => hsettled⟩
  have hnodup := List.nodup_cons.2 ⟨hgone, Findings.nodup_pending hg.nodup⟩
  exact (List.subperm_of_subset hnodup hsub).length_le

include hs

theorem Reaches.add_pending_le {n : Nat} {f : Findings} (h : a.Reaches n f) :
    n + f.pending.length ≤ f₀.pending.length := by
  induction n generalizing f with
  | zero =>
    obtain rfl := h.unique (.seed hs)
    omega
  | succ n ih =>
    obtain ⟨f', hf', -, hround, hprogress⟩ := h.cases
    have hlt := hf'.meets.pending_lt hm h.meets hround hprogress
    have hbefore := ih hf'
    omega

theorem rounds_le_of_solve {n limit : Nat} {f : Findings} {e : Ending} (hf : a.Reaches n f)
    (h : a.solve limit f = .ok e) : n + e.rounds ≤ f₀.pending.length := by
  have hle := hf.add_pending_le hm hs
  induction limit generalizing n f e with
  | zero =>
    obtain rfl := Except.ok.inj h
    exact Nat.le_trans (Nat.le_add_right n _) hle
  | succ limit ih =>
    rcases solve_cases h with ⟨-, rfl⟩ | ⟨hpending, g, k, hg, ⟨-, rfl⟩ | ⟨hprogress, e', he, rfl⟩⟩
    · exact Nat.le_trans (Nat.le_add_right n _) hle
    · -- the last round leaves an operand pending that no round before it has settled
      have hpos := List.length_pos_iff.2 hpending
      simp only
      omega
    · have hnext : a.Reaches (n + 1) g.takeChanges.2 := .round hf hpending hg hprogress
      have hrest := ih hnext he (hnext.add_pending_le hm hs)
      simp only
      omega

theorem converged_of_solve {n limit : Nat} {f : Findings} {e : Ending} (hf : a.Reaches n f)
    (hlimit : f₀.pending.length ≤ n + limit) (h : a.solve limit f = .ok e) :
    e.converged = true := by
  induction limit generalizing n f e with
  | zero =>
    obtain rfl := Except.ok.inj h
    have hle := hf.add_pending_le hm hs
    have hnil : f.pending.length = 0 := by omega
    simpa using hnil
  | succ limit ih =>
    rcases solve_cases h with ⟨-, rfl⟩ | ⟨hpending, g, k, hg, ⟨-, rfl⟩ | ⟨hprogress, e', he, rfl⟩⟩
    · rfl
    · rfl
    · exact ih (e := e') (.round hf hpending hg hprogress) (by omega) he

end Rounds

/-- No rule fails for an operand that is open, whatever has been found before. -/
def Failsafe (a : Analysis) : Prop :=
  ∀ f x e, a.Meets f → a.Open x → (a.inquiry x).outcome f.known? ≠ .fault e

theorem Failsafe.exists_attempt (h : a.Failsafe) {f : Findings} (hf : a.Meets f)
    (hk : x ∈ f.table.keys) (hx : (f.about x).isSettled = false) :
    ∃ g settled, a.attempt f x = .ok (g, settled) := by
  have hopen : a.Open x := ⟨(hf.mem_keys x).1 hk, hf.start?_of_pending hk hx⟩
  unfold attempt
  simp only
  cases ho : (a.inquiry x).outcome f.known? with
  | answer t =>
    simp only
    split
    · exact ⟨_, _, rfl⟩
    · exact ⟨_, _, rfl⟩
  | wait => exact ⟨_, _, rfl⟩
  | guess t => exact ⟨_, _, rfl⟩
  | fault e => exact absurd ho (h f x e hf hopen)

theorem Failsafe.exists_attemptAll (h : a.Failsafe) {f : Findings} (hf : a.Meets f)
    {xs : List OperandId} (hn : xs.Nodup)
    (hxs : ∀ x ∈ xs, x ∈ f.table.keys ∧ (f.about x).isSettled = false) :
    ∃ g n, a.attemptAll f xs = .ok (g, n) := by
  unfold attemptAll
  generalize 0 = k
  induction xs generalizing f k with
  | nil => exact ⟨f, k, rfl⟩
  | cons x xs ih =>
    obtain ⟨hk, hx⟩ := hxs x List.mem_cons_self
    obtain ⟨hxs', hn'⟩ := List.nodup_cons.1 hn
    obtain ⟨f₁, settled, hf₁⟩ := h.exists_attempt hf hk hx
    have hspec := attempt_spec hf₁ hx
    -- the other operands have not been touched
    have hrest : ∀ y ∈ xs, y ∈ f₁.table.keys ∧ (f₁.about y).isSettled = false := by
      intro y hy
      rw [hspec.keys hk, hspec.others y fun hyx => hxs' (hyx ▸ hy)]
      exact hxs y (List.mem_cons_of_mem x hy)
    obtain ⟨g, n, hg⟩ := ih (.attempt hf hk hx hf₁) hn' hrest (if settled then k + 1 else k)
    refine ⟨g, n, ?_⟩
    rw [List.foldlM_cons]
    simp only [hf₁, bind, Except.bind]
    exact hg

theorem Failsafe.exists_solve (h : a.Failsafe) {f : Findings} (hf : a.Meets f) (limit : Nat) :
    ∃ e, a.solve limit f = .ok e := by
  induction limit generalizing f with
  | zero => exact ⟨_, rfl⟩
  | succ limit ih =>
    rw [solve]
    by_cases hp : f.pending.isEmpty = true
    · exact ⟨_, if_pos hp⟩
    rw [if_neg hp]
    obtain ⟨g, k, hg⟩ := h.exists_attemptAll hf (Findings.nodup_pending hf.nodup)
      fun x hx => (Findings.mem_pending hf.nodup).1 hx
    simp only [hg, bind, Except.bind]
    by_cases hstill : k = 0 ∧ g.takeChanges.1 = 0
    · exact ⟨_, if_pos hstill⟩
    · obtain ⟨e, he⟩ := ih (.count (round_spec hf hf.nodup hg).1)
      rw [if_neg hstill, he]
      exact ⟨_, rfl⟩

theorem Failsafe.exists_run (h : a.Failsafe) {f : Findings} (hs : a.seed = .ok f) :
    ∃ r, Recovery.run a = .ok r := by
  obtain ⟨e, he⟩ := h.exists_solve (.seed hs) a.settings.maxRounds
  refine ⟨⟨a, e.findings, e.rounds, e.converged⟩, ?_⟩
  simp only [Recovery.run, hs, bind, Except.bind, he]
  rfl

/-- Without merges no moment of a run holds a guess or counts one. A run passes through its moments
to its findings, takes at most as many rounds as operands are pending after the start, and converges
if so many rounds are allowed. If no rule fails there is such a run. -/
theorem run_of_mergeFree (hm : a.MergeFree) {f₀ : Findings} (hs : a.seed = .ok f₀) :
    (∀ m, a.Passes m → m.findings.changes = 0 ∧ ∀ x t, m.findings.about x ≠ .guess t) ∧
    (∀ r, Recovery.run a = .ok r → (∃ n, a.Passes ⟨r.findings, n, .ended⟩) ∧
      r.rounds ≤ f₀.pending.length ∧
      (f₀.pending.length ≤ a.settings.maxRounds → r.converged = true)) ∧
    (a.Failsafe → ∃ r, Recovery.run a = .ok r) := by
  refine ⟨?_, ?_, fun hsafe => hsafe.exists_run hs⟩
  · intro m hpasses
    have hfirm := (hpasses.firm hm).1
    exact ⟨hfirm.changes, hfirm.about⟩
  · intro r hr
    obtain ⟨f, hs', hsolve⟩ := solve_of_run hr
    obtain rfl : f = f₀ := Except.ok.inj (hs'.symm.trans hs)
    have hrounds := rounds_le_of_solve hm hs (.seed hs) hsolve
    rw [Nat.zero_add] at hrounds
    refine ⟨passes_of_run hr, hrounds, fun hbound => ?_⟩
    exact converged_of_solve hm hs (.seed hs) (by omega) hsolve

/-- A chain of assignments and a loop: an integer, a copy of it, a copy of the copy, and an operand
that is assigned to itself. The chain is tried from its end, so that each round settles one operand,
and the last finds only the loop. -/
def copyOps : List Op :=
  [.plain { result := some ⟨1⟩ } .assign [(.expr, .one (some ⟨0⟩))],
   .plain { result := some ⟨2⟩ } .assign [(.expr, .one (some ⟨1⟩))],
   .plain { result := some ⟨3⟩ } .assign [(.expr, .one (some ⟨3⟩))]]

def copyAnalysis : Analysis :=
  (blockAnalysis #[⟨.literal (.int 1), .unknown⟩, ⟨.temporary, .unknown⟩, ⟨.temporary, .unknown⟩,
    ⟨.temporary, .unknown⟩] copyOps []).scheduled [⟨3⟩, ⟨2⟩, ⟨1⟩, ⟨0⟩] 3

def copyFindings (one two : Finding) : Findings :=
  { table := ⟨[(⟨3⟩, .nothing), (⟨2⟩, two), (⟨1⟩, one), (⟨0⟩, .settled .int)]⟩ }

theorem copy_run : Recovery.run copyAnalysis =
    .ok ⟨copyAnalysis, (copyFindings (.settled .int) (.settled .int)).promote, 3, true⟩ := by
  have h₀ : copyAnalysis.Reaches 0 (copyFindings .nothing .nothing) := .seed rfl
  have h₁ : copyAnalysis.Reaches 1 (copyFindings (.settled .int) .nothing) :=
    .round h₀ (by decide) rfl (by decide)
  have h₂ : copyAnalysis.Reaches 2 (copyFindings (.settled .int) (.settled .int)) :=
    .round h₁ (by decide) rfl (by decide)
  exact run_of_stalls h₂ (g := copyFindings (.settled .int) (.settled .int))
    ⟨by decide, rfl, rfl⟩ (by decide)

theorem copy_failsafe : copyAnalysis.Failsafe := by
  intro f x e _ hx he
  have hpasses : ∃ ys, copyAnalysis.PassesOn x ys := by
    have hmem : x ∈ ([⟨3⟩, ⟨2⟩, ⟨1⟩, ⟨0⟩] : List OperandId) := hx.mem
    simp only [List.mem_cons, List.not_mem_nil, or_false] at hmem
    rcases hmem with rfl | rfl | rfl | rfl
    · exact ⟨_, _, rfl, rfl⟩
    · exact ⟨_, _, rfl, rfl⟩
    · exact ⟨_, _, rfl, rfl⟩
    · cases hx.start
  obtain ⟨ys, hpasses⟩ := hpasses
  rcases hpasses.outcome f.known? with ⟨-, ho⟩ | ⟨u, -, ho | ho⟩ <;> rw [ho] at he <;> cases he

/-- As many rounds as operands are pending are needed here, and so many are allowed. -/
theorem run_of_mergeFree_copies :
    copyAnalysis.MergeFree ∧ copyAnalysis.Failsafe ∧
      ∃ f₀ r n, copyAnalysis.seed = .ok f₀ ∧ Recovery.run copyAnalysis = .ok r ∧
        copyAnalysis.Passes ⟨r.findings, n, .ended⟩ ∧ f₀.pending = [⟨3⟩, ⟨2⟩, ⟨1⟩] ∧
        copyAnalysis.settings.maxRounds = f₀.pending.length ∧ r.rounds = 3 ∧
        r.rounds ≤ f₀.pending.length ∧ r.converged = true ∧
        ∀ m, copyAnalysis.Passes m → ∀ x t, m.findings.about x ≠ .guess t := by
  have hm : copyAnalysis.MergeFree := mergeFree_of_log (by decide)
  have hs : copyAnalysis.seed = .ok (copyFindings .nothing .nothing) := rfl
  obtain ⟨hmoments, hruns, -⟩ := run_of_mergeFree hm hs
  obtain ⟨⟨n, hend⟩, hrounds, hconverged⟩ := hruns _ copy_run
  exact ⟨hm, copy_failsafe, _, _, n, hs, copy_run, hend, rfl, rfl, rfl, hrounds,
    hconverged (by decide), fun m hpasses => (hmoments m hpasses).2⟩

end TypeRecovery.Analysis
