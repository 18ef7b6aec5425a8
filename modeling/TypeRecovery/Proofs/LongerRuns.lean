import TypeRecovery.Proofs.Convergence
import TypeRecovery.Proofs.Course

/-!
# Runs with more rounds

Where the bound on the rounds cuts a run short, what is settled is reported and guesses are not. A
run with a larger bound goes through the same rounds before it goes on, and no round touches an
operand that is settled. So it reports the same types, and types for further operands. A run that
ended by itself is not changed by a larger bound at all.
-/
namespace TypeRecovery.Analysis

variable {a : Analysis}

/-- A round tries pending operands only. -/
theorem RoundSpec.settled {f g : Findings} (h : RoundSpec a f g) (hn : f.table.keys.Nodup)
    {x : OperandId} {t : Ty} (hx : f.about x = .settled t) : g.about x = .settled t := by
  have hpending : x ∉ f.pending := by
    rw [Findings.mem_pending hn, hx]
    simp [Finding.isSettled]
  rw [h.others x hpending, hx]

/-- What is settled before some rounds is reported after them. -/
theorem settled_of_solve {limit : Nat} {f : Findings} {e : Ending} (hf : a.Meets f)
    (h : a.solve limit f = .ok e) {x : OperandId} {t : Ty} (hx : f.about x = .settled t) :
    e.findings.about x = .settled t := by
  induction limit generalizing f e with
  | zero =>
    obtain rfl := Except.ok.inj h
    exact hx
  | succ limit ih =>
    rcases solve_cases h with ⟨-, rfl⟩ | ⟨-, g, k, hg, hrest⟩
    · exact hx
    obtain ⟨hmeets, hspec, -⟩ := round_spec hf hf.nodup hg
    have hgx : g.about x = .settled t := hspec.settled hf.nodup hx
    rcases hrest with ⟨-, rfl⟩ | ⟨-, e', he, rfl⟩
    · rw [Findings.about_promote, Findings.about_takeChanges, hgx]
      rfl
    · exact ih (e := e') (.count hmeets) he hgx

/-- A run that has ended by itself does not use the rounds that are left. -/
theorem solve_add_of_converged {limit : Nat} {f : Findings} {e : Ending}
    (h : a.solve limit f = .ok e) (hc : e.converged = true) (extra : Nat) :
    a.solve (limit + extra) f = .ok e := by
  induction limit generalizing f e with
  | zero =>
    obtain rfl := Except.ok.inj h
    have hp : f.pending = [] := by simpa using hc
    rw [solve_done hp, hp]
    rfl
  | succ limit ih =>
    rw [Nat.succ_add]
    rcases solve_cases h with ⟨hp, rfl⟩ | ⟨hp, g, k, hg, hrest⟩
    · exact solve_done hp _
    rcases hrest with ⟨⟨rfl, hchanges⟩, rfl⟩ | ⟨hprogress, e', he, rfl⟩
    · exact solve_stalls ⟨hp, hg, hchanges⟩ _
    · have hempty : f.pending.isEmpty = false := by simpa using hp
      have htail : a.solve (limit + extra) g.takeChanges.2 = .ok e' := ih he hc
      simp only [Findings.takeChanges] at htail
      rw [solve, hempty, hg]
      simp only [Bool.false_eq_true, if_false, bind, Except.bind, Findings.takeChanges, hprogress,
        htail]
      rfl

/-- The rounds of the shorter run are the first ones of the longer run. -/
theorem settled_of_solve_add {limit extra : Nat} {f : Findings} {e e' : Ending} (hf : a.Meets f)
    (h : a.solve limit f = .ok e) (h' : a.solve (limit + extra) f = .ok e') {x : OperandId} {t : Ty}
    (hx : e.findings.about x = .settled t) : e'.findings.about x = .settled t := by
  induction limit generalizing f e e' with
  | zero =>
    obtain rfl := Except.ok.inj h
    exact settled_of_solve hf h' hx
  | succ limit ih =>
    have hended (hc : e.converged = true) : e'.findings.about x = .settled t := by
      rw [solve_add_of_converged h hc] at h'
      rwa [← Except.ok.inj h']
    rcases solve_cases h with ⟨-, rfl⟩ | ⟨hp, g, k, hg, hrest⟩
    · exact hended rfl
    rcases hrest with ⟨-, rfl⟩ | ⟨hprogress, e₁, he₁, rfl⟩
    · exact hended rfl
    rw [Nat.succ_add] at h'
    rcases solve_cases h' with ⟨hp', -⟩ | ⟨-, g', k', hg', hrest'⟩
    · exact absurd hp' hp
    obtain ⟨rfl, rfl⟩ := Prod.mk.inj (Except.ok.inj (hg.symm.trans hg'))
    rcases hrest' with ⟨hstill, -⟩ | ⟨-, e₂, he₂, rfl⟩
    · exact absurd hstill hprogress
    · have hmeets := (round_spec hf hf.nodup hg).1
      have htail : e₂.findings.about x = .settled t := ih (e := e₁) (.count hmeets) he₁ he₂ hx
      exact htail

/-- What the bound leaves of a run. -/
theorem solve_of_run_bounded {m : Nat} {r : Recovery} (h : Recovery.run (a.bounded m) = .ok r) :
    r.analysis = a.bounded m ∧ ∃ f₀, a.seed = .ok f₀ ∧
      a.solve m f₀ = .ok ⟨r.findings, r.rounds, r.converged⟩ := by
  obtain ⟨f₀, hs, hsolve⟩ := solve_of_run h
  rw [solve_bounded] at hsolve
  exact ⟨analysis_of_run h, f₀, hs, hsolve⟩

/-- A type that is reported stays the same when more rounds are allowed, and if the run converged
nothing changes. -/
theorem typeOf_bounded_of_lt {k k' : Nat} (hk : k < k') {r r' : Recovery}
    (h : Recovery.run (a.bounded k) = .ok r) (h' : Recovery.run (a.bounded k') = .ok r') :
    (∀ x, r.typeOf x ≠ .unknown → r'.typeOf x = r.typeOf x) ∧
      (r.converged = true → r'.converged = true ∧ r'.types = r.types ∧ r'.rounds = r.rounds ∧
        r'.resolvedCount = r.resolvedCount ∧ r'.unresolved = r.unresolved) := by
  obtain ⟨ha, f₀, hs, hsolve⟩ := solve_of_run_bounded h
  obtain ⟨ha', f₁, hs', hsolve'⟩ := solve_of_run_bounded h'
  obtain rfl := Except.ok.inj (hs.symm.trans hs')
  obtain ⟨extra, rfl⟩ := Nat.exists_eq_add_of_le (Nat.le_of_lt hk)
  refine ⟨?_, ?_⟩
  · intro x hx
    have hmem : x ∈ a.operands := by
      by_contra hout
      apply hx
      rw [Recovery.typeOf, ha]
      exact if_neg hout
    cases hf : r.findings.about x with
    | settled t =>
      have hsettled : r'.findings.about x = .settled t :=
        settled_of_solve_add (.seed hs) hsolve hsolve' hf
      simp only [Recovery.typeOf, ha, ha', Findings.final, Findings.settled?, hf, hsettled]
      rfl
    | _ =>
      -- neither a guess nor nothing is reported
      apply absurd _ hx
      rw [Recovery.typeOf, ha, Findings.final, Findings.settled?, hf]
      exact if_pos hmem
  · intro hc
    have hsame := solve_add_of_converged hsolve hc extra
    rw [hsolve'] at hsame
    obtain ⟨hfindings, hrounds, hconverged⟩ := Ending.mk.inj (Except.ok.inj hsame)
    have htypes : r'.types = r.types := by
      simp only [Recovery.types, ha, ha', hfindings]
      rfl
    refine ⟨hconverged.trans hc, htypes, hrounds, ?_, ?_⟩
    · rw [Recovery.resolvedCount, Recovery.resolvedCount, htypes]
    · rw [Recovery.unresolved, Recovery.unresolved, htypes]

theorem gap_run_bounded (extra : Nat) :
    (∃ r, Recovery.run (gapAnalysis.bounded 1) = .ok r ∧ r.converged = false ∧
      r.typeOf ⟨0⟩ = gapType ∧ r.typeOf ⟨2⟩ = .unknown) ∧
    ∃ r, Recovery.run (gapAnalysis.bounded (2 + extra)) = .ok r ∧ r.converged = true ∧
      r.typeOf ⟨2⟩ = gapType := by
  have h₀ : gapAnalysis.Reaches 0 (gapFindings .nothing) := .seed rfl
  have h₁ : gapAnalysis.Reaches 1 (gapFindings (.guess gapType)) :=
    .round h₀ (by decide) rfl (by decide)
  refine ⟨⟨_, run_of_reaches h₁ 0, rfl, rfl, rfl⟩, ?_⟩
  have hrun := run_of_reaches h₁ (extra + 1)
  rw [solve_stalls (g := gapFindings (.guess gapType)) ⟨by decide, rfl, rfl⟩] at hrun
  have hbound : 2 + extra = 1 + (extra + 1) := by omega
  rw [hbound]
  exact ⟨_, hrun, rfl, rfl⟩

/-- A merge with a gap: one round leaves a guess, which is not reported; with two rounds it is made
final, and five rounds give the same as two. -/
theorem typeOf_bounded_of_lt_gap :
    ∃ r₁ r₂ r₅, Recovery.run (gapAnalysis.bounded 1) = .ok r₁ ∧
      Recovery.run (gapAnalysis.bounded 2) = .ok r₂ ∧
      Recovery.run (gapAnalysis.bounded 5) = .ok r₅ ∧ r₁.typeOf ⟨2⟩ = .unknown ∧
      r₁.typeOf ⟨0⟩ = gapType ∧ r₂.typeOf ⟨0⟩ = gapType ∧ r₂.typeOf ⟨2⟩ = gapType ∧
      r₅.types = r₂.types ∧ r₅.rounds = r₂.rounds := by
  obtain ⟨⟨r₁, h₁, -, hzero, hone⟩, r₂, h₂, hc, htwo⟩ := gap_run_bounded 0
  obtain ⟨-, r₅, h₅, -, -⟩ := gap_run_bounded 3
  have hkept := (typeOf_bounded_of_lt (by decide) h₁ h₂).1 ⟨0⟩ (by rw [hzero]; simp [gapType])
  obtain ⟨-, htypes, hrounds, -⟩ := (typeOf_bounded_of_lt (by decide) h₂ h₅).2 hc
  exact ⟨r₁, r₂, r₅, h₁, h₂, h₅, hone, hzero, hkept.trans hzero, htwo, htypes, hrounds⟩

end TypeRecovery.Analysis
