import TypeRecovery.Proofs.Dispatch
import TypeRecovery.Proofs.FoldedRules

/-!
# Names in any letter case

Two programs that differ in the letter case of names only are recovered alike. Both are compared with
their common folding. What is found of a program and of its folding has the same folding at every
point of the two runs: the rules ask the same questions, so they hear guesses at the same points, and
a guess is news to one run when it is to the other. So both take the same number of rounds, and both
fail or neither does.
-/
namespace TypeRecovery

def Finding.folded : Finding → Finding
  | nothing => nothing
  | guess t => guess t.folded
  | settled t => settled t.folded

namespace Finding

@[simp] theorem isSettled_folded (f : Finding) : f.folded.isSettled = f.isSettled := by
  cases f <;> rfl

@[simp] theorem isGuess_folded (f : Finding) : f.folded.isGuess = f.isGuess := by
  cases f <;> rfl

theorem known?_folded (f : Finding) : f.folded.known? = f.known?.map Ty.folded := by
  cases f <;> rfl

theorem settled?_folded (f : Finding) : f.folded.settled? = f.settled?.map Ty.folded := by
  cases f <;> rfl

theorem isNews_folded (t : Ty) (f : Finding) : f.folded.isNews t.folded = f.isNews t := by
  cases f with
  | guess u => exact congrArg (!·) (Ty.equiv_folded u t)
  | _ => rfl

theorem promote_folded (f : Finding) : f.folded.promote = f.promote.folded := by
  cases f <;> rfl

end Finding

/-- The findings with all types folded. -/
def Findings.folded (f : Findings) : Findings := { f with table := f.table.mapValues Finding.folded }

namespace Findings

theorem about_folded (f : Findings) (x : OperandId) : f.folded.about x = (f.about x).folded := by
  rw [about, folded, Table.get?_mapValues, about]
  cases f.table.get? x <;> rfl

theorem known?_folded (f : Findings) (x : OperandId) :
    f.folded.known? x = (f.known? x).map Ty.folded := by
  rw [known?, about_folded, Finding.known?_folded, known?]

theorem final_folded (f : Findings) (x : OperandId) : f.folded.final x = (f.final x).folded := by
  rw [final, settled?, about_folded, Finding.settled?_folded, final, settled?]
  cases (f.about x).settled? <;> rfl

theorem pending_folded (f : Findings) : f.folded.pending = f.pending := by
  simp [pending, folded, Table.mapValues, List.filter_map, Function.comp_def]

theorem pending_eq_of_folded_eq {f g : Findings} (h : f.folded = g.folded) :
    f.pending = g.pending := by
  rw [← pending_folded, h, pending_folded]

theorem add_folded (f : Findings) (x : OperandId) : f.folded.add x = (f.add x).folded := by
  simp only [add, folded, Table.ensure, mk.injEq, and_true]
  apply Table.mapValues_alter
  intro o
  cases o <;> rfl

theorem settle_folded (f : Findings) (x : OperandId) (t : Ty) :
    f.folded.settle x t.folded = (f.settle x t).folded := by
  simp only [settle, folded, mk.injEq, and_true]
  exact Table.mapValues_put Finding.folded f.table x (.settled t)

theorem settle_congr {f g : Findings} (h : f.folded = g.folded) (x : OperandId) {t u : Ty}
    (htu : t.folded = u.folded) : (f.settle x t).folded = (g.settle x u).folded := by
  rw [← settle_folded, h, htu, settle_folded]

theorem suggest_folded (f : Findings) (x : OperandId) (t : Ty) :
    f.folded.suggest x t.folded = (f.suggest x t).folded := by
  rw [suggest, about_folded, Finding.isSettled_folded, Finding.isNews_folded, suggest]
  split
  · rfl
  · simp only [folded, mk.injEq, and_true]
    exact Table.mapValues_put Finding.folded f.table x (.guess t)

theorem promote_folded (f : Findings) : f.folded.promote = f.promote.folded := by
  simp [promote, folded, Table.mapValues, Finding.promote_folded]

end Findings

section

variable {α β γ δ : Type}

theorem except_bind_map_eq {φ : α → γ} {ψ : β → δ} {x y : Except Fault α}
    {k l : α → Except Fault β} (h : x.map φ = y.map φ)
    (hkl : ∀ a b, φ a = φ b → (k a).map ψ = (l b).map ψ) :
    (x >>= k).map ψ = (y >>= l).map ψ := by
  cases x <;> cases y <;> simp only [Except.map, reduceCtorEq] at h
  · exact congrArg Except.error (Except.error.inj h)
  · exact hkl _ _ (Except.ok.inj h)

theorem foldlM_map_eq {φ : β → γ} {step step' : β → α → Except Fault β}
    (h : ∀ s t x, φ s = φ t → (step s x).map φ = (step' t x).map φ) (xs : List α) {s t : β}
    (hst : φ s = φ t) : (xs.foldlM step s).map φ = (xs.foldlM step' t).map φ := by
  induction xs generalizing s t with
  | nil => exact congrArg Except.ok hst
  | cons x xs ih =>
    rw [List.foldlM_cons, List.foldlM_cons]
    exact except_bind_map_eq (h s t x hst) fun _ _ => ih

end

namespace Analysis

variable (a : Analysis)

theorem seedOne_folded {f g : Findings} (h : f.folded = g.folded) (x : OperandId) :
    (a.folded.seedOne f x).map Findings.folded = (a.seedOne g x).map Findings.folded := by
  have htype : (a.folded.graph.operand x).type = (a.graph.operand x).type.folded :=
    congrArg Operand.type (a.graph.operand_folded x)
  have hclass : (a.folded.graph.operand x).objectClass? =
      (a.graph.operand x).objectClass?.map Value.folded := a.graph.objectClass?_folded x
  have hliteral : (a.folded.graph.operand x).literal?.map Value.folded =
      (a.graph.operand x).literal?.map Value.folded := a.graph.literal?_map_folded x
  simp only [seedOne, htype, Ty.isUnknown_folded, hclass]
  split
  · exact congrArg Except.ok (Findings.settle_congr h x (Ty.folded_folded _))
  · cases (a.graph.operand x).objectClass? with
    | some cls =>
      refine congrArg Except.ok (Findings.settle_congr h x ?_)
      rw [Ty.declaredOrMixed_folded, Ty.folded_folded]
    | none =>
      rcases Value.map_folded_eq_cases hliteral with heq | ⟨s, t, hs, ht, -⟩
      · rw [heq]
        cases (a.graph.operand x).literal? with
        | none =>
          refine congrArg Except.ok ?_
          rw [← Findings.add_folded, h, Findings.add_folded]
        | some v =>
          simp only [Option.map_none]
          cases Ty.ofValue v with
          | ok t => exact congrArg Except.ok (Findings.settle_congr h x rfl)
          | error p => rfl
      · rw [hs, ht]
        exact congrArg Except.ok (Findings.settle_congr h x rfl)

theorem seed_folded : a.folded.seed.map Findings.folded = a.seed.map Findings.folded :=
  foldlM_map_eq (fun _ _ x h => a.seedOne_folded h x) a.operands rfl

/-- Both hear a guess or neither does, since both ask the same questions. -/
theorem attempt_folded {f g : Findings} (h : f.folded = g.folded) (x : OperandId) :
    (a.folded.attempt f x).map (Prod.map Findings.folded id) =
      (a.attempt g x).map (Prod.map Findings.folded id) := by
  have hknown (x : OperandId) : (f.known? x).map Ty.folded = (g.known? x).map Ty.folded := by
    rw [← Findings.known?_folded, h, Findings.known?_folded]
  have hsuggest {t u : Ty} (htu : t.folded = u.folded) :
      (f.suggest x t).folded = (g.suggest x u).folded := by
    rw [← Findings.suggest_folded, h, htu, Findings.suggest_folded]
  have hguess (x : OperandId) : (f.about x).isGuess = (g.about x).isGuess := by
    rw [← Finding.isGuess_folded, ← Findings.about_folded, h, Findings.about_folded,
      Finding.isGuess_folded]
  have hhears : (a.folded.inquiry x).hearsGuess f = (a.inquiry x).hearsGuess g := by
    rw [Inquiry.hearsGuess, Inquiry.hearsGuess, (a.parallel_inquiry x).asked_eq hknown]
    exact congrArg (List.any _) (funext hguess)
  have halike := (a.parallel_inquiry x).alike hknown
  unfold Inquiry.Alike at halike
  simp only [attempt, hhears]
  generalize (a.folded.inquiry x).outcome f.known? = o at halike ⊢
  generalize (a.inquiry x).outcome g.known? = p at halike ⊢
  cases halike with
  | answer htu =>
    simp only
    split
    · exact congrArg (fun f => Except.ok (f, false)) (hsuggest htu)
    · exact congrArg (fun f => Except.ok (f, true)) (Findings.settle_congr h x htu)
  | wait => exact congrArg (fun f => Except.ok (f, false)) h
  | guess htu => exact congrArg (fun f => Except.ok (f, false)) (hsuggest htu)
  | fault e => rfl

theorem attemptAll_folded {f g : Findings} (h : f.folded = g.folded) (xs : List OperandId) :
    (a.folded.attemptAll f xs).map (Prod.map Findings.folded id) =
      (a.attemptAll g xs).map (Prod.map Findings.folded id) := by
  refine foldlM_map_eq ?_ xs (congrArg (·, 0) h)
  rintro ⟨f, n⟩ ⟨g, m⟩ x hst
  obtain ⟨h, rfl⟩ := Prod.mk.inj hst
  refine except_bind_map_eq (a.attempt_folded h x) ?_
  rintro ⟨f, settled⟩ ⟨g, settled'⟩ hpair
  obtain ⟨hfg, rfl⟩ := Prod.mk.inj hpair
  exact congrArg (fun f => Except.ok (f, _)) hfg

def Ending.folded (e : Ending) : Ending := { e with findings := e.findings.folded }

theorem solve_folded (limit : Nat) {f g : Findings} (h : f.folded = g.folded) :
    (a.folded.solve limit f).map Ending.folded = (a.solve limit g).map Ending.folded := by
  induction limit generalizing f g with
  | zero =>
    rw [solve, solve, Findings.pending_eq_of_folded_eq h]
    exact congrArg (fun f => Except.ok (Ending.mk f _ _)) h
  | succ limit ih =>
    rw [solve, solve, Findings.pending_eq_of_folded_eq h]
    split
    · exact congrArg (fun f => Except.ok (Ending.mk f _ _)) h
    · refine except_bind_map_eq (a.attemptAll_folded h g.pending) ?_
      rintro ⟨f, n⟩ ⟨g, m⟩ hpair
      obtain ⟨hfg, rfl⟩ : f.folded = g.folded ∧ n = m := Prod.mk.inj hpair
      have hchanges : f.folded.changes = g.folded.changes := congrArg Findings.changes hfg
      have htaken (f : Findings) : f.takeChanges = (f.folded.changes, { f with changes := 0 }) := rfl
      have hreset : ({ f with changes := 0 } : Findings).folded =
          ({ g with changes := 0 } : Findings).folded :=
        congrArg (fun f => { f with changes := 0 }) hfg
      dsimp only
      rw [htaken, htaken, hchanges]
      dsimp only
      -- both runs count the same changes, so they stall in the same round
      by_cases hstalls : n = 0 ∧ g.folded.changes = 0
      · rw [if_pos hstalls, if_pos hstalls]
        have hpromote : ({ f with changes := 0 } : Findings).promote.folded =
            ({ g with changes := 0 } : Findings).promote.folded := by
          rw [← Findings.promote_folded, hreset, Findings.promote_folded]
        exact congrArg (fun f => Except.ok (Ending.mk f 1 true)) hpromote
      · rw [if_neg hstalls, if_neg hstalls]
        refine except_bind_map_eq (ih hreset) fun e e' he => ?_
        exact congrArg (fun e => Except.ok { e with rounds := e.rounds + 1 }) he

end Analysis

namespace Recovery

/-- What a recovery comes to, with all types folded. -/
def summary (r : Recovery) : List OperandId × Nat × Bool × (OperandId → Ty) :=
  (r.analysis.operands, r.rounds, r.converged, fun x => (r.typeOf x).folded)

theorem run_folded (a : Analysis) : (run a.folded).map summary = (run a).map summary := by
  refine except_bind_map_eq a.seed_folded fun f g h => ?_
  refine except_bind_map_eq (a.solve_folded a.settings.maxRounds h) fun e e' he => ?_
  obtain ⟨f, n, c⟩ := e
  obtain ⟨g, m, d⟩ := e'
  simp only [Analysis.Ending.folded, Analysis.Ending.mk.injEq] at he
  obtain ⟨hfg, rfl, rfl⟩ := he
  have hfinal (x : OperandId) : (f.final x).folded = (g.final x).folded := by
    rw [← Findings.final_folded, hfg, Findings.final_folded]
  have htype : (fun x => ((Recovery.mk a.folded f n c).typeOf x).folded) =
      fun x => ((Recovery.mk a g n c).typeOf x).folded := by
    funext x
    rw [typeOf, typeOf, apply_ite Ty.folded, apply_ite Ty.folded, hfinal]
    rfl
  exact congrArg (fun types => Except.ok (a.operands, n, c, types)) htype

end Recovery

/-- The programs differ in letter case only, and not in that of variables, of comments and of the
names of global constants. -/
def Graph.Recased (g g' : Graph) : Prop := g.folded = g'.folded

namespace Analysis

theorem summary_folded (g : Graph) (settings : Settings) (signatures : Signatures) :
    (Analysis.of g.folded settings signatures >>= Recovery.run).map Recovery.summary =
      (Analysis.of g settings signatures >>= Recovery.run).map Recovery.summary := by
  rw [of_folded]
  cases Analysis.of g settings signatures with
  | error e => rfl
  | ok a => exact Recovery.run_folded a

/-- Programs that differ in letter case only are both refused, or take the same number of rounds and
come to equal types. -/
theorem recovery_of_recased {g g' : Graph} (h : g.Recased g') (settings : Settings)
    (signatures : Signatures) :
    (∃ e, Analysis.of g settings signatures >>= Recovery.run = .error e ∧
        Analysis.of g' settings signatures >>= Recovery.run = .error e) ∨
      ∃ r r', Analysis.of g settings signatures >>= Recovery.run = .ok r ∧
        Analysis.of g' settings signatures >>= Recovery.run = .ok r' ∧
        r.rounds = r'.rounds ∧ r.converged = r'.converged ∧
        r.analysis.operands = r'.analysis.operands ∧
        ∀ x, (r.typeOf x).equiv (r'.typeOf x) = true := by
  have hsummary : (Analysis.of g settings signatures >>= Recovery.run).map Recovery.summary =
      (Analysis.of g' settings signatures >>= Recovery.run).map Recovery.summary := by
    rw [← summary_folded g, h, summary_folded g']
  generalize (Analysis.of g settings signatures >>= Recovery.run) = o at hsummary ⊢
  generalize (Analysis.of g' settings signatures >>= Recovery.run) = p at hsummary ⊢
  cases o <;> cases p <;> simp only [Except.map, reduceCtorEq] at hsummary
  case error.error e e' =>
    obtain rfl : e = e' := Except.error.inj hsummary
    exact Or.inl ⟨e, rfl, rfl⟩
  case ok.ok r r' =>
    simp only [Except.ok.injEq, Recovery.summary, Prod.mk.injEq] at hsummary
    obtain ⟨hoperands, hrounds, hconverged, htypes⟩ := hsummary
    refine Or.inr ⟨r, r', rfl, rfl, hrounds, hconverged, hoperands, fun x => ?_⟩
    exact Ty.equiv_of_folded_eq (congrFun htypes x)

/-- An overridden method in other letters. The class that is extended, the overriding method, the
types and the call are all written in other letters. -/
def recasedOps : List Op :=
  [.classLike {} "base" (.ofClass none [] []) [.method {} ⟨1⟩],
    .classLike {} "SUB" (.ofClass (some "BASE") [] []) [.method {} ⟨2⟩], overrideMerge, overrideCall]

def recasedGraph : Graph :=
  { operands := #[⟨.temporary, .named "bAsE"⟩, ⟨.temporary, .unknown⟩, ⟨.temporary, .unknown⟩,
      ⟨.literal (.text "M"), .unknown⟩]
    funcs := #[{ name := "main", blocks := [recasedOps] }, { name := "M", returns := "a" },
      { name := "m", returns := "b" }]
    log := recasedOps.toArray
    scripts := [{ file := "main", main := ⟨0⟩ }] }

/-- The call is typed by both methods, from the guess of its receiver, in the same round. -/
theorem recovery_of_recased_override :
    overrideGraph.Recased recasedGraph ∧
      ∃ r, Analysis.of recasedGraph {} .empty >>= Recovery.run = .ok r ∧ r.rounds = 2 ∧
        r.converged = true ∧
        (Ty.compound .union (.named "A") (.named "B") []).equiv (r.typeOf ⟨4⟩) = true := by
  have hrecased : overrideGraph.Recased recasedGraph := by
    have hbase : ∀ name ∈ ["Base", "base", "BASE", "bAsE"], Text.folded name = "base" := by decide
    have hsub : ∀ name ∈ ["Sub", "SUB"], Text.folded name = "sub" := by decide
    have hm : ∀ name ∈ ["m", "M"], Text.folded name = "m" := by decide
    have hA : ∀ name ∈ ["A", "a"], Text.folded name = "a" := by decide
    have hB : ∀ name ∈ ["B", "b"], Text.folded name = "b" := by decide
    simp only [List.forall_mem_cons] at hbase hsub hm hA hB
    simp [Graph.Recased, Graph.folded, overrideGraph, recasedGraph, overrideOps, recasedOps,
      overrideBase, overrideSub, overrideMerge, overrideCall, Graph.namesConstant, Func.folded,
      Operand.folded, Op.folded, Op.action, Heritage.action, Heritage.folded, Value.folded,
      Ty.folded, hbase, hsub, hm, hA, hB]
  have hrun : Analysis.of overrideGraph {} .empty >>= Recovery.run =
      .ok ⟨overrideAnalysis, overrideEnd.promote, 2, true⟩ := by
    rw [override_of]
    exact override_run
  refine ⟨hrecased, ?_⟩
  rcases recovery_of_recased hrecased {} .empty with ⟨e, he, -⟩ | ⟨r, r', hr, hr', hn, hc, -, htypes⟩
  · simp [hrun] at he
  · obtain rfl := Except.ok.inj (hrun.symm.trans hr)
    exact ⟨r', hr', hn.symm, hc.symm, htypes ⟨4⟩⟩

end Analysis

end TypeRecovery
