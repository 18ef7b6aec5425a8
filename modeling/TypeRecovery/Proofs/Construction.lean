import TypeRecovery.Command.Classes
import TypeRecovery.Proofs.ClassHierarchy
import TypeRecovery.Proofs.Reachability
import TypeRecovery.Proofs.SecondRun

/-!
# Graphs that are put together

A graph is put together from nothing. Operands come before the operations that read or write them,
operations before those that hold them in their bodies and before the functions that consist of
them; a function can be replaced once its operations are there. Nothing is taken away, so that all
operands which such a program uses are there. Programs of class descriptions are of this sort, and
so are programs after recovery has written types into them.
-/
namespace TypeRecovery

namespace Graph

/-- Put together step by step. What is added refers only to operands and operations that are there. -/
inductive Built : Graph → Prop
  | empty : Built .empty
  | addOperand {g : Graph} (h : Built g) (x : Operand) : Built (g.addOperand x).2
  | addOp {g : Graph} {op : Op} (h : Built g)
      (hoperands : ∀ x ∈ op.reads ++ op.writes, x.index < g.operands.size)
      (hbody : op.body ⊆ g.log.toList) : Built (g.addOp op)
  | addFunc {g : Graph} {fn : Func} (h : Built g) (hops : fn.ops ⊆ g.log.toList) :
      Built (g.addFunc fn).2
  | setFunc {g : Graph} {f : FuncId} {fn : Func} (h : Built g) (hops : fn.ops ⊆ g.log.toList) :
      Built (g.setFunc f fn)
  | addScript {g : Graph} (h : Built g) (s : Script) : Built (g.addScript s)
  | setType {g : Graph} (h : Built g) (x : OperandId) (t : Ty) : Built (g.setType x t)

/-- Every operand and every operation that is referred to is there. -/
structure Linked (g : Graph) : Prop where
  operands : ∀ op ∈ g.log.toList, ∀ x ∈ op.reads ++ op.writes, x.index < g.operands.size
  bodies : ∀ op ∈ g.log.toList, op.body ⊆ g.log.toList
  funcs : ∀ f fn, g.func? f = some fn → fn.ops ⊆ g.log.toList

variable {g : Graph}

theorem log_foldl_addOp (g : Graph) (ops : List Op) :
    (ops.foldl addOp g).log.toList = g.log.toList ++ ops := by
  induction ops generalizing g with
  | nil => simp
  | cons op ops ih => simp [ih, addOp]

theorem linked_empty : Linked .empty where
  operands _ h := absurd h List.not_mem_nil
  bodies _ h := absurd h List.not_mem_nil
  funcs f fn h := by simp [func?, empty] at h

namespace Linked

theorem addOperand (h : g.Linked) (x : Operand) : (g.addOperand x).2.Linked where
  operands op hop y hy := by
    have hlt := h.operands op hop y hy
    simp only [Graph.addOperand, Array.size_push]
    omega
  bodies := h.bodies
  funcs := h.funcs

theorem addOp (h : g.Linked) {op : Op}
    (hoperands : ∀ x ∈ op.reads ++ op.writes, x.index < g.operands.size)
    (hbody : op.body ⊆ g.log.toList) : (g.addOp op).Linked := by
  have hlog : (g.addOp op).log.toList = g.log.toList ++ [op] := Array.toList_push
  have hmore : g.log.toList ⊆ (g.addOp op).log.toList := hlog ▸ List.subset_append_left _ _
  have hcases : ∀ op' ∈ (g.addOp op).log.toList, op' ∈ g.log.toList ∨ op' = op := by
    simp [hlog]
  refine ⟨?_, ?_, fun f fn hfn => List.Subset.trans (h.funcs f fn hfn) hmore⟩
  · intro op' hop'
    rcases hcases op' hop' with hop' | rfl
    · exact h.operands op' hop'
    · exact hoperands
  · intro op' hop'
    rcases hcases op' hop' with hop' | rfl
    · exact List.Subset.trans (h.bodies op' hop') hmore
    · exact List.Subset.trans hbody hmore

theorem addFunc (h : g.Linked) {fn : Func} (hops : fn.ops ⊆ g.log.toList) :
    (g.addFunc fn).2.Linked where
  operands := h.operands
  bodies := h.bodies
  funcs f fn' hfn := by
    simp only [func?, Graph.addFunc, Array.getElem?_push] at hfn
    split at hfn
    · exact Option.some.inj hfn ▸ hops
    · exact h.funcs f fn' hfn

theorem setFunc (h : g.Linked) {f : FuncId} {fn : Func} (hops : fn.ops ⊆ g.log.toList) :
    (g.setFunc f fn).Linked where
  operands := h.operands
  bodies := h.bodies
  funcs f' fn' hfn := by
    simp only [func?, Graph.setFunc, Array.getElem?_modify] at hfn
    split at hfn
    · obtain ⟨-, -, rfl⟩ := Option.map_eq_some_iff.1 hfn
      exact hops
    · exact h.funcs f' fn' hfn

theorem setType (h : g.Linked) (x : OperandId) (t : Ty) : (g.setType x t).Linked where
  operands op hop y hy := by
    simpa [Graph.setType] using h.operands op hop y hy
  bodies := h.bodies
  funcs := h.funcs

theorem nested_subset (h : g.Linked) {op : Op} (hop : op ∈ g.log.toList) :
    op.nested ⊆ g.log.toList := by
  refine Op.nested.induct (fun op => op ∈ g.log.toList → op.nested ⊆ g.log.toList)
    (fun ops => ops ⊆ g.log.toList → nestedAll ops ⊆ g.log.toList) ?_ ?_ ?_ ?_ op hop
  · intro head name heritage body ih hop
    rw [Op.nested]
    exact List.cons_subset.2 ⟨hop, ih (h.bodies _ hop)⟩
  · intro op hleaf hop
    rw [Op.nested]
    · exact List.cons_subset.2 ⟨hop, List.nil_subset _⟩
    · exact hleaf
  · intro _
    exact List.nil_subset _
  · intro op rest ihop ihrest hops
    obtain ⟨hop, hrest⟩ := List.cons_subset.1 hops
    rw [nestedAll]
    exact List.append_subset.2 ⟨ihop hop, ihrest hrest⟩

theorem visited_subset (h : g.Linked) : g.visited ⊆ g.log.toList := by
  intro op hop
  obtain ⟨f, -, hcode⟩ := mem_visited_iff.1 hop
  obtain ⟨outer, houter, hnested⟩ := List.mem_flatMap.1 hcode
  refine h.nested_subset ?_ hnested
  rw [func] at houter
  cases hf : g.func? f with
  | none => simp [hf, Func.ops, Func.body] at houter
  | some fn => exact h.funcs f fn hf (by simpa [hf] using houter)

theorem complete (h : g.Linked) : g.Complete := by
  intro x hx
  obtain ⟨op, hop, hxop⟩ := List.mem_flatMap.1 (((firstSeen_usedOperands g).mem x).1 hx)
  exact h.operands op (h.visited_subset hop) x hxop

end Linked

namespace Built

theorem linked (h : g.Built) : g.Linked := by
  induction h with
  | empty => exact linked_empty
  | addOperand _ x ih => exact ih.addOperand x
  | addOp _ hoperands hbody ih => exact ih.addOp hoperands hbody
  | addFunc _ hops ih => exact ih.addFunc hops
  | setFunc _ hops ih => exact ih.setFunc hops
  | addScript _ s ih => exact ⟨ih.operands, ih.bodies, ih.funcs⟩
  | setType _ x t ih => exact ih.setType x t

/-- All operands that the program uses are there. -/
theorem complete (h : g.Built) : g.Complete := h.linked.complete

/-- Operations that refer to nothing can be added at any time. -/
theorem foldl_addOp (h : g.Built) {ops : List Op}
    (hops : ∀ op ∈ ops, op.reads = [] ∧ op.writes = [] ∧ op.body = []) :
    (ops.foldl Graph.addOp g).Built := by
  induction ops generalizing g with
  | nil => exact h
  | cons op ops ih =>
    obtain ⟨hreads, hwrites, hbody⟩ := hops op List.mem_cons_self
    refine ih ?_ fun op' hop' => hops op' (List.mem_cons_of_mem op hop')
    exact h.addOp (by simp [hreads, hwrites]) (by simp [hbody])

theorem foldl_setType (h : g.Built) (types : List (OperandId × Ty)) :
    (types.foldl (fun g (x, t) => g.setType x t) g).Built := by
  induction types generalizing g with
  | nil => exact h
  | cons e types ih => exact ih (h.setType e.1 e.2)

end Built

end Graph

theorem Recovery.built_graph {r : Recovery} (h : r.analysis.graph.Built) : r.graph.Built :=
  h.foldl_setType r.types

namespace Command

theorem Described.isolated_op {d : Described} {op : Op} (h : d.op = .ok op) :
    op.reads = [] ∧ op.writes = [] ∧ op.body = [] := by
  obtain ⟨name, -, h⟩ := bind_eq_ok_iff.1 h
  obtain ⟨interfaces, -, h⟩ := bind_eq_ok_iff.1 h
  obtain ⟨traits, -, h⟩ := bind_eq_ok_iff.1 h
  have hclassLike : ∃ heritage, op = .classLike {} name heritage [] := by
    simp only [pure_bind] at h
    split at h
    · exact ⟨_, (Except.ok.inj h).symm⟩
    · exact ⟨_, (Except.ok.inj h).symm⟩
    · split at h
      · obtain ⟨parent, -, h⟩ := bind_eq_ok_iff.1 h
        exact ⟨_, (Except.ok.inj h).symm⟩
      · exact ⟨_, (Except.ok.inj h).symm⟩
  obtain ⟨heritage, rfl⟩ := hclassLike
  exact ⟨rfl, rfl, rfl⟩

theorem built_of_programOf {ds : List Described} {g : Graph} (h : programOf ds = .ok g) :
    g.Built := by
  obtain ⟨-, -, h⟩ := bind_eq_ok_iff.1 h
  obtain ⟨-, -, h⟩ := bind_eq_ok_iff.1 h
  obtain ⟨ops, hops, h⟩ := bind_eq_ok_iff.1 h
  obtain rfl := Except.ok.inj h
  have hbuilt : (ops.foldl Graph.addOp .empty).Built := by
    refine Graph.Built.empty.foldl_addOp fun op hop => ?_
    obtain ⟨d, -, hd⟩ := (mem_of_mapM hops).1 hop
    exact d.isolated_op hd
  refine (hbuilt.addFunc ?_).addScript _
  rw [Graph.log_foldl_addOp]
  simp [Func.ops, Func.body]

end Command

end TypeRecovery
