import TypeRecovery.Analysis

/-!
# Traversals of graphs of the same shape

A traversal looks at an operation for its body and its function only. If each operation of a graph
is replaced by one that brings along the same function, or the same body with its operations
replaced, the new graph is traversed in the same way: the events are those of the old graph with
their operations replaced.
-/
namespace TypeRecovery

/-- The operations of the body of a class-like. -/
def Op.body : Op → List Op
  | classLike _ _ _ body => body
  | _ => []

theorem Op.sizeOf_body_lt (op : Op) : sizeOf op.body < sizeOf op := by
  have hhead : 0 < sizeOf op.head := by
    rw [Head.mk.sizeOf_spec]
    omega
  cases op <;> simp [body, head] at hhead ⊢ <;> omega

/-- The event with its operation replaced. -/
def Event.map (φ : Op → Op) : Event → Event
  | visit op => visit (φ op)
  | e => e

theorem Event.op?_map (φ : Op → Op) (e : Event) : (e.map φ).op? = e.op?.map φ := by
  cases e <;> rfl

namespace Graph

theorem traverseInside_eq (g : Graph) (entered : List FuncId) (op : Op) :
    g.traverseInside entered op =
      match op.func? with
      | some f => g.traverseFunc entered f
      | none => g.traverseOps entered op.body := by
  cases op <;> simp [traverseInside, traverseOps, Op.func?, Op.body]

/-- What has to be shown of functions, of what operations bring along and of lists of operations
so that it holds wherever a traversal comes by. -/
structure TraversalCases (g : Graph) (F : List FuncId → FuncId → Prop)
    (I : List FuncId → Op → Prop) (O : List FuncId → List Op → Prop) : Prop where
  func : ∀ entered f,
    (f ∉ entered → ∀ fn, g.func? f = some fn → O (f :: entered) fn.ops) → F entered f
  inside : ∀ entered op,
    (∀ f, op.func? = some f → F entered f) → (op.func? = none → O entered op.body) → I entered op
  nil : ∀ entered, O entered []
  cons : ∀ entered op rest,
    I entered op → O (g.traverseInside entered op).entered rest → O entered (op :: rest)

section

variable {g : Graph} {F : List FuncId → FuncId → Prop} {I : List FuncId → Op → Prop}
  {O : List FuncId → List Op → Prop}

mutual

theorem TraversalCases.all_func (h : g.TraversalCases F I O) (entered : List FuncId)
    (f : FuncId) : F entered f :=
  h.func entered f fun _hf fn _hg => h.all_ops (f :: entered) fn.ops
  termination_by (unvisited g.funcIds entered, 0)
  decreasing_by exact Prod.Lex.left _ _ (unvisited_cons_lt (mem_funcIds _hg) _hf)

theorem TraversalCases.all_inside (h : g.TraversalCases F I O) (entered : List FuncId)
    (op : Op) : I entered op :=
  h.inside entered op (fun f _ => h.all_func entered f) fun _ => h.all_ops entered op.body
  termination_by (unvisited g.funcIds entered, sizeOf op)
  decreasing_by
    · exact Prod.Lex.right _ (Nat.zero_lt_of_lt op.sizeOf_body_lt)
    · exact Prod.Lex.right _ op.sizeOf_body_lt

theorem TraversalCases.all_ops (h : g.TraversalCases F I O) (entered : List FuncId) :
    (ops : List Op) → O entered ops
  | [] => h.nil entered
  | op :: rest => h.cons entered op rest (h.all_inside entered op)
      (h.all_ops (g.traverseInside entered op).entered rest)
  termination_by ops => (unvisited g.funcIds entered, sizeOf ops)
  decreasing_by
    · exact Prod.Lex.right _ (by rw [List.cons.sizeOf_spec]; omega)
    · have hle := @unvisited_le _ _ g.funcIds _ _ (g.traverseInside entered op).keeps
      rcases Nat.lt_or_eq_of_le hle with hlt | heq
      · exact Prod.Lex.left _ _ hlt
      · rw [heq]
        exact Prod.Lex.right _ (by rw [List.cons.sizeOf_spec]; omega)

end

end

/-- The operations of `g'` are those of `g`, each replaced by another one. -/
structure Reshaped (φ : Op → Op) (g g' : Graph) : Prop where
  func? : ∀ op, (φ op).func? = op.func?
  body : ∀ op, (φ op).body = op.body.map φ
  ops : ∀ f, (g'.func? f).map Func.ops = (g.func? f).map fun fn => fn.ops.map φ
  scripts : g'.scripts = g.scripts

/-- The same way through two graphs. -/
structure Passage.Mirrors (φ : Op → Op) {before before' : List FuncId} (p : Passage before)
    (p' : Passage before') : Prop where
  events : p'.events = p.events.map (Event.map φ)
  entered : p'.entered = p.entered

variable {φ : Op → Op} {g g' : Graph}

theorem Reshaped.traverseFunc (h : Reshaped φ g g') {entered entered' : List FuncId}
    (he : entered' = entered) (f : FuncId) :
    (g.traverseFunc entered f).Mirrors φ (g'.traverseFunc entered' f) := by
  have hcases : g.TraversalCases
      (fun entered f => ∀ entered', entered' = entered →
        (g.traverseFunc entered f).Mirrors φ (g'.traverseFunc entered' f))
      (fun entered op => ∀ entered', entered' = entered →
        (g.traverseInside entered op).Mirrors φ (g'.traverseInside entered' (φ op)))
      fun entered ops => ∀ entered', entered' = entered →
        (g.traverseOps entered ops).Mirrors φ (g'.traverseOps entered' (ops.map φ)) := by
    constructor
    case func =>
      rintro _ f ih entered rfl
      have hops := h.ops f
      rw [Graph.traverseFunc, Graph.traverseFunc]
      by_cases hf : f ∈ entered
      · rw [dif_pos hf, dif_pos hf]
        exact ⟨rfl, rfl⟩
      · rw [dif_neg hf, dif_neg hf]
        split <;> rename_i hg <;> split <;> rename_i hg'
        · exact ⟨rfl, rfl⟩
        · simp_all
        · simp_all
        · rename_i fn fn'
          have hfn : fn'.ops = fn.ops.map φ := by simpa [hg, hg'] using hops
          have hbody := ih hf fn hg _ rfl
          rw [← hfn] at hbody
          exact ⟨by simp [hbody.events, Event.map], hbody.entered⟩
    case inside =>
      rintro _ op ihf ihb entered rfl
      rw [traverseInside_eq, traverseInside_eq, h.func?, h.body]
      cases hf : op.func? with
      | some f => exact ihf f hf _ rfl
      | none => exact ihb hf _ rfl
    case nil =>
      rintro _ entered rfl
      rw [List.map_nil, traverseOps, traverseOps]
      exact ⟨rfl, rfl⟩
    case cons =>
      rintro _ op rest ihi iho entered rfl
      have hinner := ihi _ rfl
      have houter := iho _ hinner.entered
      rw [List.map_cons, traverseOps, traverseOps]
      exact ⟨by simp [hinner.events, houter.events, Event.map], houter.entered⟩
  exact hcases.all_func entered f entered' he

theorem Reshaped.traverseFuncs (h : Reshaped φ g g') {entered entered' : List FuncId}
    (he : entered' = entered) (fs : List FuncId) :
    (g.traverseFuncs entered fs).Mirrors φ (g'.traverseFuncs entered' fs) := by
  induction fs generalizing entered entered' with
  | nil => exact ⟨rfl, he⟩
  | cons f fs ih =>
    have hfirst := h.traverseFunc he f
    have hrest := ih hfirst.entered
    exact ⟨by simp [Graph.traverseFuncs, hfirst.events, hrest.events], hrest.entered⟩

theorem Reshaped.traverseScripts (h : Reshaped φ g g') {entered entered' : List FuncId}
    (he : entered' = entered) (scripts : List Script) :
    g'.traverseScripts entered' scripts =
      (g.traverseScripts entered scripts).map (Event.map φ) := by
  induction scripts generalizing entered entered' with
  | nil => rfl
  | cons s scripts ih =>
    have hfirst := h.traverseFuncs he (s.main :: s.functions)
    simp [Graph.traverseScripts, hfirst.events, ih hfirst.entered, Event.map]

/-- The operations that are visited are replaced one by one. -/
theorem Reshaped.visited (h : Reshaped φ g g') : g'.visited = g.visited.map φ := by
  have hop : (fun e : Event => (e.map φ).op?) = fun e => e.op?.map φ :=
    funext (Event.op?_map φ)
  rw [Graph.visited, events, h.scripts, h.traverseScripts rfl, List.filterMap_map]
  rw [Graph.visited, events, List.map_filterMap]
  exact congrArg (fun k => List.filterMap k _) hop

theorem Reshaped.usedOperands (h : Reshaped φ g g') (hreads : ∀ op, (φ op).reads = op.reads)
    (hwrites : ∀ op, (φ op).writes = op.writes) : g'.usedOperands = g.usedOperands := by
  simp only [Graph.usedOperands, h.visited, List.flatMap_map, hreads, hwrites]

end Graph

end TypeRecovery
