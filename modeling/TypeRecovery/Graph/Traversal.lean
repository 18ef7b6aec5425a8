import TypeRecovery.Graph.Basic
import TypeRecovery.Visited

/-!
# Traversal of a program graph

A traversal goes through the scripts, from each into its functions, and from an operation into the
body of a class-like or the function it brings along. Every function is entered once, when it is
first met. There are finitely many functions, and bodies of class-likes are parts of their
operation, so the traversal ends.
-/
namespace TypeRecovery

/-- What happens in a traversal. -/
inductive Event where
  | script (file : String)
  | enter (f : FuncId)
  | visit (op : Op)
  | leave (f : FuncId)
  deriving Inhabited

def Event.op? : Event → Option Op
  | visit op => some op
  | _ => none

namespace Graph

/-- The events of a part of a traversal that began when `before` had been entered, and the functions
that are entered at its end. -/
structure Passage (before : List FuncId) where
  events : List Event
  entered : List FuncId
  keeps : ∀ f ∈ before, f ∈ entered

mutual

def traverseFunc (g : Graph) (entered : List FuncId) (f : FuncId) : Passage entered :=
  if _hf : f ∈ entered then ⟨[], entered, fun _ h => h⟩
  else match _hg : g.func? f with
    | none => ⟨[], entered, fun _ h => h⟩
    | some fn =>
      let p := g.traverseOps (f :: entered) fn.ops
      ⟨.enter f :: (p.events ++ [.leave f]), p.entered,
        fun x hx => p.keeps x (List.mem_cons_of_mem f hx)⟩
  termination_by (unvisited g.funcIds entered, 0)
  decreasing_by exact Prod.Lex.left _ _ (unvisited_cons_lt (mem_funcIds _hg) _hf)

/-- What an operation brings along. -/
def traverseInside (g : Graph) (entered : List FuncId) (op : Op) : Passage entered :=
  match op with
  | .classLike _ _ _ body => g.traverseOps entered body
  | .closure _ f | .function _ f | .method _ f => g.traverseFunc entered f
  | _ => ⟨[], entered, fun _ h => h⟩
  termination_by (unvisited g.funcIds entered, sizeOf op)
  decreasing_by
    · exact Prod.Lex.right _ (by rw [Op.classLike.sizeOf_spec]; omega)
    · exact Prod.Lex.right _ (by rw [Op.closure.sizeOf_spec]; omega)
    · exact Prod.Lex.right _ (by rw [Op.function.sizeOf_spec]; omega)
    · exact Prod.Lex.right _ (by rw [Op.method.sizeOf_spec]; omega)

def traverseOps (g : Graph) (entered : List FuncId) (ops : List Op) : Passage entered :=
  match ops with
  | [] => ⟨[], entered, fun _ h => h⟩
  | op :: rest =>
    let inner := g.traverseInside entered op
    let outer := g.traverseOps inner.entered rest
    ⟨.visit op :: (inner.events ++ outer.events), outer.entered,
      fun x hx => outer.keeps x (inner.keeps x hx)⟩
  termination_by (unvisited g.funcIds entered, sizeOf ops)
  decreasing_by
    · exact Prod.Lex.right _ (by rw [List.cons.sizeOf_spec]; omega)
    · rcases Nat.lt_or_eq_of_le (@unvisited_le _ _ g.funcIds _ _ inner.keeps) with h | h
      · exact Prod.Lex.left _ _ h
      · rw [h]
        exact Prod.Lex.right _ (by rw [List.cons.sizeOf_spec]; omega)

end

def traverseFuncs (g : Graph) (entered : List FuncId) : List FuncId → Passage entered
  | [] => ⟨[], entered, fun _ h => h⟩
  | f :: fs =>
    let p := g.traverseFunc entered f
    let rest := g.traverseFuncs p.entered fs
    ⟨p.events ++ rest.events, rest.entered, fun x hx => rest.keeps x (p.keeps x hx)⟩

def traverseScripts (g : Graph) (entered : List FuncId) : List Script → List Event
  | [] => []
  | s :: rest =>
    let p := g.traverseFuncs entered (s.main :: s.functions)
    .script s.file :: (p.events ++ g.traverseScripts p.entered rest)

def events (g : Graph) : List Event := g.traverseScripts [] g.scripts

/-- The operations that are visited, in order. -/
def visited (g : Graph) : List Op := g.events.filterMap Event.op?

def addUnseen (seen : List OperandId) (x : OperandId) : List OperandId :=
  if x ∈ seen then seen else seen ++ [x]

/-- The operands of the visited operations, each in the place where it is first read or written. -/
def usedOperands (g : Graph) : List OperandId :=
  (g.visited.flatMap fun op => op.reads ++ op.writes).foldl addUnseen []

end Graph

end TypeRecovery
