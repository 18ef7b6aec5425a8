import TypeRecovery.Graph.Traversal
import TypeRecovery.Index
import TypeRecovery.Settings
import TypeRecovery.Signatures.Basic

/-!
# What is known before recovery starts

A program graph with what a traversal finds in it: the visited operations, the operands to be typed,
the index of declarations, and the hierarchy of the classes of the program over that of the
signatures.
-/
namespace TypeRecovery

structure Analysis where
  graph : Graph
  settings : Settings
  signatures : Signatures
  visited : List Op
  operands : List OperandId
  index : Index
  hierarchy : Hierarchy

namespace Analysis

/-- The classes of a program on top of a hierarchy. -/
def extend (h : Hierarchy) (cs : List ClassLike) : Hierarchy :=
  let h := cs.foldl (fun h c => h.declare (Key.of c.name)) h
  let h := cs.foldl (fun h c => h.linkAll (Key.of c.name) (c.heritage.supertypes.map Key.of)) h
  h.close

def of (g : Graph) (settings : Settings) (signatures : Signatures) : Except Fault Analysis := do
  let index ← Index.build g g.visited
  return { graph := g, settings, signatures, index
           visited := g.visited
           operands := g.usedOperands
           hierarchy := extend signatures.hierarchy index.classLikes }

/-- The visited operations of an action. -/
def opsOf (a : Analysis) (action : Action) : List Op := a.visited.filter fun op => op.action = action

end Analysis

end TypeRecovery
