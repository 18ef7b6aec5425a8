import TypeRecovery.Graph.Operand
import TypeRecovery.Table
import TypeRecovery.Ty.Equiv

/-!
# Findings

What has been found out about each operand: nothing, a type that is a guess so far, or a type that is
settled. Operands stay in the order in which they came. New guesses are counted until the count is
taken, so that a round without progress can be told.
-/
namespace TypeRecovery

inductive Finding where
  | nothing
  | guess (t : Ty)
  | settled (t : Ty)
  deriving Inhabited

namespace Finding

def isSettled : Finding → Bool
  | settled _ => true
  | _ => false

def isGuess : Finding → Bool
  | guess _ => true
  | _ => false

def known? : Finding → Option Ty
  | nothing => none
  | guess t | settled t => some t

def settled? : Finding → Option Ty
  | settled t => some t
  | _ => none

/-- Whether a guess would be news. -/
def isNews (t : Ty) : Finding → Bool
  | nothing => true
  | guess u => !u.equiv t
  | settled _ => false

/-- A guess made final. -/
def promote : Finding → Finding
  | guess t => settled t
  | f => f

end Finding

structure Findings where
  table : Table OperandId Finding := .empty
  changes : Nat := 0
  deriving Inhabited

namespace Findings

def empty : Findings := {}

/-- What is found out about an operand; of one that never came, nothing. -/
def about (f : Findings) (x : OperandId) : Finding := (f.table.get? x).getD .nothing

def known? (f : Findings) (x : OperandId) : Option Ty := (f.about x).known?
def settled? (f : Findings) (x : OperandId) : Option Ty := (f.about x).settled?
def final (f : Findings) (x : OperandId) : Ty := (f.settled? x).getD .unknown
def size (f : Findings) : Nat := f.table.size

/-- The operands that are not settled, in the order in which they came. -/
def pending (f : Findings) : List OperandId :=
  (f.table.entries.filter fun e => !e.2.isSettled).map Prod.fst

def add (f : Findings) (x : OperandId) : Findings := { f with table := f.table.ensure x .nothing }

def settle (f : Findings) (x : OperandId) (t : Ty) : Findings :=
  { f with table := f.table.put x (.settled t) }

/-- Records a guess, unless the operand is settled. -/
def suggest (f : Findings) (x : OperandId) (t : Ty) : Findings :=
  if (f.about x).isSettled then f
  else
    { table := f.table.put x (.guess t)
      changes := f.changes + (if (f.about x).isNews t then 1 else 0) }

/-- Takes the count of new guesses and starts counting again. -/
def takeChanges (f : Findings) : Nat × Findings := (f.changes, { f with changes := 0 })

/-- The number of operands with a guess. -/
def guesses (f : Findings) : Nat := f.table.entries.countP fun e => e.2.isGuess

/-- Settles every guess. -/
def promote (f : Findings) : Findings :=
  { f with table := f.table.mapValues Finding.promote }

@[simp] theorem about_add (f : Findings) (x y : OperandId) : (f.add x).about y = f.about y := by
  by_cases h : x = y
  · subst h
    simp [about, add]
  · simp [about, add, h]

@[simp] theorem about_settle (f : Findings) (x y : OperandId) (t : Ty) :
    (f.settle x t).about y = if x = y then .settled t else f.about y := by
  by_cases h : x = y <;> simp [about, settle, h]

theorem about_suggest (f : Findings) (x y : OperandId) (t : Ty) :
    (f.suggest x t).about y =
      if x = y ∧ (f.about x).isSettled = false then .guess t else f.about y := by
  unfold suggest
  cases hs : (f.about x).isSettled with
  | true => simp
  | false => by_cases h : x = y <;> simp [about, h]

@[simp] theorem about_promote (f : Findings) (x : OperandId) :
    f.promote.about x = (f.about x).promote := by
  cases h : f.table.get? x <;> simp [about, promote, h, Finding.promote]

end Findings

end TypeRecovery
