import TypeRecovery.Ty.Basic
import TypeRecovery.Value.Basic

/-!
# Operands

An operand is a place in a program that holds a value: a temporary, a version of a variable, a
literal, or a variable bound from outside such as the object of a method. An operand may come with a
type; most come with none.
-/
namespace TypeRecovery

structure OperandId where
  index : Nat
  deriving DecidableEq, Inhabited

/-- What binds a variable from outside. -/
inductive Scope where
  | ofObject
  | ofFunction
  | ofBlock
  | ofProgram
  deriving DecidableEq, Inhabited

def Scope.ofWord? : String → Option Scope
  | "object" => some ofObject
  | "function" => some ofFunction
  | "local" => some ofBlock
  | "global" => some ofProgram
  | _ => none

inductive Origin where
  | temporary
  | named (name : String)
  | literal (value : Value)
  /-- The class of an object is given as a literal where it is known. -/
  | bound (name : String) (scope : Scope) (cls : Option Value)
  deriving Inhabited

structure Operand where
  origin : Origin
  type : Ty := .unknown
  deriving Inhabited

namespace Operand

/-- The name of the operand's sort in messages. -/
def sortName (x : Operand) : String :=
  match x.origin with
  | .temporary => "Temporary"
  | .named _ => "Variable"
  | .literal _ => "Literal"
  | .bound .. => "BoundVariable"

/-- The operand in lists of operands, without its number. -/
def describe (x : Operand) : String :=
  match x.origin with
  | .temporary => "Temporary#"
  | .named name | .bound name .. => "Variable($" ++ name ++ "#)"
  | .literal v => "Literal(" ++ v.quoted ++ "#)"

def literal? (x : Operand) : Option Value :=
  match x.origin with
  | .literal v => some v
  | _ => none

/-- The declared class of an object that is bound from outside. -/
def objectClass? (x : Operand) : Option Value :=
  match x.origin with
  | .bound _ .ofObject cls => cls
  | _ => none

end Operand

end TypeRecovery
