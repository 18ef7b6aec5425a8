import TypeRecovery.Problem.Code
import TypeRecovery.Ty.Basic
import TypeRecovery.Value.Basic

/-!
# Problems and faults

A problem is something the library itself finds wrong, with a code of its own. A fault is anything
that can stop an operation: a problem, or a value of a kind that the operation cannot use.
-/
namespace TypeRecovery

/-- Why a type cannot be built from its parts. -/
inductive Malformed where
  | memberNotType
  | nameNotText
  | nameWithoutObject
  | tooFewMembers
  | tooManyElements
  | membersNotAllowed (kind : Kind)
  | notPrimitive (kind : Kind)

def Malformed.message : Malformed → String
  | memberNotType => "Subtypes must be Type instances"
  | nameNotText => "Expected user type to be None or str"
  | nameWithoutObject => "Only objects can have a user type"
  | tooFewMembers => "Compound types must combine at least 2 subtypes"
  | tooManyElements => "Array type must have at most 1 subtype"
  | membersNotAllowed kind => "Type " ++ kind.title ++ " cannot have subtypes"
  | notPrimitive kind => kind.title ++ " is not a primitive"

inductive Problem where
  | general (message : String)
  | invalidDeclaration (decl : Value) (reason : String)
  | unsupportedLiteral (value : Value)
  | malformedType (message : String)
  | unhandledOperation (kind location : String)
  | failedRule (kind location cause : String)

namespace Problem

def code : Problem → Code
  | general _ => .failedRule
  | invalidDeclaration .. => .invalidDeclaration
  | unsupportedLiteral _ => .unsupportedLiteral
  | malformedType _ => .malformedType
  | unhandledOperation .. => .unhandledOperation
  | failedRule .. => .failedRule

def message : Problem → String
  | general m => m
  | invalidDeclaration decl reason =>
    "Invalid type declaration " ++ decl.quoted ++ (if reason == "" then "" else ": " ++ reason)
  | unsupportedLiteral v => "Unknown value type found: " ++ v.kindName ++ " (" ++ v.quoted ++ ")"
  | malformedType m => m
  | unhandledOperation kind location =>
    "Unknown variable op found: " ++ kind ++ (if location == "" then "" else " at " ++ location)
  | failedRule kind location cause =>
    "Exception raised while handling op " ++ kind ++ "@" ++ location ++ ": " ++ cause

/-- The message behind a code. -/
def textUnder (code : Code) (p : Problem) : String := "[" ++ code.text ++ "] " ++ p.message

def text (p : Problem) : String := p.textUnder p.code

end Problem

inductive Fault where
  | problem (p : Problem)
  /-- Something of this kind has no such part. -/
  | noPart (kind part : String)
  /-- Something of this kind cannot be listed item by item. -/
  | notListable (kind : String)

namespace Fault

def message : Fault → String
  | problem p => p.text
  | noPart kind part => "'" ++ kind ++ "' object has no attribute '" ++ part ++ "'"
  | notListable kind => "'" ++ kind ++ "' object is not iterable"

/-- What a name must be: a text that can be put into lowercase. -/
def requireName (v : Value) : Except Fault String :=
  match v with
  | .text s => .ok s
  | v => .error (noPart v.kindName "lower")

end Fault

end TypeRecovery
