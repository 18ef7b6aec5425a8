import TypeRecovery.Problem.Basic

/-!
# Building types from unchecked parts

A type is given by its kind, its subtypes and the name of its class. Parts that do not fit are
refused; when several do not, the first check that fails decides.
-/
namespace TypeRecovery.Ty

/-- A subtype that is not a type is given as `none`. -/
def build (kind : Kind) (subtypes : List (Option Ty)) (name : Value) : Except Malformed Ty := do
  let subtypes ← subtypes.mapM fun
    | some t => Except.ok t
    | none => .error .memberNotType
  match kind, name with
  | .object, .null | .object, .text _ => pure ()
  | .object, _ => throw .nameNotText
  | _, .null => pure ()
  | _, _ => throw .nameWithoutObject
  match kind, subtypes with
  | .union, a :: b :: rest => return compound .union a b rest
  | .intersection, a :: b :: rest => return compound .intersection a b rest
  | .union, _ | .intersection, _ => throw .tooFewMembers
  | .array, [] => return array
  | .array, [t] => return arrayOf t
  | .array, _ => throw .tooManyElements
  | kind, _ :: _ => throw (.membersNotAllowed kind)
  | .object, [] => match name with
    | .text s => return named s
    | _ => return object
  | kind, [] => return (ofKind? kind).getD unknown

/-- The shared type of a kind that takes no parts. -/
def primitive (kind : Kind) : Except Malformed Ty :=
  match ofKind? kind with
  | some t => .ok t
  | none => .error (.notPrimitive kind)

/-- The type of a literal. -/
def ofValue : Value → Except Problem Ty
  | .bool _ => .ok bool
  | .int _ => .ok int
  | .float _ => .ok float
  | .text _ => .ok string
  | .null => .ok null
  | v => .error (.unsupportedLiteral v)

/-- The names under which types besides the primitives are kept ready. -/
def isReadyName (name : String) : Bool := name == "numeric" || name == "mixed"

end TypeRecovery.Ty
