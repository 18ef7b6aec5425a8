import TypeRecovery.Declaration.Parser
import TypeRecovery.Problem.Basic
import TypeRecovery.Text.Blank

/-!
# Types from declared text

The type that a text declares. Blanks around the text do not count. Where a declaration is missing
or cannot be read and a type is needed nevertheless, any value is allowed.
-/
namespace TypeRecovery

inductive Declaration.Refusal where
  | notText
  | empty
  | unexpected (column : Nat)

def Declaration.Refusal.message : Declaration.Refusal → String
  | notText => "declaration is not a string"
  | empty => "empty declaration"
  | unexpected column => "unexpected input at column " ++ toString column

namespace Ty

/-- The type that a text without blanks around it declares. -/
def ofTrimmed (cs : List Char) : Except Declaration.Refusal Ty :=
  match Declaration.parse cs with
  | .ok d => .ok d.meaning.simplify
  | .error column => .error (.unexpected column)

def ofText (s : String) : Except Problem Ty :=
  let cs := Text.trim s.toList
  if cs.isEmpty then .error (.invalidDeclaration (.text s) Declaration.Refusal.empty.message)
  else match ofTrimmed cs with
    | .ok t => .ok t
    | .error r => .error (.invalidDeclaration (.text (String.ofList cs)) r.message)

/-- The type that a value declares, which has to be a text. -/
def declared : Value → Except Problem Ty
  | .text s => ofText s
  | v => .error (.invalidDeclaration v Declaration.Refusal.notText.message)

/-- The type that a value declares, or any value where it declares none. -/
def declaredOrMixed (v : Value) : Ty :=
  match declared v with
  | .ok t => t
  | .error _ => mixed

def ofTextOrMixed (s : String) : Ty := declaredOrMixed (.text s)

end Ty

end TypeRecovery
