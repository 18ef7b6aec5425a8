import TypeRecovery.Problem.Basic

/-!
# Settings

How many rounds a recovery may take, where more signatures come from, and which sources of member
types count.
-/
namespace TypeRecovery

/-- The path without empty and `.` parts. Two slashes in front are kept, more become one, and a path
without parts is `.`. -/
def normalPath (path : String) : String :=
  let slashes := (path.toList.takeWhile (· == '/')).length
  let root := if slashes == 0 then "" else if slashes == 2 then "//" else "/"
  let parts := (path.splitOn "/").filter fun p => p != "" && p != "."
  let text := root ++ "/".intercalate parts
  if text == "" then "." else text

structure Settings where
  maxRounds : Nat := 10000
  signaturePath : Option String := none
  traitMembers : Bool := true
  propertyComments : Bool := true

namespace Settings

inductive Invalid where
  | unknownNames (names : List String)
  | roundsNotNumber (kind : String)
  | roundsNotPositive (given : Value)
  | pathNotText (kind : String)

def Invalid.message : Invalid → String
  | unknownNames names => "Unknown configuration keys: " ++ ", ".intercalate names
  | roundsNotNumber kind => "'<' not supported between instances of '" ++ kind ++ "' and 'int'"
  | roundsNotPositive given => "max_rounds must be positive, got " ++ given.quoted
  | pathNotText kind => "expected str, bytes or os.PathLike object, not " ++ kind

/-- Whether the names are wrong or their number is, and not the kind of a value. -/
def Invalid.isBadValue : Invalid → Bool
  | unknownNames _ | roundsNotPositive _ => true
  | _ => false

def fieldNames : List String :=
  ["max_rounds", "builtins_path", "resolve_trait_members", "property_doc_types"]

/-- The number of rounds that a value allows, of which a broken round counts as a whole one. -/
def roundsOf (v : Value) : Except Invalid Nat :=
  let positive (n : Int) : Except Invalid Nat :=
    if n < 1 then .error (.roundsNotPositive v) else .ok n.toNat
  match v with
  | .int n => positive n
  | .bool b => positive (if b then 1 else 0)
  | .float x => if x.isBelowOne then .error (.roundsNotPositive v) else .ok x.ceiling
  | v => .error (.roundsNotNumber v.kindName)

def pathOf (v : Value) : Except Invalid (Option String) :=
  match v with
  | .null => .ok none
  | .text p => .ok (some (normalPath p))
  | v => .error (.pathNotText v.kindName)

/-- Settings from named values; a name that is missing leaves the default. -/
def ofFields (fields : List (String × Value)) : Except Invalid Settings := do
  let unknown := (fields.map Prod.fst).filter fun n => !fieldNames.contains n
  if !unknown.isEmpty then
    throw (.unknownNames (unknown.mergeSort (· ≤ ·)))
  let flag (name : String) : Bool := ((Value.field? name fields).map (·.isPresent)).getD true
  return { maxRounds := ← roundsOf ((Value.field? "max_rounds" fields).getD (.int 10000))
           signaturePath := ← pathOf ((Value.field? "builtins_path" fields).getD .null)
           traitMembers := flag "resolve_trait_members"
           propertyComments := flag "property_doc_types" }

/-- The named values with the defaults filled in and the path in its normal form. -/
def complete (fields : List (String × Value)) : Except Invalid (List (String × Value)) := do
  let s ← ofFields fields
  let given (name : String) (default : Value) : String × Value :=
    (name, (Value.field? name fields).getD default)
  return [given "max_rounds" (.int 10000),
    ("builtins_path", (s.signaturePath.map Value.text).getD .null),
    given "resolve_trait_members" (.bool true), given "property_doc_types" (.bool true)]

end Settings

end TypeRecovery
