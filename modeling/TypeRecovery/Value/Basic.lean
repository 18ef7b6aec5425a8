import TypeRecovery.Number.Binary64
import TypeRecovery.Text.Quoted

/-!
# Plain values

The values that literals of an analysed program and fields of a data file can hold, and their text
in messages.
-/
namespace TypeRecovery

inductive Value where
  | null
  | bool (b : Bool)
  | int (n : Int)
  | float (x : Number.Binary64)
  | text (s : String)
  | list (items : List Value)
  | record (fields : List (String × Value))
  deriving Inhabited

namespace Value

/-- The name by which messages call the kind of a value. -/
def kindName : Value → String
  | null => "NoneType"
  | bool _ => "bool"
  | int _ => "int"
  | float _ => "float"
  | text _ => "str"
  | list _ => "list"
  | record _ => "dict"

/-- Nothing, zero and the empty values count as absent. -/
def isPresent : Value → Bool
  | null => false
  | bool b => b
  | int n => n != 0
  | float x => !x.isZero
  | text s => s != ""
  | list items => !items.isEmpty
  | record fields => !fields.isEmpty

/-- The field of a record; when a name is listed twice, the last one. -/
def field? (name : String) : List (String × Value) → Option Value
  | [] => none
  | (n, v) :: rest => (field? name rest).or (if n == name then some v else none)

mutual

/-- The value as messages show it: text in quotes, everything else in its literal form. -/
def quoted : Value → String
  | null => "None"
  | bool true => "True"
  | bool false => "False"
  | int n => toString n
  | float x => x.toText
  | text s => Text.quoted s
  | list items => "[" ++ quotedItems items ++ "]"
  | record fields => "\x7b" ++ quotedFields fields ++ "\x7d"

def quotedItems : List Value → String
  | [] => ""
  | [v] => quoted v
  | v :: rest => quoted v ++ ", " ++ quotedItems rest

def quotedFields : List (String × Value) → String
  | [] => ""
  | [(n, v)] => Text.quoted n ++ ": " ++ quoted v
  | (n, v) :: rest => Text.quoted n ++ ": " ++ quoted v ++ ", " ++ quotedFields rest

end

/-- The value as part of a sentence: text stands without quotes. -/
def plain : Value → String
  | text s => s
  | v => v.quoted

end Value

end TypeRecovery
