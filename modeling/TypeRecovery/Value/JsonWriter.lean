import TypeRecovery.Value.Basic

/-!
# Writing values as JSON text

Text is written in ASCII: other characters are given by their code units. On a page of its own each
item and each field has its line, two spaces deeper than the brackets around it; otherwise the value
is written on one line.
-/
namespace TypeRecovery.Value.Json

def unitEscape (n : Nat) : List Char := '\\' :: 'u' :: Text.hexDigits 4 n

def escape (c : Char) : List Char :=
  match c with
  | '"' => ['\\', '"']
  | '\\' => ['\\', '\\']
  | '\n' => ['\\', 'n']
  | '\r' => ['\\', 'r']
  | '\t' => ['\\', 't']
  | '\x08' => ['\\', 'b']
  | '\x0c' => ['\\', 'f']
  | c =>
    let n := c.toNat
    if 0x20 ≤ n && n < 0x7F then [c]
    else if n < 0x10000 then unitEscape n
    else unitEscape (0xD800 + (n - 0x10000) / 0x400) ++ unitEscape (0xDC00 + (n - 0x10000) % 0x400)

def writeText (s : String) : String :=
  String.ofList ('"' :: (s.toList.flatMap escape ++ ['"']))

def writeFloat (x : Number.Binary64) : String :=
  if x.isNaN then "NaN"
  else if x.isSpecial then (if x.isNegative then "-Infinity" else "Infinity")
  else x.toText

/-- The break before an item at the given depth. -/
def lineAt (depth : Option Nat) : String :=
  match depth with
  | none => ""
  | some d => "\n" ++ String.ofList (List.replicate (2 * d) ' ')

def separator (depth : Option Nat) : String :=
  match depth with
  | none => ", "
  | some _ => "," ++ lineAt depth

mutual

/-- The value whose own brackets stand at the given depth, or on one line when there is none. -/
def writeAt (depth : Option Nat) : Value → String
  | .null => "null"
  | .bool true => "true"
  | .bool false => "false"
  | .int n => toString n
  | .float x => writeFloat x
  | .text s => writeText s
  | .list [] => "[]"
  | .list (v :: vs) =>
    "[" ++ lineAt (depth.map (· + 1)) ++ writeAt (depth.map (· + 1)) v ++
      writeItems (depth.map (· + 1)) vs ++ lineAt depth ++ "]"
  | .record [] => "\x7b\x7d"
  | .record ((n, v) :: fields) =>
    "\x7b" ++ lineAt (depth.map (· + 1)) ++ writeText n ++ ": " ++ writeAt (depth.map (· + 1)) v ++
      writeFields (depth.map (· + 1)) fields ++ lineAt depth ++ "\x7d"

def writeItems (depth : Option Nat) : List Value → String
  | [] => ""
  | v :: vs => separator depth ++ writeAt depth v ++ writeItems depth vs

def writeFields (depth : Option Nat) : List (String × Value) → String
  | [] => ""
  | (n, v) :: fields =>
    separator depth ++ writeText n ++ ": " ++ writeAt depth v ++ writeFields depth fields

end

def writeLine (v : Value) : String := writeAt none v
def writePage (v : Value) : String := writeAt (some 0) v

end TypeRecovery.Value.Json
