import TypeRecovery.Number.Binary64
import TypeRecovery.Text.Blank
import TypeRecovery.Text.Digit

/-!
# Reading doubles

A double is written with an optional sign, digits with an optional point among or beside them, and
an optional exponent; the words for infinity and for a missing number are read in any letter case.
The digits may be those of any script, and an underscore may stand between two of them.
-/
namespace TypeRecovery.Number

def digitsValue (ds : List Char) : Nat :=
  ds.foldl (fun n d => n * 10 + (d.toNat - '0'.toNat)) 0

/-- A run of digits at the front, and what is left. -/
def takeDigits (cs : List Char) : List Char × List Char :=
  (cs.takeWhile Char.isDigit, cs.dropWhile Char.isDigit)

/-- The power of ten behind a number: nothing, or a letter e, a sign if any, and digits. -/
def readExponent? : List Char → Option Int
  | [] => some 0
  | mark :: rest =>
    if mark == 'e' || mark == 'E' then
      let (negative, body) := match rest with
        | '-' :: r => (true, r)
        | '+' :: r => (false, r)
        | r => (false, r)
      let (ds, tail) := takeDigits body
      if ds.isEmpty || !tail.isEmpty then none
      else some (if negative then -(digitsValue ds : Int) else digitsValue ds)
    else none

/-- An unsigned decimal in any of its forms. -/
def readUnsigned? (negative : Bool) (cs : List Char) : Option Binary64 :=
  let (whole, rest) := takeDigits cs
  let (places, rest) := match rest with
    | '.' :: r => takeDigits r
    | r => ([], r)
  if whole.isEmpty && places.isEmpty then none
  else (readExponent? rest).map fun e =>
    Binary64.ofDecimal negative (digitsValue (whole ++ places)) (e - places.length)

/-- Takes out the underscores, each of which has to stand between two digits; `last` is the character
in front. -/
def ungroup? (last : Char) : List Char → Option (List Char)
  | [] => if last == '_' then none else some []
  | c :: cs =>
    if c == '_' then if last.isDigit then ungroup? c cs else none
    else if last == '_' && !c.isDigit then none
    else (ungroup? c cs).map (c :: ·)

def readBinary64? (s : String) : Option Binary64 := do
  let cs ← ungroup? ' ' ((Text.trim s.toList).map Text.asciiDigit)
  let (negative, body) := match cs with
    | '-' :: r => (true, r)
    | '+' :: r => (false, r)
    | r => (false, r)
  let word := String.ofList (body.map Char.toLower)
  if word == "nan" then some Binary64.nan
  else if word == "inf" || word == "infinity" then some (Binary64.infinity negative)
  else readUnsigned? negative body

end TypeRecovery.Number
