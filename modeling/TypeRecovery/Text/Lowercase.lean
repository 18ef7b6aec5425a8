import TypeRecovery.Text.CaseTable
import TypeRecovery.Text.Ranges

/-!
# Lowercase

Every letter is written in its lowercase form. Two letters need more than the simple mapping: a
capital I with a dot keeps the dot as a combining mark, and a capital sigma takes its final form at
the end of a word. Lowering twice is the same as lowering once.
-/
namespace TypeRecovery.Text

/-- The lowercase form of a single character, taken by itself. -/
def lowerChar (c : Char) : Char :=
  if c.toNat < 0x80 then c.toLower
  else match lowercaseRuns.find? (·.contains c.toNat) with
    | some run => Char.ofNat (run.apply c.toNat)
    | none => c

def isCased (c : Char) : Bool := inRanges casedRanges c
def isCaseIgnorable (c : Char) : Bool := inRanges caseIgnorableRanges c

/-- A sigma ends a word when a letter stands before it and none after it. The text before is given
backwards. -/
def endsWord (before after : List Char) : Bool :=
  (match before.dropWhile isCaseIgnorable with
    | [] => false
    | b :: _ => isCased b) &&
  (match after.dropWhile isCaseIgnorable with
    | [] => true
    | a :: _ => !isCased a)

def lowerAt (before : List Char) (c : Char) (after : List Char) : List Char :=
  if c.toNat == 0x3A3 then [if endsWord before after then 'ς' else 'σ']
  else if c.toNat == 0x130 then ['i', '\u0307']
  else [lowerChar c]

def lowerFrom (before : List Char) : List Char → List Char
  | [] => []
  | c :: after => lowerAt before c after ++ lowerFrom (c :: before) after

def lower (s : String) : String := String.ofList (lowerFrom [] s.toList)

end TypeRecovery.Text
