/-!
# Codes of problems

Every problem has a code: the letters of its family and a number of at least four places. Two codes
are the same when these agree; the category is for filtering only.
-/
namespace TypeRecovery.Problem

inductive Category where
  | declaration
  | type
  | reconstruction
  deriving DecidableEq, Inhabited

namespace Category

def word : Category → String
  | declaration => "syntax"
  | type => "type"
  | reconstruction => "reconstruction"

def title (c : Category) : String := c.word.map Char.toUpper

def ofWord? (w : String) : Option Category :=
  [declaration, type, reconstruction].find? (·.word == w)

end Category

structure Code where
  family : String
  number : Int
  category : Category
  deriving Inhabited

namespace Code

/-- Four places, the sign included, filled with zeros. -/
def digits (n : Int) : String :=
  let sign := if n < 0 then ['-'] else []
  let ds := Nat.toDigits 10 n.natAbs
  String.ofList (sign ++ List.replicate (4 - sign.length - ds.length) '0' ++ ds)

def text (c : Code) : String := c.family ++ "-" ++ digits c.number

def same (a b : Code) : Bool := a.family == b.family && a.number == b.number

def invalidDeclaration : Code := ⟨"PHPT", 1001, .declaration⟩
def unsupportedLiteral : Code := ⟨"PHPT", 2001, .type⟩
def malformedType : Code := ⟨"PHPT", 2002, .type⟩
def unhandledOperation : Code := ⟨"PHPT", 3001, .reconstruction⟩
def failedRule : Code := ⟨"PHPT", 3002, .reconstruction⟩

def predefined : List Code :=
  [invalidDeclaration, unsupportedLiteral, malformedType, unhandledOperation, failedRule]

/-- One code for each class of codes that are the same. -/
def distinct (codes : List Code) : List Code :=
  codes.foldl (fun kept c => if kept.any (same c) then kept else kept ++ [c]) []

end Code

end TypeRecovery.Problem
