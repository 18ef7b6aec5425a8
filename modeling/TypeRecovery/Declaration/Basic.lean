import TypeRecovery.Ty.Algebra
import TypeRecovery.Ty.Render

/-!
# Declared types

The tree of a declared type, the text it stands for and the type it means. A question mark makes
the whole declaration behind it nullable; a combinator joins one operand with everything behind it;
a pair of brackets makes an array of the operand in front of it.
-/
namespace TypeRecovery

mutual

inductive Declaration where
  | nullable (inner : Declaration)
  | single (operand : Declaration.Operand)
  | joined (left : Declaration.Operand) (c : Combinator) (right : Declaration)

inductive Declaration.Operand where
  | mk (atom : Declaration.Atom) (suffixes : Nat)

inductive Declaration.Atom where
  | group (inner : Declaration)
  | name (chars : List Char)

end

namespace Declaration

/-- Words that name a type of their own, in lowercase. -/
def keywords : List (String × Ty) :=
  [("bool", .bool), ("boolean", .bool), ("true", .bool), ("false", .bool), ("int", .int),
    ("integer", .int), ("float", .float), ("double", .float), ("real", .float),
    ("string", .string), ("array", .array), ("callable", .callable), ("null", .null),
    ("void", .null), ("numeric", .numeric), ("mixed", .mixed), ("object", .object)]

/-- A name means the type of its keyword, or an object of the class it names. The backslash in
front does not belong to the class name. -/
def meaningOfName (chars : List Char) : Ty :=
  let name := String.ofList (chars.dropWhile (· == '\\'))
  (keywords.lookup (Text.lower name)).getD (.named name)

def suffixed (t : Ty) : Nat → Ty
  | 0 => t
  | n + 1 => .arrayOf (suffixed t n)

mutual

/-- What is nullable is simplified on its own, inside of the declaration around it. -/
def meaning : Declaration → Ty
  | nullable d => (Ty.compound .union d.meaning .null []).simplify
  | single o => o.meaning
  | joined o c d => .compound c o.meaning d.meaning []

def Operand.meaning : Operand → Ty
  | .mk a n => suffixed a.meaning n

def Atom.meaning : Atom → Ty
  | .group d => d.meaning
  | .name cs => meaningOfName cs

end

mutual

def chars : Declaration → List Char
  | nullable d => '?' :: d.chars
  | single o => o.chars
  | joined o c d => o.chars ++ c.glue :: d.chars

def Operand.chars : Operand → List Char
  | .mk a n => a.chars ++ (List.replicate n ['[', ']']).flatten

def Atom.chars : Atom → List Char
  | .group d => '(' :: (d.chars ++ [')'])
  | .name cs => cs

end

end Declaration

end TypeRecovery
