import TypeRecovery.Ty.Basic

/-!
# The text of a type

Members of a compound and elements of an array stand in parentheses when they are compounds
themselves.
-/
namespace TypeRecovery

def Combinator.glue : Combinator → Char
  | .union => '|'
  | .intersection => '&'

namespace Ty

def parenthesize (t : Ty) (text : List Char) : List Char :=
  if t.isCompound then '(' :: (text ++ [')']) else text

mutual

def chars : Ty → List Char
  | named name => name.toList
  | arrayOf t => parenthesize t t.chars ++ ['[', ']']
  | compound c a b rest =>
    parenthesize a a.chars ++ (c.glue :: (parenthesize b b.chars ++ moreChars c rest))
  | t => t.kind.word.toList

/-- The further members, each behind the sign that joins them. -/
def moreChars (c : Combinator) : List Ty → List Char
  | [] => []
  | t :: ts => c.glue :: (parenthesize t t.chars ++ moreChars c ts)

end

def render (t : Ty) : String := String.ofList t.chars

end Ty

end TypeRecovery
