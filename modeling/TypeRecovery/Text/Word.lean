import TypeRecovery.Text.Ranges
import TypeRecovery.Text.WordTable

/-!
# Word characters

Letters, numbers and the underscore. A word ends where a word character meets any other character
or the end of the text.
-/
namespace TypeRecovery.Text

def isWordChar (c : Char) : Bool :=
  if c.toNat < 0x80 then c.isAlphanum || c == '_' else inRanges alphanumericRanges c

/-- Whether a word begins or ends between the character `last` and the text `rest` behind it. -/
def wordBoundary (last : Char) (rest : List Char) : Bool :=
  isWordChar last != (rest.head?.map isWordChar).getD false

end TypeRecovery.Text
