import TypeRecovery.Declaration.Reader
import TypeRecovery.Text.IgnoreCase
import TypeRecovery.Text.Word

/-!
# Types in doc comments

A doc comment declares the type of a variable, of a result or of a parameter behind a tag. The first
tag that fits counts. The tag of a parameter is followed by its type and its name; tag and name are
compared without regard to letter case, and the name has to end where a word ends.
-/
namespace TypeRecovery.DocComment

inductive Tag where
  | variable
  | result
  | parameter (name : String)

/-- The word for a tag in messages and files; only the last takes a name. -/
def Tag.ofWord? (word name : String) : Option Tag :=
  match word with
  | "var" => some .variable
  | "return" => some .result
  | "param" => some (.parameter name)
  | _ => none

/-- Takes a word off the front, compared by `same`. -/
def strip? (same : Char → Char → Bool) : (word cs : List Char) → Option (List Char)
  | [], cs => some cs
  | _ :: _, [] => none
  | w :: ws, c :: cs => if same w c then strip? same ws cs else none

/-- Takes blanks, at least one, off the front. -/
def stripBlanks? (cs : List Char) : Option (List Char) :=
  if (cs.takeWhile Text.isBlank).isEmpty then none else some (cs.dropWhile Text.isBlank)

/-- The text up to the next blank, which may not be empty, and what is left. -/
def token? (cs : List Char) : Option (List Char × List Char) :=
  let token := cs.takeWhile fun c => !Text.isBlank c
  if token.isEmpty then none else some (token, cs.dropWhile fun c => !Text.isBlank c)

/-- Whether the name stands at the front and ends a word there; `last` is the character in front of
it. -/
def namesWord (last : Char) : (name cs : List Char) → Bool
  | [], cs => Text.wordBoundary last cs
  | _ :: _, [] => false
  | n :: name, c :: cs => Text.agreesIgnoringCase n c && namesWord c name cs

/-- The type behind a tag at the front of the text. -/
def typeAt? (tag : Tag) (cs : List Char) : Option (List Char) :=
  match tag with
  | .variable => do
    let cs ← strip? (· == ·) "@var".toList cs
    return (← token? (← stripBlanks? cs)).1
  | .result => do
    let cs ← strip? (· == ·) "@return".toList cs
    return (← token? (← stripBlanks? cs)).1
  | .parameter name => do
    let cs ← strip? Text.agreesIgnoringCase "@param".toList cs
    let (type, cs) ← token? (← stripBlanks? cs)
    match ← stripBlanks? cs with
    | '$' :: cs => if namesWord '$' name.toList cs then some type else none
    | _ => none

/-- The type behind the first place where the tag stands. -/
def find? (tag : Tag) : List Char → Option (List Char)
  | [] => none
  | c :: cs => (typeAt? tag (c :: cs)).or (find? tag cs)

/-- The type that a comment declares, or any value where it declares none. -/
def declaredType (tag : Tag) (comment : Option String) : Ty :=
  match find? tag (comment.getD "").toList with
  | some type => Ty.ofTextOrMixed (String.ofList type)
  | none => .mixed

end TypeRecovery.DocComment
