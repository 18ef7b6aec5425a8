/-!
# Class names in declarations

A name is one or more segments with backslashes between them and at most one in front. A segment
starts with a letter or an underscore and goes on with these and digits; every character of the
basic plane beyond ASCII counts as a letter.
-/
namespace TypeRecovery.Declaration

/-- What is left of `cs` after at least one character. -/
abbrev Rest (cs : List Char) := { r : List Char // r.length < cs.length }

/-- What is left of `cs` after any number of characters. -/
abbrev Tail (cs : List Char) := { r : List Char // r.length ≤ cs.length }

def Tail.all (cs : List Char) : Tail cs := ⟨cs, Nat.le_refl _⟩

def isNameStart (c : Char) : Bool :=
  c.isAlpha || c == '_' || (0x7F ≤ c.toNat && c.toNat ≤ 0xFFFF)

def isNameChar (c : Char) : Bool := isNameStart c || c.isDigit

/-- The longest run of name characters, and what is left. -/
def takeNameChars : (cs : List Char) → List Char × Tail cs
  | [] => ([], Tail.all [])
  | c :: cs =>
    if isNameChar c then
      let r := takeNameChars cs
      (c :: r.1, ⟨r.2.1, Nat.le_trans r.2.2 (Nat.le_succ _)⟩)
    else ([], Tail.all (c :: cs))

def takeSegment? : (cs : List Char) → Option (List Char × Rest cs)
  | [] => none
  | c :: cs =>
    if isNameStart c then
      let r := takeNameChars cs
      some (c :: r.1, ⟨r.2.1, Nat.lt_succ_of_le r.2.2⟩)
    else none

/-- Further segments, each behind a backslash. A backslash without a segment is left. -/
def takeSegments (cs : List Char) : List Char × Tail cs :=
  match cs with
  | '\\' :: cs =>
    match takeSegment? cs with
    | none => ([], Tail.all ('\\' :: cs))
    | some (seg, r) =>
      let more := takeSegments r.1
      ('\\' :: (seg ++ more.1), ⟨more.2.1, by
        have := more.2.2
        have := r.2
        simp only [List.length_cons]
        omega⟩)
  | cs => ([], Tail.all cs)
  termination_by cs.length
  decreasing_by
    have := r.2
    simp only [List.length_cons]
    omega

/-- A name without a backslash in front. -/
def takePlainName? (cs : List Char) : Option (List Char × Rest cs) :=
  (takeSegment? cs).map fun (seg, r) =>
    let more := takeSegments r.1
    (seg ++ more.1, ⟨more.2.1, Nat.lt_of_le_of_lt more.2.2 r.2⟩)

def takeName? (cs : List Char) : Option (List Char × Rest cs) :=
  match cs with
  | '\\' :: cs =>
    (takePlainName? cs).map fun (name, r) =>
      ('\\' :: name, ⟨r.1, Nat.lt_trans r.2 (Nat.lt_succ_self _)⟩)
  | cs => takePlainName? cs

end TypeRecovery.Declaration
