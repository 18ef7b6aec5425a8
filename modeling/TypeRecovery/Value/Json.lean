import TypeRecovery.Number.Reader
import TypeRecovery.Value.Basic

/-!
# Reading values from JSON text

Records keep the order of their fields; a repeated field keeps its first place and its last value.
Besides the standard's literals, `NaN` and the two infinities are read. Recursion is on the
characters that are left: every step returns a rest that is shorter than what it was given.
-/
namespace TypeRecovery.Value.Json

/-- What is left of `cs` after at least one character. -/
abbrev Rest (cs : List Char) := { r : List Char // r.length < cs.length }

/-- What is left of `cs` after any number of characters. -/
abbrev Tail (cs : List Char) := { r : List Char // r.length ≤ cs.length }

theorem lt_cons (c : Char) (cs : List Char) : cs.length < (c :: cs).length := Nat.lt_succ_self _

theorem lt_cons_two (a b : Char) (cs : List Char) : cs.length < (a :: b :: cs).length :=
  Nat.lt_trans (lt_cons b cs) (lt_cons a _)

theorem lt_cons_six (a b c d e f : Char) (cs : List Char) :
    cs.length < (a :: b :: c :: d :: e :: f :: cs).length :=
  Nat.lt_trans (lt_cons_two e f cs) (Nat.lt_trans (lt_cons_two c d _) (lt_cons_two a b _))

/-- What is left of a part is left of the whole. -/
def Rest.of {part cs : List Char} (h : part.length < cs.length) (r : Rest part) : Rest cs :=
  ⟨r.1, Nat.lt_trans r.2 h⟩

def isSpace (c : Char) : Bool := c == ' ' || c == '\t' || c == '\n' || c == '\r'

def skipSpace : (cs : List Char) → Tail cs
  | [] => ⟨[], Nat.le_refl _⟩
  | c :: cs =>
    if isSpace c then ⟨(skipSpace cs).1, Nat.le_trans (skipSpace cs).2 (Nat.le_succ _)⟩
    else ⟨c :: cs, Nat.le_refl _⟩

/-- Takes the given word off the front. -/
def expect? : (word cs : List Char) → Option (Tail cs)
  | [], cs => some ⟨cs, Nat.le_refl _⟩
  | _ :: _, [] => none
  | w :: ws, c :: cs =>
    if w == c then (expect? ws cs).map fun r => ⟨r.1, Nat.le_trans r.2 (Nat.le_succ _)⟩ else none

def hexValue? (c : Char) : Option Nat :=
  if c.isDigit then some (c.toNat - '0'.toNat)
  else if 'a' ≤ c && c ≤ 'f' then some (c.toNat - 'a'.toNat + 10)
  else if 'A' ≤ c && c ≤ 'F' then some (c.toNat - 'A'.toNat + 10)
  else none

def hexValue4? (a b c d : Char) : Option Nat := do
  pure ((((← hexValue? a) * 16 + (← hexValue? b)) * 16 + (← hexValue? c)) * 16 + (← hexValue? d))

def shortEscape? (c : Char) : Option Char :=
  match c with
  | '"' => some '"'
  | '\\' => some '\\'
  | '/' => some '/'
  | 'b' => some '\x08'
  | 'f' => some '\x0c'
  | 'n' => some '\n'
  | 'r' => some '\r'
  | 't' => some '\t'
  | _ => none

/-- The second half of a surrogate pair, if one follows. -/
def lowSurrogate? : (cs : List Char) → Option (Nat × Rest cs)
  | '\\' :: 'u' :: a :: b :: c :: d :: rest =>
    match hexValue4? a b c d with
    | some n =>
      if 0xDC00 ≤ n && n ≤ 0xDFFF then some (n, ⟨rest, lt_cons_six ..⟩)
      else none
    | none => none
  | _ => none

/-- The rest of a text whose opening quote has been read; `done` holds its characters backwards.
Half a surrogate pair stands for no character and is read as the replacement character. -/
def readText? (done : List Char) : (cs : List Char) → Option (String × Rest cs)
  | [] => none
  | '"' :: rest => some (String.ofList done.reverse, ⟨rest, lt_cons ..⟩)
  | '\\' :: 'u' :: a :: b :: c :: d :: rest =>
    match hexValue4? a b c d with
    | none => none
    | some n =>
      if 0xD800 ≤ n && n ≤ 0xDBFF then
        match lowSurrogate? rest with
        | some (m, r) =>
          (readText? (Char.ofNat (0x10000 + (n - 0xD800) * 0x400 + (m - 0xDC00)) :: done) r.1).map
            fun x => (x.1, x.2.of (Nat.lt_trans r.2 (lt_cons_six ..)))
        | none => (readText? ('�' :: done) rest).map
            fun x => (x.1, x.2.of (lt_cons_six ..))
      else
        let c := if 0xDC00 ≤ n && n ≤ 0xDFFF then '�' else Char.ofNat n
        (readText? (c :: done) rest).map
          fun x => (x.1, x.2.of (lt_cons_six ..))
  | '\\' :: c :: rest =>
    match shortEscape? c with
    | none => none
    | some c => (readText? (c :: done) rest).map
        fun x => (x.1, x.2.of (lt_cons_two ..))
  | c :: rest =>
    if c.toNat < 0x20 then none
    else (readText? (c :: done) rest).map
      fun x => (x.1, x.2.of (lt_cons ..))
  termination_by cs => cs.length
  decreasing_by
    · exact Nat.lt_trans r.2 (lt_cons_six ..)
    · exact lt_cons_six ..
    · exact lt_cons_six ..
    · exact lt_cons_two ..
    · exact lt_cons ..

/-- The sign, the whole part, the places and the exponent of a number, and what is left. A fraction
or an exponent that is not complete is left where it stands. -/
structure Numeral where
  negative : Bool
  whole : List Char
  places : List Char
  exponent : Option Int
  rest : List Char

def readPlaces (cs : List Char) : List Char × List Char :=
  match cs with
  | '.' :: r => if (Number.takeDigits r).1.isEmpty then ([], cs) else Number.takeDigits r
  | _ => ([], cs)

def readPower (cs : List Char) : Option Int × List Char :=
  let (mark, body) := cs.span fun c => c == 'e' || c == 'E'
  let (sign, body) := body.span fun c => c == '+' || c == '-'
  let (ds, rest) := Number.takeDigits body
  if mark.length == 1 && sign.length ≤ 1 && !ds.isEmpty then
    (some (if sign == ['-'] then -(Number.digitsValue ds : Int) else Number.digitsValue ds), rest)
  else (none, cs)

/-- A whole part has no leading zero: a zero ends it. -/
def readWhole (cs : List Char) : List Char × List Char :=
  match cs with
  | '0' :: rest => (['0'], rest)
  | _ => Number.takeDigits cs

def readNumeral? (cs : List Char) : Option Numeral :=
  let (negative, body) := match cs with
    | '-' :: r => (true, r)
    | _ => (false, cs)
  let (whole, rest) := readWhole body
  if whole.isEmpty then none
  else
    let (places, rest) := readPlaces rest
    let (power, rest) := readPower rest
    some ⟨negative, whole, places, power, rest⟩

def Numeral.value (n : Numeral) : Value :=
  match n.places, n.exponent with
  | [], none =>
    let m : Int := Number.digitsValue n.whole
    .int (if n.negative then -m else m)
  | places, power => .float (Number.Binary64.ofDecimal n.negative
      (Number.digitsValue (n.whole ++ places)) (power.getD 0 - places.length))

def words : List (List Char × Value) :=
  [("null".toList, .null), ("true".toList, .bool true), ("false".toList, .bool false),
    ("NaN".toList, .float Number.Binary64.nan),
    ("Infinity".toList, .float (Number.Binary64.infinity false)),
    ("-Infinity".toList, .float (Number.Binary64.infinity true))]

/-- One of the literal words, or a number. -/
def readScalar? (cs : List Char) : Option (Value × Rest cs) :=
  let word := words.findSome? fun w =>
    (expect? w.1 cs).bind fun r =>
      if h : r.1.length < cs.length then some (w.2, (⟨r.1, h⟩ : Rest cs)) else none
  match word with
  | some x => some x
  | none => (readNumeral? cs).bind fun n =>
      if h : n.rest.length < cs.length then some (n.value, ⟨n.rest, h⟩) else none

/-- Puts a field into a record, in place of an earlier field of that name if there is one. -/
def putField (name : String) (v : Value) : List (String × Value) → List (String × Value)
  | [] => [(name, v)]
  | (n, w) :: rest => if n == name then (n, v) :: rest else (n, w) :: putField name v rest

mutual

def readValue? (cs : List Char) : Option (Value × Rest cs) :=
  match cs with
  | '"' :: rest => (readText? [] rest).map fun x =>
      (.text x.1, ⟨x.2.1, Nat.lt_trans x.2.2 (Nat.lt_succ_self _)⟩)
  | '[' :: rest =>
    let s := skipSpace rest
    match h : s.1 with
    | ']' :: r => some (.list [], ⟨r, by have := s.2; rw [h] at this; simp at this ⊢; omega⟩)
    | _ => (readItems? [] s.1).map fun x =>
        (x.1, ⟨x.2.1, by have := x.2.2; have := s.2; simp; omega⟩)
  | '\x7b' :: rest =>
    let s := skipSpace rest
    match h : s.1 with
    | '\x7d' :: r => some (.record [], ⟨r, by have := s.2; rw [h] at this; simp at this ⊢; omega⟩)
    | _ => (readFields? [] s.1).map fun x =>
        (x.1, ⟨x.2.1, by have := x.2.2; have := s.2; simp; omega⟩)
  | cs => readScalar? cs
  termination_by (cs.length, 1)
  decreasing_by
    all_goals
      have := (skipSpace rest).2
      exact Prod.Lex.left _ _ (by simp only [List.length_cons]; omega)

/-- The items of a list, from the first character of an item on. -/
def readItems? (done : List Value) (cs : List Char) : Option (Value × Rest cs) :=
  match readValue? cs with
  | none => none
  | some (v, r) =>
    let s := skipSpace r.1
    match h : s.1 with
    | ']' :: rest => some (.list (v :: done).reverse,
        ⟨rest, by have := s.2; have := r.2; rw [h] at *; simp at *; omega⟩)
    | ',' :: rest =>
      (readItems? (v :: done) (skipSpace rest).1).map fun x =>
        (x.1, ⟨x.2.1, by
          have := s.2; have := r.2; have := x.2.2; have := (skipSpace rest).2
          rw [h] at *; simp at *; omega⟩)
    | _ => none
  termination_by (cs.length, 2)
  decreasing_by
    · exact Prod.Lex.right _ (by omega)
    · have := s.2
      have := r.2
      have := (skipSpace rest).2
      rw [h] at *
      exact Prod.Lex.left _ _ (by simp only [List.length_cons] at *; omega)

/-- The fields of a record, from the quote of a name on. -/
def readFields? (done : List (String × Value)) (cs : List Char) : Option (Value × Rest cs) :=
  match cs with
  | '"' :: rest =>
    match readText? [] rest with
    | none => none
    | some (name, r) =>
      let s := skipSpace r.1
      match h : s.1 with
      | ':' :: rest' =>
        let t := skipSpace rest'
        match readValue? t.1 with
        | none => none
        | some (v, r') =>
          let u := skipSpace r'.1
          match h' : u.1 with
          | '\x7d' :: end' => some (.record (putField name v done),
              ⟨end', by
                have := s.2; have := r.2; have := t.2; have := r'.2; have := u.2
                rw [h] at *; rw [h'] at *; simp at *; omega⟩)
          | ',' :: rest'' =>
            (readFields? (putField name v done) (skipSpace rest'').1).map fun x =>
              (x.1, ⟨x.2.1, by
                have := s.2; have := r.2; have := t.2; have := r'.2; have := u.2
                have := x.2.2; have := (skipSpace rest'').2
                rw [h] at *; rw [h'] at *; simp at *; omega⟩)
          | _ => none
      | _ => none
  | _ => none
  termination_by (cs.length, 2)
  decreasing_by
    · have := s.2
      have := r.2
      have := (skipSpace rest').2
      rw [h] at *
      exact Prod.Lex.left _ _ (by simp only [List.length_cons] at *; omega)
    · have := s.2
      have := r.2
      have := t.2
      have := r'.2
      have := u.2
      have := (skipSpace rest'').2
      rw [h] at *
      rw [h'] at *
      exact Prod.Lex.left _ _ (by simp only [List.length_cons] at *; omega)

end

/-- A document is one value with space around it. -/
def read? (s : String) : Option Value :=
  match readValue? (skipSpace s.toList).1 with
  | some (v, r) => if (skipSpace r.1).1.isEmpty then some v else none
  | none => none

end TypeRecovery.Value.Json
