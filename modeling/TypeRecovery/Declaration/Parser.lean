import TypeRecovery.Declaration.Basic
import TypeRecovery.Declaration.Name

/-!
# Parsing declared types

Each step takes as much of the text as it can and says how far it had to look: the furthest place
at which one of the parts of a declaration was expected and not found. That place is reported when
no declaration is found at all. When one is found and text is left behind it, the report is the
first character left.
-/
namespace TypeRecovery.Declaration

/-- The outcome of looking for a part at the front of `cs`. -/
structure Attempt (α : Type) (cs : List Char) where
  furthest : Nat
  found : Option (α × Rest cs)

def combinator? (c : Char) : Option Combinator :=
  if c == '|' then some .union else if c == '&' then some .intersection else none

/-- The pairs of brackets at the front, and what is left. -/
def takeSuffixes : (cs : List Char) → Nat × Tail cs
  | '[' :: ']' :: cs =>
    let r := takeSuffixes cs
    (r.1 + 1, ⟨r.2.1, by have := r.2.2; simp only [List.length_cons]; omega⟩)
  | cs => (0, Tail.all cs)

mutual

/-- Looks for a declaration at position `p`. -/
def parseAt (p : Nat) (cs : List Char) : Attempt Declaration cs :=
  match cs with
  | '?' :: cs =>
    let inner := parseAt (p + 1) cs
    ⟨max p inner.furthest, inner.found.map fun (d, r) =>
      (.nullable d, ⟨r.1, Nat.lt_trans r.2 (Nat.lt_succ_self _)⟩)⟩
  | cs =>
    let left := operandAt p cs
    let furthest := max p left.furthest
    match left.found with
    | none => ⟨furthest, none⟩
    | some (o, r) =>
      let e := p + (cs.length - r.1.length)
      match h : r.1 with
      | [] => ⟨furthest, some (.single o, r)⟩
      | sign :: rest =>
        match combinator? sign with
        | none => ⟨max furthest e, some (.single o, r)⟩
        | some c =>
          let right := parseAt (e + 1) rest
          let furthest := max furthest right.furthest
          match right.found with
          | none => ⟨furthest, some (.single o, r)⟩
          | some (d, r') => ⟨furthest, some (.joined o c d, ⟨r'.1, by
              have h₁ := r.2
              have h₂ := r'.2
              rw [h] at h₁
              simp only [List.length_cons] at h₁
              omega⟩)⟩
  termination_by (cs.length, 2)
  decreasing_by
    · exact Prod.Lex.left _ _ (by simp)
    · exact Prod.Lex.right _ (by omega)
    · have h₁ := r.2
      rw [h] at h₁
      exact Prod.Lex.left _ _ (by simp only [List.length_cons] at h₁; omega)

def operandAt (p : Nat) (cs : List Char) : Attempt Operand cs :=
  let atom := atomAt p cs
  match atom.found with
  | none => ⟨max p atom.furthest, none⟩
  | some (a, r) =>
    let s := takeSuffixes r.1
    let q := p + (cs.length - s.2.1.length)
    let furthest := if s.2.1.isEmpty then atom.furthest else max atom.furthest q
    ⟨if s.1 == 0 then max furthest p else furthest,
      some (.mk a s.1, ⟨s.2.1, Nat.lt_of_le_of_lt s.2.2 r.2⟩)⟩
  termination_by (cs.length, 1)
  decreasing_by exact Prod.Lex.right _ (by omega)

def atomAt (p : Nat) (cs : List Char) : Attempt Atom cs :=
  match cs with
  | '(' :: cs =>
    let inner := parseAt (p + 1) cs
    let furthest := max p inner.furthest
    match inner.found with
    | none => ⟨furthest, none⟩
    | some (d, r) =>
      match h : r.1 with
      | ')' :: rest => ⟨inner.furthest, some (.group d, ⟨rest, by
          have h₁ := r.2
          rw [h] at h₁
          simp only [List.length_cons] at h₁ ⊢
          omega⟩)⟩
      | _ => ⟨furthest, none⟩
  | cs => ⟨p, (takeName? cs).map fun (name, r) => (.name name, r)⟩
  termination_by (cs.length, 0)
  decreasing_by exact Prod.Lex.left _ _ (by simp)

end

/-- The declaration that the text is, or the column of the first character that does not fit. -/
def parse (cs : List Char) : Except Nat Declaration :=
  let whole := parseAt 0 cs
  match whole.found with
  | none => .error (whole.furthest + 1)
  | some (d, r) => if r.1.isEmpty then .ok d else .error (cs.length - r.1.length + 1)

end TypeRecovery.Declaration
