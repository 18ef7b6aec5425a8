import Mathlib.Computability.Language
import TypeRecovery.Proofs.RoundTrip

/-!
# One derivation for each declaration

The context-free grammar of declarations with its derivations as data, and names as a regular
language. The parser commits itself at every choice: it takes the longest name, all brackets and
every combinator that something follows. It loses nothing that way. It accepts a text exactly when
there is a derivation, and then there is only one, from which the declared type is read off.
-/
namespace TypeRecovery

namespace Declaration

open Computability

namespace Name

/-- The texts of one character that satisfies `p`. -/
def char (p : Char → Prop) : Language Char := {cs | ∃ c, p c ∧ cs = [c]}

def Letter (c : Char) : Prop :=
  ('a' ≤ c ∧ c ≤ 'z') ∨ ('A' ≤ c ∧ c ≤ 'Z') ∨ c = '_' ∨ ('\x7f' ≤ c ∧ c ≤ '\uffff')

def Digit (c : Char) : Prop := '0' ≤ c ∧ c ≤ '9'

def backslash : Language Char := char (· = '\\')
def segment : Language Char := char Letter * (char fun c => Letter c ∨ Digit c)∗

/-- A backslash or none, a segment, and any number of segments behind a backslash each. -/
def language : Language Char := (1 + backslash) * (segment * (backslash * segment)∗)

theorem letter_iff {c : Char} : Letter c ↔ isNameStart c = true := by
  have halpha : c.isAlpha = (decide ('A' ≤ c ∧ c ≤ 'Z') || (decide ('a' ≤ c) && decide (c ≤ 'z'))) :=
    rfl
  simp only [Letter, isNameStart, halpha, Char.le_def, UInt32.le_iff_toNat_le, Char.toNat,
    Bool.or_eq_true, Bool.and_eq_true, decide_eq_true_eq, beq_iff_eq]
  tauto

theorem digit_iff {c : Char} : Digit c ↔ c.isDigit = true := by
  simp [Digit, Char.isDigit, Char.le_def]

theorem mem_char {p : Char → Prop} {cs : List Char} : cs ∈ char p ↔ ∃ c, p c ∧ cs = [c] := Iff.rfl

theorem mem_kstar_char {p : Char → Prop} {cs : List Char} : cs ∈ (char p)∗ ↔ ∀ c ∈ cs, p c := by
  rw [Language.mem_kstar]
  constructor
  · rintro ⟨words, rfl, hwords⟩ c hc
    obtain ⟨word, hword, hc⟩ := List.mem_flatten.1 hc
    obtain ⟨d, hd, rfl⟩ := mem_char.1 (hwords word hword)
    rwa [List.mem_singleton.1 hc]
  · intro h
    refine ⟨cs.map fun c => [c], ?_, fun word hword => ?_⟩
    · rw [← List.flatMap_def, List.flatMap_singleton']
    · obtain ⟨c, hc, rfl⟩ := List.mem_map.1 hword
      exact ⟨c, h c hc, rfl⟩

theorem mem_segment {cs : List Char} : cs ∈ segment ↔ IsSegment cs := by
  have hchar : ∀ c, (Letter c ∨ Digit c) ↔ isNameChar c = true := by
    intro c
    rw [letter_iff, digit_iff, isNameChar, Bool.or_eq_true]
  simp only [segment, Language.mem_mul, mem_kstar_char, hchar]
  constructor
  · rintro ⟨_, ⟨c, hc, rfl⟩, cs, hcs, rfl⟩
    exact ⟨letter_iff.1 hc, hcs⟩
  · intro h
    cases cs with
    | nil => exact h.elim
    | cons c cs => exact ⟨[c], ⟨c, letter_iff.2 h.1, rfl⟩, cs, h.2, rfl⟩

theorem mem_backslash_mul {l : Language Char} {cs : List Char} :
    cs ∈ backslash * l ↔ ∃ ds ∈ l, cs = '\\' :: ds := by
  rw [Language.mem_mul]
  constructor
  · rintro ⟨_, ⟨_, rfl, rfl⟩, ds, hds, rfl⟩
    exact ⟨ds, hds, rfl⟩
  · rintro ⟨ds, hds, rfl⟩
    exact ⟨['\\'], ⟨_, rfl, rfl⟩, ds, hds, rfl⟩

theorem isPlainName_append_flatten {seg : List Char} (hseg : IsSegment seg)
    {words : List (List Char)} (hwords : ∀ word ∈ words, word ∈ backslash * segment) :
    IsPlainName (seg ++ words.flatten) := by
  induction words generalizing seg with
  | nil => simpa using IsPlainName.segment hseg
  | cons word words ih =>
    obtain ⟨seg', hseg', rfl⟩ := mem_backslash_mul.1 (hwords word List.mem_cons_self)
    refine .cons hseg (ih (mem_segment.1 hseg') fun w hw => ?_)
    exact hwords w (List.mem_cons_of_mem _ hw)

theorem mem_segments {cs : List Char} :
    cs ∈ segment * (backslash * segment)∗ ↔ IsPlainName cs := by
  rw [Language.mem_mul]
  constructor
  · rintro ⟨seg, hseg, _, hmore, rfl⟩
    obtain ⟨words, rfl, hwords⟩ := Language.mem_kstar.1 hmore
    exact isPlainName_append_flatten (mem_segment.1 hseg) hwords
  · intro h
    induction h with
    | segment h => exact ⟨_, mem_segment.2 h, [], Language.nil_mem_kstar _, List.append_nil _⟩
    | @cons seg _ h _ ih =>
      obtain ⟨seg', hseg', _, hmore, rfl⟩ := ih
      obtain ⟨words, rfl, hwords⟩ := Language.mem_kstar.1 hmore
      refine ⟨seg, mem_segment.2 h, (('\\' :: seg') :: words).flatten, ?_, rfl⟩
      refine Language.join_mem_kstar fun word hword => ?_
      rcases List.mem_cons.1 hword with rfl | hword
      · exact mem_backslash_mul.2 ⟨seg', hseg', rfl⟩
      · exact hwords word hword

theorem mem_language {cs : List Char} : cs ∈ language ↔ IsName cs := by
  rw [language, add_mul, one_mul, Language.mem_add, mem_backslash_mul, mem_segments]
  constructor
  · rintro (h | ⟨ds, hds, rfl⟩)
    · exact .plain h
    · exact .rooted (mem_segments.1 hds)
  · intro h
    cases h with
    | plain h => exact Or.inl h
    | rooted h => exact Or.inr ⟨_, mem_segments.2 h, rfl⟩

end Name

inductive Nonterminal where
  | decl
  | operand
  | atom

/-- The derivations of a text from a nonterminal, one constructor for each production. -/
inductive Derivation : Nonterminal → List Char → Type
  | nullable {cs : List Char} (d : Derivation .decl cs) : Derivation .decl ('?' :: cs)
  | single {cs : List Char} (o : Derivation .operand cs) : Derivation .decl cs
  | joined {cs ds : List Char} (o : Derivation .operand cs) (c : Combinator)
      (d : Derivation .decl ds) : Derivation .decl (cs ++ c.glue :: ds)
  | suffixed {cs : List Char} (a : Derivation .atom cs) (n : Nat) :
      Derivation .operand (cs ++ (List.replicate n ['[', ']']).flatten)
  | group {cs : List Char} (d : Derivation .decl cs) : Derivation .atom ('(' :: (cs ++ [')']))
  | name {cs : List Char} (h : cs ∈ Name.language) : Derivation .atom cs

/-- The type that a derivation gives to its text. -/
def Derivation.meaning {n : Nonterminal} {cs : List Char} : Derivation n cs → Ty
  | nullable d => .compound .union d.meaning .null []
  | single o => o.meaning
  | joined o c d => .compound c o.meaning d.meaning []
  | suffixed a n => Ty.arrayOf^[n] a.meaning
  | group d => d.meaning
  | @name cs _ => meaningOfName cs

mutual

/-- The derivation that a well-formed declaration is the tree of. -/
def derivation : (d : Declaration) → d.WellFormed → Derivation .decl d.chars
  | .nullable d, h => .nullable (d.derivation h)
  | .single o, h => .single (o.derivation h)
  | .joined o c d, h => .joined (o.derivation h.1) c (d.derivation h.2)

def Operand.derivation : (o : Operand) → o.WellFormed → Derivation .operand o.chars
  | .mk a n, h => .suffixed (a.derivation h) n

def Atom.derivation : (a : Atom) → a.WellFormed → Derivation .atom a.chars
  | .group d, h => .group (d.derivation h)
  | .name _, h => .name (Name.mem_language.2 h)

end

/-- The derivation is the one of some well-formed tree. -/
def Derivation.HasTree : {n : Nonterminal} → {cs : List Char} → Derivation n cs → Prop
  | .decl, cs, D => ∃ (d : Declaration) (hwf : d.WellFormed) (hc : d.chars = cs),
      D = hc ▸ d.derivation hwf
  | .operand, cs, D => ∃ (o : Operand) (hwf : o.WellFormed) (hc : o.chars = cs),
      D = hc ▸ o.derivation hwf
  | .atom, cs, D => ∃ (a : Atom) (hwf : a.WellFormed) (hc : a.chars = cs),
      D = hc ▸ a.derivation hwf

theorem Derivation.hasTree {n : Nonterminal} {cs : List Char} (D : Derivation n cs) :
    D.HasTree := by
  induction D with
  | nullable _ ih =>
    obtain ⟨d, hwf, rfl, rfl⟩ := ih
    exact ⟨.nullable d, hwf, rfl, rfl⟩
  | single _ ih =>
    obtain ⟨o, hwf, rfl, rfl⟩ := ih
    exact ⟨.single o, hwf, rfl, rfl⟩
  | joined _ c _ iho ihd =>
    obtain ⟨o, ho, rfl, rfl⟩ := iho
    obtain ⟨d, hd, rfl, rfl⟩ := ihd
    exact ⟨.joined o c d, ⟨ho, hd⟩, rfl, rfl⟩
  | suffixed _ n ih =>
    obtain ⟨a, hwf, rfl, rfl⟩ := ih
    exact ⟨.mk a n, hwf, rfl, rfl⟩
  | group _ ih =>
    obtain ⟨d, hwf, rfl, rfl⟩ := ih
    exact ⟨.group d, hwf, rfl, rfl⟩
  | @name cs h => exact ⟨.name cs, Name.mem_language.1 h, rfl, rfl⟩

theorem suffixed_eq_iterate (t : Ty) (n : Nat) : suffixed t n = Ty.arrayOf^[n] t := by
  induction n with
  | zero => rfl
  | succ n ih => rw [suffixed, ih, Function.iterate_succ_apply']

theorem simplify_iterate_arrayOf (t : Ty) (n : Nat) :
    (Ty.arrayOf^[n] t).simplify = Ty.arrayOf^[n] t.simplify := by
  induction n with
  | zero => rfl
  | succ n ih => rw [Function.iterate_succ_apply', Ty.simplify, ih, Function.iterate_succ_apply']

/-- Simplifying what is nullable before the rest makes no difference to the simplified meaning. -/
theorem simplify_meaning_derivation {d : Declaration} (h : d.WellFormed) :
    (d.derivation h).meaning.simplify = d.meaning.simplify := by
  have pair {c : Combinator} {a a' b b' : Ty} (ha : a.simplify = a'.simplify)
      (hb : b.simplify = b'.simplify) :
      (Ty.compound c a b []).simplify = (Ty.compound c a' b' []).simplify := by
    simp only [Ty.simplify_compound, List.flatMap_cons, List.flatMap_nil, ha, hb]
  refine meaning.induct
    (fun d => ∀ h : d.WellFormed, (d.derivation h).meaning.simplify = d.meaning.simplify)
    (fun o => ∀ h : o.WellFormed, (o.derivation h).meaning.simplify = o.meaning.simplify)
    (fun a => ∀ h : a.WellFormed, (a.derivation h).meaning.simplify = a.meaning.simplify)
    ?_ ?_ ?_ ?_ ?_ ?_ d h
  · intro d ih h
    rw [meaning, Ty.simplify_simplify]
    exact pair (ih h) rfl
  · intro o ih h
    exact ih h
  · intro o c d iho ihd h
    exact pair (iho h.1) (ihd h.2)
  · intro a n ih h
    rw [Operand.meaning, suffixed_eq_iterate, simplify_iterate_arrayOf, ← ih h]
    exact simplify_iterate_arrayOf _ n
  · intro d ih h
    exact ih h
  · intro cs h
    rfl

theorem Derivation.eq {cs : List Char} (D D' : Derivation .decl cs) : D = D' := by
  obtain ⟨d, hwf, hc, rfl⟩ := D.hasTree
  obtain ⟨d', hwf', hc', rfl⟩ := D'.hasTree
  -- the parser cannot read one text as two trees
  have hparse := (parse_eq_ok_iff.2 ⟨hwf, hc⟩).symm.trans (parse_eq_ok_iff.2 ⟨hwf', hc'⟩)
  obtain rfl := Except.ok.inj hparse
  rfl

end Declaration

namespace Ty

open Declaration

theorem ofTrimmed_derivation {cs : List Char} (D : Derivation .decl cs) :
    ofTrimmed cs = .ok D.meaning.simplify := by
  obtain ⟨d, hwf, rfl, rfl⟩ := D.hasTree
  exact ofTrimmed_eq_ok_iff.2 ⟨d, hwf, rfl, (simplify_meaning_derivation hwf).symm⟩

end Ty

end TypeRecovery
