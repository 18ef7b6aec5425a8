import TypeRecovery.Proofs.Grammar
import TypeRecovery.Proofs.LetterCase

/-!
# Letter case of declared types

No sign of the grammar of declarations is a letter, and whether a character belongs to a name does
not depend on its case. So a text is a declaration exactly if its folding is one, and the type that
the folded text declares is the folding of the type that the text declares.
-/
namespace TypeRecovery

namespace Declaration

/-- No sign of the grammar is the folding of a letter. -/
theorem eq_of_sign {c d : Char} (hd : d ∈ "?()[]|&\\".toList) (h : c.toLower = d) : c = d := by
  have hsigns : "?()[]|&\\".toList.all
      (fun d => Text.capitals.all fun c => c.toLower != d) = true := by decide
  exact Text.eq_of_toLower_eq (List.all_eq_true.1 hsigns d hd) h

theorem map_eq_sign_cons {cs ds : List Char} {d : Char} (hd : d ∈ "?()[]|&\\".toList)
    (h : cs.map Char.toLower = d :: ds) : ∃ cs', cs = d :: cs' ∧ cs'.map Char.toLower = ds := by
  obtain ⟨c, cs', rfl, hc, hcs⟩ := List.map_eq_cons_iff.1 h
  exact ⟨cs', by rw [eq_of_sign hd hc], hcs⟩

theorem isSegment_map {cs : List Char} : IsSegment (cs.map Char.toLower) ↔ IsSegment cs := by
  have hstart (c : Char) : isNameStart c.toLower = isNameStart c :=
    Text.apply_toLower (by decide) c
  have hchar (c : Char) : isNameChar c.toLower = isNameChar c := Text.apply_toLower (by decide) c
  cases cs with
  | nil => exact Iff.rfl
  | cons c cs => simp [IsSegment, hstart, hchar]

theorem isPlainName_map {cs : List Char} :
    IsPlainName (cs.map Char.toLower) ↔ IsPlainName cs := by
  constructor
  · intro h
    generalize hds : cs.map Char.toLower = ds at h
    induction h generalizing cs with
    | segment h => exact .segment (isSegment_map.1 (hds ▸ h))
    | cons h _ ih =>
      obtain ⟨seg, back, rfl, hseg, hback⟩ := List.map_eq_append_iff.1 hds
      obtain ⟨rest, rfl, hrest⟩ := map_eq_sign_cons (by decide) hback
      exact .cons (isSegment_map.1 (hseg ▸ h)) (ih hrest)
  · intro h
    induction h with
    | segment h => exact .segment (isSegment_map.2 h)
    | cons h _ ih =>
      rw [List.map_append, List.map_cons]
      exact .cons (isSegment_map.2 h) ih

theorem isName_map {cs : List Char} : IsName (cs.map Char.toLower) ↔ IsName cs := by
  constructor
  · intro h
    generalize hds : cs.map Char.toLower = ds at h
    cases h with
    | plain h => exact .plain (isPlainName_map.1 (hds ▸ h))
    | rooted h =>
      obtain ⟨cs, rfl, hcs⟩ := map_eq_sign_cons (by decide) hds
      exact .rooted (isPlainName_map.1 (hcs ▸ h))
  · intro h
    cases h with
    | plain h => exact .plain (isPlainName_map.2 h)
    | rooted h => exact .rooted (isPlainName_map.2 h)

mutual

/-- The declaration with all its names folded. -/
def folded : Declaration → Declaration
  | nullable d => nullable d.folded
  | single o => single o.folded
  | joined o c d => joined o.folded c d.folded

def Operand.folded : Operand → Operand
  | .mk a n => .mk a.folded n

def Atom.folded : Atom → Atom
  | .group d => .group d.folded
  | .name cs => .name (cs.map Char.toLower)

end

theorem glue_toLower (c : Combinator) : c.glue.toLower = c.glue := by
  cases c <;> decide

theorem brackets_toLower (n : Nat) :
    (List.replicate n ['[', ']']).flatten.map Char.toLower = (List.replicate n ['[', ']']).flatten := by
  rw [List.map_flatten, List.map_replicate]
  rfl

theorem eq_of_map_brackets {n : Nat} {cs : List Char}
    (h : cs.map Char.toLower = (List.replicate n ['[', ']']).flatten) :
    cs = (List.replicate n ['[', ']']).flatten := by
  induction n generalizing cs with
  | zero => exact List.map_eq_nil_iff.1 h
  | succ n ih =>
    obtain ⟨cs₁, rfl, h₁⟩ := map_eq_sign_cons (d := '[') (by decide) h
    obtain ⟨cs₂, rfl, h₂⟩ := map_eq_sign_cons (d := ']') (by decide) h₁
    rw [ih h₂]
    rfl

theorem chars_folded (d : Declaration) : d.folded.chars = d.chars.map Char.toLower := by
  refine Declaration.chars.induct (fun d => d.folded.chars = d.chars.map Char.toLower)
    (fun o => o.folded.chars = o.chars.map Char.toLower)
    (fun a => a.folded.chars = a.chars.map Char.toLower) ?_ ?_ ?_ ?_ ?_ ?_ d
  · intro d ih
    rw [folded, chars, chars, ih]
    rfl
  · intro o ih
    exact ih
  · intro o c d iho ihd
    rw [folded, chars, chars, iho, ihd, List.map_append, List.map_cons, glue_toLower]
  · intro a n ih
    rw [Operand.folded, Operand.chars, Operand.chars, ih, List.map_append, brackets_toLower]
  · intro d ih
    rw [Atom.folded, Atom.chars, Atom.chars, ih, List.map_cons, List.map_append]
    rfl
  · intro cs
    rfl

theorem wellFormed_folded (d : Declaration) : d.folded.WellFormed ↔ d.WellFormed := by
  refine Declaration.chars.induct (fun d => d.folded.WellFormed ↔ d.WellFormed)
    (fun o => o.folded.WellFormed ↔ o.WellFormed) (fun a => a.folded.WellFormed ↔ a.WellFormed)
    ?_ ?_ ?_ ?_ ?_ ?_ d
  · intro d ih
    exact ih
  · intro o ih
    exact ih
  · intro o c d iho ihd
    exact and_congr iho ihd
  · intro a n ih
    exact ih
  · intro d ih
    exact ih
  · intro cs
    exact isName_map

/-- Where a declaration is written by folded characters, the characters before folding write a
declaration too, of which it is the folding. -/
theorem exists_folded {d : Declaration} {cs : List Char} (h : d.chars = cs.map Char.toLower) :
    ∃ d' : Declaration, d'.folded = d ∧ d'.chars = cs := by
  refine Declaration.chars.induct
    (fun d => ∀ cs, d.chars = cs.map Char.toLower →
      ∃ d' : Declaration, d'.folded = d ∧ d'.chars = cs)
    (fun o => ∀ cs, o.chars = cs.map Char.toLower → ∃ o' : Operand, o'.folded = o ∧ o'.chars = cs)
    (fun a => ∀ cs, a.chars = cs.map Char.toLower → ∃ a' : Atom, a'.folded = a ∧ a'.chars = cs)
    ?_ ?_ ?_ ?_ ?_ ?_ d cs h
  · intro d ih cs h
    rw [chars] at h
    obtain ⟨cs, rfl, hcs⟩ := map_eq_sign_cons (by decide) h.symm
    obtain ⟨d', rfl, rfl⟩ := ih cs hcs.symm
    exact ⟨.nullable d', rfl, rfl⟩
  · intro o ih cs h
    obtain ⟨o', rfl, rfl⟩ := ih cs h
    exact ⟨.single o', rfl, rfl⟩
  · intro o c d iho ihd cs h
    rw [chars] at h
    obtain ⟨left, back, rfl, hleft, hback⟩ := List.map_eq_append_iff.1 h.symm
    obtain ⟨right, rfl, hright⟩ := map_eq_sign_cons (by cases c <;> decide) hback
    obtain ⟨o', rfl, rfl⟩ := iho left hleft.symm
    obtain ⟨d', rfl, rfl⟩ := ihd right hright.symm
    exact ⟨.joined o' c d', rfl, rfl⟩
  · intro a n ih cs h
    rw [Operand.chars] at h
    obtain ⟨front, back, rfl, hfront, hback⟩ := List.map_eq_append_iff.1 h.symm
    obtain ⟨a', rfl, rfl⟩ := ih front hfront.symm
    exact ⟨.mk a' n, rfl, congrArg (a'.chars ++ ·) (eq_of_map_brackets hback).symm⟩
  · intro d ih cs h
    rw [Atom.chars] at h
    obtain ⟨cs, rfl, hcs⟩ := map_eq_sign_cons (by decide) h.symm
    obtain ⟨inner, back, rfl, hinner, hback⟩ := List.map_eq_append_iff.1 hcs
    obtain ⟨rest, rfl, hrest⟩ := map_eq_sign_cons (by decide) hback
    obtain ⟨d', rfl, rfl⟩ := ih inner hinner.symm
    exact ⟨.group d', rfl, by rw [List.map_eq_nil_iff.1 hrest]; rfl⟩
  · intro name cs h
    exact ⟨.name cs, congrArg Atom.name h.symm, rfl⟩

/-- A text declares something exactly if its folding does. -/
theorem parse_map (cs : List Char) :
    (parse (cs.map Char.toLower)).toOption = (parse cs).toOption.map folded := by
  cases hp : parse cs with
  | ok d =>
    obtain ⟨hwf, rfl⟩ := parse_eq_ok_iff.1 hp
    rw [← chars_folded, parse_eq_ok_iff.2 ⟨(wellFormed_folded d).2 hwf, rfl⟩]
    rfl
  | error n =>
    cases hp' : parse (cs.map Char.toLower) with
    | error m => rfl
    | ok d =>
      obtain ⟨hwf, hchars⟩ := parse_eq_ok_iff.1 hp'
      obtain ⟨d', rfl, rfl⟩ := exists_folded hchars
      rw [parse_eq_ok_iff.2 ⟨(wellFormed_folded d').1 hwf, rfl⟩] at hp
      cases hp

theorem folded_of_mem_keywords {e : String × Ty} (h : e ∈ keywords) : e.2.folded = e.2 := by
  simp only [keywords, List.mem_cons, List.not_mem_nil, or_false] at h
  rcases h with rfl | rfl | rfl | rfl | rfl | rfl | rfl | rfl | rfl | rfl | rfl | rfl | rfl | rfl |
    rfl | rfl | rfl <;> rfl

theorem meaningOfName_map (cs : List Char) :
    meaningOfName (cs.map Char.toLower) = (meaningOfName cs).folded := by
  have hname : String.ofList ((cs.map Char.toLower).dropWhile (· == '\\')) =
      Text.folded (String.ofList (cs.dropWhile (· == '\\'))) := by
    have hbackslash : (fun c : Char => c == '\\') ∘ Char.toLower = fun c => c == '\\' :=
      funext fun c => Text.apply_toLower (f := fun c => c == '\\') (by decide) c
    rw [List.dropWhile_map, hbackslash, Text.folded, String.toList_ofList]
  unfold meaningOfName
  simp only
  rw [hname, Text.lower_folded]
  cases hk : keywords.lookup (Text.lower (String.ofList (cs.dropWhile (· == '\\')))) with
  | none => rfl
  | some t =>
    obtain ⟨front, back, hsplit, -⟩ := List.lookup_eq_some_iff.1 hk
    have hmem : (_, t) ∈ keywords := hsplit ▸ List.mem_append_right front List.mem_cons_self
    exact (folded_of_mem_keywords hmem).symm

theorem suffixed_folded (t : Ty) (n : Nat) : suffixed t.folded n = (suffixed t n).folded := by
  induction n with
  | zero => rfl
  | succ n ih => rw [suffixed, ih, suffixed, Ty.folded]

theorem meaning_folded (d : Declaration) : d.folded.meaning = d.meaning.folded := by
  refine Declaration.chars.induct (fun d => d.folded.meaning = d.meaning.folded)
    (fun o => o.folded.meaning = o.meaning.folded) (fun a => a.folded.meaning = a.meaning.folded)
    ?_ ?_ ?_ ?_ ?_ ?_ d
  · intro d ih
    rw [folded, meaning, meaning, ih, ← Ty.simplify_folded, Ty.folded_compound]
    rfl
  · intro o ih
    exact ih
  · intro o c d iho ihd
    rw [folded, meaning, meaning, iho, ihd, Ty.folded_compound]
    rfl
  · intro a n ih
    rw [Operand.folded, Operand.meaning, Operand.meaning, ih, suffixed_folded]
  · intro d ih
    exact ih
  · intro cs
    exact meaningOfName_map cs

end Declaration

theorem Text.trim_map (cs : List Char) :
    trim (cs.map Char.toLower) = (trim cs).map Char.toLower := by
  have hdrop (cs : List Char) :
      (cs.map Char.toLower).dropWhile isBlank = (cs.dropWhile isBlank).map Char.toLower := by
    have hblank : isBlank ∘ Char.toLower = isBlank :=
      funext fun c => apply_toLower (by decide) c
    rw [List.dropWhile_map, hblank]
  rw [trim, hdrop, ← List.map_reverse, hdrop, ← List.map_reverse, trim]

/-- The value with its text folded. -/
def Value.folded : Value → Value
  | text s => text (Text.folded s)
  | v => v

@[simp] theorem Value.folded_folded (v : Value) : v.folded.folded = v.folded := by
  cases v <;> simp [folded]

namespace Ty

theorem ofTrimmed_map (cs : List Char) :
    (ofTrimmed (cs.map Char.toLower)).toOption = (ofTrimmed cs).toOption.map folded := by
  have hparse := Declaration.parse_map cs
  unfold ofTrimmed
  cases hp : Declaration.parse cs <;> cases hp' : Declaration.parse (cs.map Char.toLower) <;>
    rw [hp, hp'] at hparse <;> simp only [Except.toOption, Option.map] at hparse ⊢
  · cases hparse
  · cases hparse
  · rw [Option.some.inj hparse, Declaration.meaning_folded, simplify_folded]

theorem declaredOrMixed_text (s : String) :
    declaredOrMixed (.text s) =
      if (Text.trim s.toList).isEmpty then mixed
      else (ofTrimmed (Text.trim s.toList)).toOption.getD mixed := by
  simp only [declaredOrMixed, declared, ofText]
  by_cases hempty : (Text.trim s.toList).isEmpty = true
  · rw [if_pos hempty, if_pos hempty]
  · rw [if_neg hempty, if_neg hempty]
    cases ofTrimmed (Text.trim s.toList) <;> rfl

/-- The type that a folded text declares is the folding of the type that the text declares. -/
theorem declaredOrMixed_folded (v : Value) :
    declaredOrMixed v.folded = (declaredOrMixed v).folded := by
  cases v with
  | text s =>
    rw [Value.folded, declaredOrMixed_text, declaredOrMixed_text, Text.toList_folded,
      Text.trim_map, ofTrimmed_map, List.isEmpty_map]
    split
    · rfl
    · cases (ofTrimmed (Text.trim s.toList)).toOption <;> rfl
  | _ => rfl

theorem ofTextOrMixed_folded (s : String) :
    ofTextOrMixed (Text.folded s) = (ofTextOrMixed s).folded :=
  declaredOrMixed_folded (.text s)

end Ty

end TypeRecovery
