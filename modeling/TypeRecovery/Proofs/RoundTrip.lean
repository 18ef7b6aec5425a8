import TypeRecovery.Proofs.Declared
import TypeRecovery.Proofs.Grammar

/-!
# Types and the declarations that spell them out

Every flat type without anything unknown is spelled out by a declaration with the text of the type,
as long as its class names are names of the grammar and no keywords. The types that declarations
mean are of this sort, so their texts are read back to them, unless blanks at the ends of a text are
part of a class name there.
-/
namespace TypeRecovery

/-- Every class name inside of the type satisfies `P`. -/
def Ty.Names (P : String → Prop) (t : Ty) : Prop :=
  t.Everywhere fun u => ∀ name, u = named name → P name

namespace Ty

variable {P : String → Prop}

@[simp]
theorem names_named {name : String} : (named name).Names P ↔ P name := by
  simp [Names, Everywhere]

@[simp]
theorem names_arrayOf {t : Ty} : (arrayOf t).Names P ↔ t.Names P := by
  rw [Names, everywhere_arrayOf]
  exact and_iff_right (by simp)

theorem names_compound {c : Combinator} {a b : Ty} {rest : List Ty} :
    (compound c a b rest).Names P ↔ ∀ m ∈ a :: b :: rest, m.Names P := by
  rw [Names, everywhere_compound]
  exact and_iff_right (by simp)

theorem names_join {c : Combinator} {ts : List Ty} (h : ∀ m ∈ ts, m.Names P) :
    (join c ts).Names P := by
  match ts with
  | [] => simp [join, Names, Everywhere]
  | [t] => exact h t List.mem_cons_self
  | a :: b :: rest => exact names_compound.2 h

theorem names_simplify {t : Ty} (h : t.Names P) : t.simplify.Names P := by
  induction t using members_induction with
  | leaf t hm he => rwa [simplify_leaf hm he]
  | arrayOf t ih => exact names_arrayOf.2 (ih (names_arrayOf.1 h))
  | compound c a b rest ih =>
    rw [simplify_compound]
    refine names_join fun m hm => ?_
    obtain ⟨t, ht, hmt⟩ := List.mem_flatMap.1 hm
    exact Everywhere.of_mem_parts (ih t ht (names_compound.1 h t ht)) hmt

end Ty

namespace Declaration

/-- A class name that a declaration can spell out. -/
structure Spellable (name : String) : Prop where
  plain : IsPlainName name.toList
  keyword : keywords.lookup (Text.lower name) = none

theorem names_of_mem_keywords {P : String → Prop} {e : String × Ty} (h : e ∈ keywords) :
    e.2.Names P := by
  simp only [keywords, List.mem_cons, List.not_mem_nil, or_false] at h
  rcases h with rfl | rfl | rfl | rfl | rfl | rfl | rfl | rfl | rfl | rfl | rfl | rfl | rfl | rfl |
    rfl | rfl | rfl <;>
  simp [Ty.Names, Ty.Everywhere, Ty.EverywhereAll, Ty.numeric, Ty.mixed]

theorem dropWhile_of_isPlainName {cs : List Char} (h : IsPlainName cs) :
    cs.dropWhile (· == '\\') = cs := by
  obtain ⟨c, cs, rfl, hc⟩ := exists_of_isPlainName h
  have hne : (c == '\\') = false := by
    rw [beq_eq_false_iff_ne]
    rintro rfl
    exact absurd hc (by decide)
  simp [hne]

theorem isPlainName_dropWhile {cs : List Char} (h : IsName cs) :
    IsPlainName (cs.dropWhile (· == '\\')) := by
  cases h with
  | plain h => rwa [dropWhile_of_isPlainName h]
  | rooted h => simpa [dropWhile_of_isPlainName h] using h

theorem names_meaningOfName {cs : List Char} (h : IsName cs) :
    (meaningOfName cs).Names Spellable := by
  unfold meaningOfName
  simp only
  cases hk : keywords.lookup (Text.lower (String.ofList (cs.dropWhile (· == '\\')))) with
  | none =>
    refine Ty.names_named.2 ⟨?_, hk⟩
    rw [String.toList_ofList]
    exact isPlainName_dropWhile h
  | some t =>
    obtain ⟨front, back, heq, -⟩ := List.lookup_eq_some_iff.1 hk
    have hmem : (_, t) ∈ keywords := heq ▸ List.mem_append_right front List.mem_cons_self
    exact names_of_mem_keywords hmem

theorem names_suffixed {P : String → Prop} {t : Ty} (h : t.Names P) (n : Nat) :
    (suffixed t n).Names P := by
  induction n with
  | zero => exact h
  | succ n ih => exact Ty.names_arrayOf.2 ih

theorem names_meaning {d : Declaration} (h : d.WellFormed) : d.meaning.Names Spellable := by
  have pair {c : Combinator} {a b : Ty} (ha : a.Names Spellable) (hb : b.Names Spellable) :
      (Ty.compound c a b []).Names Spellable := by
    refine Ty.names_compound.2 fun m hm => ?_
    simp only [List.mem_cons, List.not_mem_nil, or_false] at hm
    rcases hm with rfl | rfl
    · exact ha
    · exact hb
  refine meaning.induct (fun d => d.WellFormed → d.meaning.Names Spellable)
    (fun o => o.WellFormed → o.meaning.Names Spellable)
    (fun a => a.WellFormed → a.meaning.Names Spellable) ?_ ?_ ?_ ?_ ?_ ?_ d h
  · intro d ih h
    exact Ty.names_simplify (pair (ih h) (by simp [Ty.Names, Ty.Everywhere]))
  · intro o ih h
    exact ih h
  · intro o c d iho ihd h
    exact pair (iho h.1) (ihd h.2)
  · intro a n ih h
    exact names_suffixed (ih h) n
  · intro d ih h
    exact ih h
  · intro cs h
    exact names_meaningOfName h

/-- One more pair of brackets. -/
def Operand.suffix : Operand → Operand
  | .mk a n => .mk a (n + 1)

/-- Operands joined by one combinator. -/
def chain (c : Combinator) (o : Operand) : List Operand → Declaration
  | [] => .single o
  | o' :: os => .joined o c (chain c o' os)

mutual

/-- The operand that spells out a type. -/
def Operand.ofTy : Ty → Operand
  | .named name => .mk (.name name.toList) 0
  | .arrayOf t => (Operand.ofTy t).suffix
  | .compound c a b rest =>
    .mk (.group (chain c (Operand.ofTy a) (Operand.ofTy b :: operandsOf rest))) 0
  | t => .mk (.name t.kind.word.toList) 0

def operandsOf : List Ty → List Operand
  | [] => []
  | t :: ts => Operand.ofTy t :: operandsOf ts

end

/-- The declaration that spells out a type: a compound needs no parentheses around it. -/
def ofTy : Ty → Declaration
  | .compound c a b rest => chain c (Operand.ofTy a) (Operand.ofTy b :: operandsOf rest)
  | t => .single (Operand.ofTy t)

theorem operandsOf_eq_map (ts : List Ty) : operandsOf ts = ts.map Operand.ofTy := by
  induction ts with
  | nil => rfl
  | cons t ts ih => rw [operandsOf, ih, List.map_cons]

theorem chars_suffix (o : Operand) : o.suffix.chars = o.chars ++ ['[', ']'] := by
  obtain ⟨a, n⟩ := o
  simp [Operand.suffix, Operand.chars, List.replicate_succ']

theorem chars_chain (c : Combinator) (o : Operand) (os : List Operand) :
    (chain c o os).chars = o.chars ++ os.flatMap fun o => c.glue :: o.chars := by
  induction os generalizing o with
  | nil => simp [chain, chars]
  | cons o' os ih => simp [chain, chars, ih]

theorem moreChars_eq (c : Combinator) (ts : List Ty) :
    Ty.moreChars c ts = ts.flatMap fun t => c.glue :: Ty.parenthesize t t.chars := by
  induction ts with
  | nil => rfl
  | cons t ts ih => simp [Ty.moreChars, ih]

theorem chars_chain_ofTy {c : Combinator} {a b : Ty} {rest : List Ty}
    (h : ∀ t ∈ a :: b :: rest, (Operand.ofTy t).chars = Ty.parenthesize t t.chars) :
    (chain c (Operand.ofTy a) (Operand.ofTy b :: operandsOf rest)).chars =
      (Ty.compound c a b rest).chars := by
  have hrest : rest.flatMap (fun t => c.glue :: (Operand.ofTy t).chars) = Ty.moreChars c rest := by
    rw [moreChars_eq]
    refine List.flatMap_congr fun t ht => ?_
    rw [h t (by simp [ht])]
  rw [chars_chain, operandsOf_eq_map, List.flatMap_cons, List.flatMap_map, hrest, h a (by simp),
    h b (by simp)]
  rfl

theorem ofTy_of_leaf {t : Ty} (hm : t.members = []) (he : t.elementType? = none) :
    Operand.ofTy t = .mk (.name t.chars) 0 := by
  cases t with
  | arrayOf t => simp [Ty.elementType?] at he
  | compound c a b rest => simp [Ty.members] at hm
  | _ => rfl

theorem chars_operandOfTy (t : Ty) : (Operand.ofTy t).chars = Ty.parenthesize t t.chars := by
  induction t using Ty.members_induction with
  | leaf t hm he =>
    have hc : t.isCompound = false := by
      cases t with
      | compound c a b rest => simp [Ty.members] at hm
      | _ => rfl
    simp [ofTy_of_leaf hm he, Operand.chars, Atom.chars, Ty.parenthesize, hc]
  | arrayOf t ih =>
    rw [Operand.ofTy, chars_suffix, ih]
    rfl
  | compound c a b rest ih =>
    have hc : (Ty.compound c a b rest).isCompound = true := Ty.isCompound_compound c a b rest
    simp [Operand.ofTy, Operand.chars, Atom.chars, chars_chain_ofTy ih, Ty.parenthesize, hc]

theorem chars_ofTy (t : Ty) : (ofTy t).chars = t.chars := by
  cases t with
  | compound c a b rest => exact chars_chain_ofTy fun t _ => chars_operandOfTy t
  | _ => exact chars_operandOfTy _

theorem wellFormed_suffix {o : Operand} (h : o.WellFormed) : o.suffix.WellFormed := by
  obtain ⟨a, n⟩ := o
  exact h

theorem wellFormed_chain {c : Combinator} {o : Operand} {os : List Operand}
    (h : ∀ o' ∈ o :: os, o'.WellFormed) : (chain c o os).WellFormed := by
  induction os generalizing o with
  | nil => exact h o List.mem_cons_self
  | cons o' os ih =>
    exact ⟨h o List.mem_cons_self, ih fun x hx => h x (List.mem_cons_of_mem o hx)⟩

theorem wellFormed_operandOfTy {t : Ty} (h : t.Names Spellable) : (Operand.ofTy t).WellFormed := by
  induction t using Ty.members_induction with
  | leaf t hm he =>
    rw [ofTy_of_leaf hm he]
    cases t with
    | named name => exact IsName.plain (Ty.names_named.1 h).plain
    | arrayOf t => simp [Ty.elementType?] at he
    | compound c a b rest => simp [Ty.members] at hm
    | _ => exact IsName.plain (.segment (by decide))
  | arrayOf t ih => exact wellFormed_suffix (ih (Ty.names_arrayOf.1 h))
  | compound c a b rest ih =>
    refine wellFormed_chain fun o ho => ?_
    rw [operandsOf_eq_map, ← List.map_cons, ← List.map_cons] at ho
    obtain ⟨t, ht, rfl⟩ := List.mem_map.1 ho
    exact ih t ht (Ty.names_compound.1 h t ht)

theorem meaning_suffix (o : Operand) : o.suffix.meaning = .arrayOf o.meaning := by
  obtain ⟨a, n⟩ := o
  rfl

theorem meaningOfName_spellable {name : String} (h : Spellable name) :
    meaningOfName name.toList = .named name := by
  simp [meaningOfName, dropWhile_of_isPlainName h.plain, h.keyword]

theorem parts_simplify_chain (c : Combinator) (o : Operand) (os : List Operand) :
    (chain c o os).meaning.simplify.parts c =
      (o :: os).flatMap fun o => o.meaning.simplify.parts c := by
  induction os generalizing o with
  | nil => simp [chain, meaning]
  | cons o' os ih =>
    rw [chain, meaning, Ty.parts_simplify_compound]
    simp [ih]

theorem simplify_operandOfTy {t : Ty} (hf : t.Flat) (hk : t.Known) (hn : t.Names Spellable) :
    (Operand.ofTy t).meaning.simplify = t := by
  induction t using Ty.members_induction with
  | leaf t hm he =>
    have hmeaning : (Operand.ofTy t).meaning = t := by
      rw [ofTy_of_leaf hm he, Operand.meaning, suffixed, Atom.meaning]
      cases t with
      | named name => exact meaningOfName_spellable (Ty.names_named.1 hn)
      | unknown => exact absurd rfl hk.self
      | arrayOf t => simp [Ty.elementType?] at he
      | compound c a b rest => simp [Ty.members] at hm
      | _ => rfl
    rw [hmeaning, Ty.simplify_leaf hm he]
  | arrayOf t ih =>
    rw [Operand.ofTy, meaning_suffix, Ty.simplify,
      ih (Ty.flat_arrayOf.1 hf) (Ty.known_arrayOf.1 hk) (Ty.names_arrayOf.1 hn)]
  | compound c a b rest ih =>
    have hparts : ∀ m ∈ a :: b :: rest, (Operand.ofTy m).meaning.simplify.parts c = [m] := by
      intro m hm
      obtain ⟨hfm, hkm⟩ := Ty.flat_compound.1 hf m hm
      rw [ih m hm hfm (Ty.known_compound.1 hk m hm) (Ty.names_compound.1 hn m hm),
        Ty.parts_of_kind_ne hkm]
    have hchain := parts_simplify_chain c (Operand.ofTy a) (Operand.ofTy b :: operandsOf rest)
    rw [operandsOf_eq_map, ← List.map_cons, ← List.map_cons, List.flatMap_map,
      List.flatMap_congr hparts, List.flatMap_singleton'] at hchain
    rw [Operand.ofTy, operandsOf_eq_map]
    calc (chain c (Operand.ofTy a) ((b :: rest).map Operand.ofTy)).meaning.simplify
        = Ty.join c ((chain c (Operand.ofTy a)
            ((b :: rest).map Operand.ofTy)).meaning.simplify.parts c) := (Ty.join_parts c _).symm
      _ = Ty.join c (a :: b :: rest) := by rw [hchain]
      _ = Ty.compound c a b rest := rfl

theorem ofTrimmed_chars {t : Ty} (hf : t.Flat) (hk : t.Known) (hn : t.Names Spellable) :
    Ty.ofTrimmed t.chars = .ok t := by
  have hwf : (ofTy t).WellFormed := by
    have := wellFormed_operandOfTy hn
    cases t <;> exact this
  have hmeaning : (ofTy t).meaning.simplify = t := by
    have := simplify_operandOfTy hf hk hn
    cases t <;> exact this
  rw [Ty.ofTrimmed, parse_eq_ok_iff.2 ⟨hwf, chars_ofTy t⟩]
  exact congrArg Except.ok hmeaning

theorem ofTrimmed_eq_ok_iff {cs : List Char} {t : Ty} :
    Ty.ofTrimmed cs = .ok t ↔
      ∃ d : Declaration, d.WellFormed ∧ d.chars = cs ∧ d.meaning.simplify = t := by
  unfold Ty.ofTrimmed
  constructor
  · intro h
    split at h
    · rename_i d hd
      obtain ⟨hwf, hchars⟩ := parse_eq_ok_iff.1 hd
      exact ⟨d, hwf, hchars, Except.ok.inj h⟩
    · cases h
  · rintro ⟨d, hwf, hchars, rfl⟩
    rw [parse_eq_ok_iff.2 ⟨hwf, hchars⟩]

end Declaration

namespace Text

theorem countP_dropWhile_lt {p : Char → Bool} {cs : List Char} (h : cs.dropWhile p ≠ cs) :
    (cs.dropWhile p).countP p < cs.countP p := by
  cases cs with
  | nil => exact absurd rfl h
  | cons c cs =>
    by_cases hc : p c = true
    · rw [List.dropWhile_cons_of_pos hc, List.countP_cons_of_pos hc]
      exact Nat.lt_succ_of_le ((List.dropWhile_sublist p).countP_le)
    · exact absurd (List.dropWhile_cons_of_neg hc) h

/-- What is dropped at the ends are blanks. -/
theorem countP_trim_lt {cs : List Char} (h : trim cs ≠ cs) :
    (trim cs).countP isBlank < cs.countP isBlank := by
  rw [trim, List.countP_reverse]
  by_cases hback : (cs.dropWhile isBlank).reverse.dropWhile isBlank = (cs.dropWhile isBlank).reverse
  · have hfront : cs.dropWhile isBlank ≠ cs := by
      intro hfront
      rw [trim, hback, List.reverse_reverse] at h
      exact h hfront
    rw [hback, List.countP_reverse]
    exact countP_dropWhile_lt hfront
  · calc ((cs.dropWhile isBlank).reverse.dropWhile isBlank).countP isBlank
        < (cs.dropWhile isBlank).reverse.countP isBlank := countP_dropWhile_lt hback
      _ = (cs.dropWhile isBlank).countP isBlank := List.countP_reverse
      _ ≤ cs.countP isBlank := (List.dropWhile_sublist isBlank).countP_le

theorem trim_eq_self {cs : List Char} (h : cs.filter isBlank = []) : trim cs = cs := by
  by_contra hne
  have hlt := countP_trim_lt hne
  rw [cs.countP_eq_length_filter, h] at hlt
  exact Nat.not_lt_zero _ hlt

end Text

namespace Ty

/-- The blanks in the text of a type. They are all part of class names. -/
def blanks (t : Ty) : List Char := t.chars.filter Text.isBlank

theorem filter_parenthesize (t : Ty) (cs : List Char) :
    (parenthesize t cs).filter Text.isBlank = cs.filter Text.isBlank := by
  have hopen : Text.isBlank '(' = false := by decide
  have hclose : Text.isBlank ')' = false := by decide
  rw [parenthesize]
  split <;> simp [hopen, hclose]

theorem blanks_arrayOf (t : Ty) : (arrayOf t).blanks = t.blanks := by
  have hsuffix : ['[', ']'].filter Text.isBlank = [] := by decide
  rw [blanks, chars, List.filter_append, filter_parenthesize, hsuffix, List.append_nil]
  rfl

theorem filter_moreChars (c : Combinator) (ts : List Ty) :
    (moreChars c ts).filter Text.isBlank = ts.flatMap blanks := by
  have hglue : Text.isBlank c.glue = false := by cases c <;> decide
  induction ts with
  | nil => rfl
  | cons t ts ih => simp [moreChars, hglue, filter_parenthesize, ih, blanks]

theorem blanks_compound (c : Combinator) (a b : Ty) (rest : List Ty) :
    (compound c a b rest).blanks = (a :: b :: rest).flatMap blanks := by
  have hglue : Text.isBlank c.glue = false := by cases c <;> decide
  simp [blanks, chars, hglue, filter_parenthesize, filter_moreChars]

theorem blanks_join {c : Combinator} {ts : List Ty} (h : ts ≠ []) :
    (join c ts).blanks = ts.flatMap blanks := by
  match ts with
  | [] => exact absurd rfl h
  | [t] => simp [join]
  | a :: b :: rest => exact blanks_compound c a b rest

theorem flatMap_blanks_parts (c : Combinator) (t : Ty) :
    (t.parts c).flatMap blanks = t.blanks := by
  rw [← blanks_join (parts_ne_nil c t), join_parts]

theorem blanks_simplify (t : Ty) : t.simplify.blanks = t.blanks := by
  induction t using members_induction with
  | leaf t hm he => rw [simplify_leaf hm he]
  | arrayOf t ih => rw [simplify, blanks_arrayOf, blanks_arrayOf, ih]
  | compound c a b rest ih =>
    rw [simplify_compound, blanks_join (by simp [parts_ne_nil]), List.flatMap_assoc,
      blanks_compound]
    refine List.flatMap_congr fun m hm => ?_
    rw [flatMap_blanks_parts, ih m hm]

end Ty

namespace Declaration

theorem blanks_meaningOfName (cs : List Char) :
    (meaningOfName cs).blanks.Sublist (cs.filter Text.isBlank) := by
  unfold meaningOfName
  simp only
  cases hk : keywords.lookup (Text.lower (String.ofList (cs.dropWhile (· == '\\')))) with
  | none =>
    simp only [Option.getD_none, Ty.blanks, Ty.chars, String.toList_ofList]
    exact (List.dropWhile_sublist _).filter _
  | some t =>
    obtain ⟨front, back, heq, -⟩ := List.lookup_eq_some_iff.1 hk
    have hmem : (_, t) ∈ keywords := heq ▸ List.mem_append_right front List.mem_cons_self
    have hnil : ∀ e ∈ keywords, e.2.blanks = [] := by decide
    rw [Option.getD_some, hnil _ hmem]
    exact List.nil_sublist _

theorem blanks_suffixed (t : Ty) (n : Nat) : (suffixed t n).blanks = t.blanks := by
  induction n with
  | zero => rfl
  | succ n ih => rw [suffixed, Ty.blanks_arrayOf, ih]

/-- Every blank of a type is a blank of the declaration that means it. -/
theorem blanks_meaning (d : Declaration) :
    d.meaning.blanks.Sublist (d.chars.filter Text.isBlank) := by
  refine meaning.induct (fun d => d.meaning.blanks.Sublist (d.chars.filter Text.isBlank))
    (fun o => o.meaning.blanks.Sublist (o.chars.filter Text.isBlank))
    (fun a => a.meaning.blanks.Sublist (a.chars.filter Text.isBlank)) ?_ ?_ ?_ ?_ ?_ ?_ d
  · intro d ih
    have hnull : Ty.null.blanks = [] := by decide
    rw [meaning, Ty.blanks_simplify, Ty.blanks_compound, chars,
      List.filter_cons_of_neg (by decide)]
    simpa [hnull] using ih
  · intro o ih
    exact ih
  · intro o c d iho ihd
    rw [meaning, Ty.blanks_compound, chars, List.filter_append,
      List.filter_cons_of_neg (by cases c <;> decide)]
    simpa using iho.append ihd
  · intro a n ih
    rw [Operand.meaning, blanks_suffixed, Operand.chars, List.filter_append]
    exact ih.trans (List.sublist_append_left _ _)
  · intro d ih
    rw [Atom.meaning, Atom.chars, List.filter_cons_of_neg (by decide), List.filter_append]
    exact ih.trans (List.sublist_append_left _ _)
  · intro cs
    exact blanks_meaningOfName cs

end Declaration

namespace Ty

theorem ofText_eq_ok_iff {s : String} {t : Ty} :
    ofText s = .ok t ↔ ofTrimmed (Text.trim s.toList) = .ok t := by
  have hnil : ∀ t, ofTrimmed [] ≠ .ok t := by
    intro t h
    have : ofTrimmed [] = .error (.unexpected 1) := by cbv
    simp [this] at h
  simp only [ofText]
  split
  · rename_i he
    simp [List.isEmpty_iff.1 he, hnil]
  · split <;> simp_all

/-- A type is read back from its own text when the text has no blanks at its ends. -/
theorem ofText_render_of_trim {t : Ty} (h : ofTrimmed t.chars = .ok t)
    (htrim : Text.trim t.chars = t.chars) : ofText t.render = .ok t := by
  rw [ofText_eq_ok_iff, render, String.toList_ofList, htrim]
  exact h

theorem ofTextOrMixed_of_spellable {name : String} (h : Declaration.Spellable name)
    (htrim : Text.trim name.toList = name.toList) : ofTextOrMixed name = .named name := by
  have hclean : (named name).Clean := clean_of_leaf rfl rfl (by simp)
  have hread : ofText name = .ok (named name) := by
    rw [ofText_eq_ok_iff, htrim]
    exact Declaration.ofTrimmed_chars hclean.flat hclean.known (names_named.2 h)
  rw [ofTextOrMixed, declaredOrMixed, declared, hread]

theorem blanks_of_ofTrimmed {cs : List Char} {t : Ty} (h : ofTrimmed cs = .ok t) :
    t.blanks.Sublist (cs.filter Text.isBlank) := by
  obtain ⟨d, -, rfl, rfl⟩ := Declaration.ofTrimmed_eq_ok_iff.1 h
  rw [blanks_simplify]
  exact Declaration.blanks_meaning d

theorem blanks_eq_nil {t : Ty} (h : t.Names fun name => ∀ c ∈ name.toList, Text.isBlank c = false) :
    t.blanks = [] := by
  induction t using members_induction with
  | leaf t hm he =>
    cases t with
    | named name => simpa [blanks, chars] using names_named.1 h
    | arrayOf t => simp [elementType?] at he
    | compound c a b rest => simp [members] at hm
    | _ => decide
  | arrayOf t ih => rw [blanks_arrayOf, ih (names_arrayOf.1 h)]
  | compound c a b rest ih =>
    rw [blanks_compound, List.flatMap_eq_nil_iff]
    exact fun m hm => ih m hm (names_compound.1 h m hm)

/-- Rendering a flat type and reading the text gives the type again, with the order, the nesting, the
repetitions and the spelling of its members, when its class names can be spelled without blanks. -/
theorem ofText_render {t : Ty} (hflat : t.simplify = t) (hknown : t.Known)
    (hnames : t.Names fun name => Declaration.IsPlainName name.toList ∧
      Declaration.keywords.lookup (Text.lower name) = none ∧
      ∀ c ∈ name.toList, Text.isBlank c = false) :
    ofText t.render = .ok t := by
  have hspell : t.Names Declaration.Spellable :=
    hnames.mono fun u h name hu => ⟨(h name hu).1, (h name hu).2.1⟩
  have hblank : t.Names fun name => ∀ c ∈ name.toList, Text.isBlank c = false :=
    hnames.mono fun u h name hu => (h name hu).2.2
  refine ofText_render_of_trim ?_ (Text.trim_eq_self (blanks_eq_nil hblank))
  exact Declaration.ofTrimmed_chars (simplify_eq_self_iff.1 hflat) hknown hspell

/-- A union that repeats a member, with an array of an intersection inside. -/
def repeating : Ty :=
  .compound .union (.named "Foo") (.arrayOf (.compound .intersection (.named "A\\B") .callable []))
    [.int, .named "Foo"]

theorem ofText_render_repeating :
    repeating.render = "Foo|(A\\B&callable)[]|int|Foo" ∧
      ofText repeating.render = .ok repeating := by
  refine ⟨by decide, ofText_render rfl ?_ ?_⟩
  · simp [repeating, Known, Everywhere, EverywhereAll]
  · have hblank {name : String} (h : name.toList.all (!Text.isBlank ·) = true) :
        ∀ c ∈ name.toList, Text.isBlank c = false := by simpa using h
    have hfoo : Declaration.IsPlainName "Foo".toList := .segment (by decide)
    have hab : Declaration.IsPlainName (['A'] ++ '\\' :: ['B']) :=
      .cons (by decide) (.segment (by decide))
    simp only [repeating, names_compound, List.forall_mem_cons, names_arrayOf, names_named]
    exact ⟨⟨hfoo, by decide, hblank (by decide)⟩,
      ⟨⟨hab, by decide, hblank (by decide)⟩, by simp [Names, Everywhere], by simp⟩,
      by simp [Names, Everywhere], ⟨hfoo, by decide, hblank (by decide)⟩, by simp⟩

/-- A type that was read from a text is read again from its own text without the dropping of blanks,
so from the text as it stands exactly when no blanks are dropped there. -/
theorem ofText_render_iff {s : String} {t : Ty} (h : ofText s = .ok t) :
    ofTrimmed t.chars = .ok t ∧
      (ofText t.render = .ok t ↔ Text.trim t.chars = t.chars) ∧
      ((∀ c ∈ Text.trim s.toList, Text.isBlank c = false) → ofText t.render = .ok t) := by
  rw [ofText_eq_ok_iff] at h
  have hback : ofTrimmed t.chars = .ok t := by
    obtain ⟨d, hwf, -, rfl⟩ := Declaration.ofTrimmed_eq_ok_iff.1 h
    exact Declaration.ofTrimmed_chars (flat_simplify _) (known_simplify d.known_meaning)
      (names_simplify (Declaration.names_meaning hwf))
  refine ⟨hback, ⟨fun hr => ?_, ofText_render_of_trim hback⟩, fun hblank => ?_⟩
  · -- trimming drops blanks of the type, and reading does not bring them back
    by_contra hne
    rw [ofText_eq_ok_iff, render, String.toList_ofList] at hr
    have hle := (blanks_of_ofTrimmed hr).length_le
    rw [blanks, ← List.countP_eq_length_filter, ← List.countP_eq_length_filter] at hle
    exact absurd (Text.countP_trim_lt hne) (Nat.not_lt.2 hle)
  · have hnil : (Text.trim s.toList).filter Text.isBlank = [] := by simpa using hblank
    refine ofText_render_of_trim hback (Text.trim_eq_self ?_)
    exact List.sublist_nil.1 (hnil ▸ blanks_of_ofTrimmed h)

/-- A question mark, parentheses that are not needed and a backslash in front of a class. -/
theorem ofText_render_iff_nullable :
    ofText " ?(\\A)[]|Bool " = .ok (.compound .union (.arrayOf (.named "A")) .bool [.null]) ∧
      ofText "A[]|bool|null" = .ok (.compound .union (.arrayOf (.named "A")) .bool [.null]) := by
  have h : ofText " ?(\\A)[]|Bool " =
      .ok (.compound .union (.arrayOf (.named "A")) .bool [.null]) := by
    refine ofText_eq_ok_iff.2 (Declaration.ofTrimmed_eq_ok_iff.2
      ⟨.nullable (.joined (.mk (.group (.single (.mk (.name ['\\', 'A']) 0))) 1) .union
        (.single (.mk (.name "Bool".toList) 0))), ⟨.rooted (.segment (by decide)),
        .plain (.segment (by decide))⟩, by decide, rfl⟩)
  exact ⟨h, (ofText_render_iff h).2.1.2 (by decide)⟩

/-- A blank at the end of a class name is kept inside of parentheses and lost outside of them. -/
theorem ofText_render_no_break_space :
    ofText "(A\u00a0)" = .ok (.named "A\u00a0") ∧ (named "A\u00a0").render = "A\u00a0" ∧
      ofText "A\u00a0" = .ok (.named "A") := by
  refine ⟨ofText_eq_ok_iff.2 (Declaration.ofTrimmed_eq_ok_iff.2
    ⟨.single (.mk (.group (.single (.mk (.name ['A', '\u00a0']) 0))) 0), ?_, ?_, ?_⟩), by decide,
    ofText_eq_ok_iff.2 (Declaration.ofTrimmed_eq_ok_iff.2
      ⟨.single (.mk (.name ['A']) 0), ?_, ?_, ?_⟩)⟩
  · exact .plain (.segment (by decide))
  · decide
  · rfl
  · exact .plain (.segment (by decide))
  · decide
  · rfl

end Ty

end TypeRecovery
