import TypeRecovery.Proofs.Closure
import TypeRecovery.Proofs.Equality
import TypeRecovery.Ty.Fits

/-!
# Fitting is a preorder

The check is a cascade of cases, split by the shape of the left side first and of the target then.
One lemma for each shape says when it holds; with these, transitivity goes by induction on the size
of three types together. Class names must not be empty, because an object with an empty class name
is equal to any object.
-/
namespace TypeRecovery

theorem Text.lower_eq_empty_iff {s : String} : Text.lower s = "" ↔ s = "" := by
  have hat (before after : List Char) (c : Char) : Text.lowerAt before c after ≠ [] := by
    unfold Text.lowerAt
    split
    · simp
    · split <;> simp
  constructor
  · intro h
    have h := congrArg String.toList h
    rw [Text.lower, String.toList_ofList] at h
    cases hs : s.toList with
    | nil => exact String.toList_eq_nil_iff.1 hs
    | cons c cs =>
      rw [hs, Text.lowerFrom] at h
      exact absurd (List.append_eq_nil_iff.1 h).1 (hat [] cs c)
  · rintro rfl
    rfl

theorem Key.of_eq_of_empty_iff {s : String} : Key.of s = Key.of "" ↔ s = "" := by
  rw [Key.of, Key.of, Key.mk.injEq, show Text.lower "" = "" from rfl, Text.lower_eq_empty_iff]

def Hierarchy.Transitive (h : Hierarchy) : Prop :=
  ∀ a b c, b ∈ h.ancestors a → c ∈ h.ancestors b → c ∈ h.ancestors a

namespace Ty

theorem meetsAny_iff {same direct : Ty → Bool} {ts : List Ty} :
    meetsAny same direct ts = true ↔ ∃ t ∈ ts, meets same direct t = true := by
  induction ts with
  | nil => simp [meetsAny]
  | cons t ts ih => simp [meetsAny, ih]

theorem meetsAll_iff {same direct : Ty → Bool} {ts : List Ty} :
    meetsAll same direct ts = true ↔ ∀ t ∈ ts, meets same direct t = true := by
  induction ts with
  | nil => simp [meetsAll]
  | cons t ts ih => simp [meetsAll, ih]

variable {h : Hierarchy}

theorem allFit_iff {ts : List Ty} {b : Ty} : allFit h ts b = true ↔ ∀ t ∈ ts, fits h t b = true := by
  induction ts with
  | nil => simp [allFit]
  | cons t ts ih => simp [allFit, ih]

theorem anyFits_iff {ts : List Ty} {b : Ty} :
    anyFits h ts b = true ↔ ∃ t ∈ ts, fits h t b = true := by
  induction ts with
  | nil => simp [anyFits]
  | cons t ts ih => simp [anyFits, ih]

/-- The rule for a left side that is no union and a target that is not compound. -/
def fitsDirectly (h : Hierarchy) : Ty → Ty → Bool
  | compound _ x y rest, t => fits h x t || fits h y t || anyFits h rest t
  | arrayOf e, arrayOf e' => fits h e e'
  | arrayOf _, array | array, array => true
  | arrayOf _, _ | array, _ => false
  | a, t => fitsPlain h a t

/-- A type that is no union looks for its target in one way. -/
theorem fits_eq_meets {a : Ty} (ha : a.kind ≠ .union) (b : Ty) :
    fits h a b = meets (equiv a) (fitsDirectly h a) b := by
  cases a with
  | compound c x y rest =>
    cases c with
    | union => exact absurd rfl ha
    | intersection =>
      rw [fits]
      rfl
  | arrayOf e =>
    rw [fits]
    congr 1
    funext t
    cases t <;> rfl
  | array =>
    rw [fits]
    congr 1
    funext t
    cases t <;> rfl
  | _ =>
    rw [fits]
    · rfl
    all_goals simp

theorem meets_of_plain {same direct : Ty → Bool} {b : Ty} (hb : b.kind.isCompound = false) :
    meets same direct b = (same b || direct b) := by
  cases b with
  | compound c x y rest => simp [isCompound_compound] at hb
  | _ => rw [meets] <;> simp

theorem fits_of_plain {a b : Ty} (ha : a.kind ≠ .union) (hb : b.kind.isCompound = false) :
    fits h a b = (equiv a b || fitsDirectly h a b) := by
  rw [fits_eq_meets ha, meets_of_plain hb]

theorem fits_union_left {x y b : Ty} {rest : List Ty} :
    fits h (compound .union x y rest) b = true ↔
      equiv (compound .union x y rest) b = true ∨ ∀ t ∈ x :: y :: rest, fits h t b = true := by
  simp [fits, allFit_iff, and_assoc]

theorem fits_union_right {a x y : Ty} {rest : List Ty} (ha : a.kind ≠ .union) :
    fits h a (compound .union x y rest) = true ↔
      equiv a (compound .union x y rest) = true ∨ ∃ t ∈ x :: y :: rest, fits h a t = true := by
  simp [fits_eq_meets ha, meets, meetsAny_iff, or_assoc]

theorem fits_intersection_right {a x y : Ty} {rest : List Ty} (ha : a.kind ≠ .union) :
    fits h a (compound .intersection x y rest) = true ↔
      equiv a (compound .intersection x y rest) = true ∨
        ∀ t ∈ x :: y :: rest, fits h a t = true := by
  simp [fits_eq_meets ha, meets, meetsAll_iff, and_assoc]

theorem fits_intersection_left {x y b : Ty} {rest : List Ty} (hb : b.kind.isCompound = false) :
    fits h (compound .intersection x y rest) b = true ↔ ∃ t ∈ x :: y :: rest, fits h t b = true := by
  have hne : equiv (compound .intersection x y rest) b = false := by
    cases b with
    | compound c x y rest => simp [isCompound_compound] at hb
    | _ => simp [equiv]
  rw [fits_of_plain (by simp [kind, Combinator.kind]) hb, hne]
  simp [fitsDirectly, anyFits_iff, or_assoc]

theorem ne_union_of_plain {a : Ty} (ha : a.kind.isCompound = false) : a.kind ≠ .union := by
  intro hk
  rw [hk] at ha
  exact absurd ha (by decide)

theorem equiv_compound_of_plain {a x y : Ty} {rest : List Ty} (ha : a.kind.isCompound = false)
    (c : Combinator) : equiv a (compound c x y rest) = false := by
  rw [Bool.eq_false_iff]
  intro he
  rw [kind_eq_of_equiv he, isCompound_compound] at ha
  exact absurd ha (by decide)

/-- What is not compound is not equal to a union, so one of the members has to take it. -/
theorem fits_union_of_plain {a x y : Ty} {rest : List Ty} (ha : a.kind.isCompound = false) :
    fits h a (compound .union x y rest) = true ↔ ∃ t ∈ x :: y :: rest, fits h a t = true := by
  rw [fits_union_right (ne_union_of_plain ha), equiv_compound_of_plain ha]
  exact or_iff_right (by decide)

theorem fits_intersection_of_plain {a x y : Ty} {rest : List Ty} (ha : a.kind.isCompound = false) :
    fits h a (compound .intersection x y rest) = true ↔ ∀ t ∈ x :: y :: rest, fits h a t = true := by
  rw [fits_intersection_right (ne_union_of_plain ha), equiv_compound_of_plain ha]
  exact or_iff_right (by decide)

theorem fits_of_equiv {a b : Ty} (hab : equiv a b = true) : fits h a b = true := by
  by_cases ha : a.kind = .union
  · obtain ⟨x, y, rest, rfl⟩ := @exists_of_kind_eq a .union ha
    exact fits_union_left.2 (Or.inl hab)
  · cases b with
    | compound c x y rest =>
      cases c with
      | union => exact (fits_union_right ha).2 (Or.inl hab)
      | intersection => exact (fits_intersection_right ha).2 (Or.inl hab)
    | _ =>
      rw [fits_of_plain ha rfl, hab]
      rfl

theorem fits_refl (h : Hierarchy) (a : Ty) : fits h a a = true := fits_of_equiv (equiv_refl a)

/-- What is neither an object nor an array with known elements fits itself only. -/
theorem eq_of_basic_fits {a b : Ty} (ha : a.kind.isCompound = false) (ho : a.kind ≠ .object)
    (he : a.elementType? = none) (hb : b.kind.isCompound = false) (hf : fits h a b = true) :
    b = a := by
  rw [fits_of_plain (ne_union_of_plain ha) hb] at hf
  cases a with
  | compound c x y rest => simp [isCompound_compound] at ha
  | arrayOf e => simp [elementType?] at he
  | object | named n => simp [kind] at ho
  | _ =>
    cases b with
    | compound c x y rest => simp [isCompound_compound] at hb
    | _ => simp_all [equiv, fitsDirectly, fitsPlain, kind]

theorem eq_array_or_of_arrayOf_fits {e b : Ty} (hb : b.kind.isCompound = false)
    (hf : fits h (arrayOf e) b = true) : b = array ∨ ∃ e', b = arrayOf e' ∧ fits h e e' = true := by
  rw [fits_of_plain (by simp [kind]) hb] at hf
  cases b with
  | array => exact Or.inl rfl
  | arrayOf e' =>
    simp only [equiv, fitsDirectly, Bool.or_eq_true] at hf
    exact Or.inr ⟨e', rfl, hf.elim fits_of_equiv id⟩
  | _ => simp [equiv, fitsDirectly] at hf

theorem arrayOf_fits_array {e : Ty} : fits h (arrayOf e) array = true := by
  rw [fits_of_plain (by simp [kind]) rfl, Bool.or_eq_true]
  exact Or.inr rfl

theorem arrayOf_fits_arrayOf {e e' : Ty} (hf : fits h e e' = true) :
    fits h (arrayOf e) (arrayOf e') = true := by
  rw [fits_of_plain (by simp [kind]) rfl, Bool.or_eq_true]
  exact Or.inr hf

/-- A class fits any object, and a class that has the same key or stands above it. -/
theorem eq_object_or_of_named_fits {n : String} {b : Ty} (hb : b.kind.isCompound = false)
    (hf : fits h (named n) b = true) :
    b = object ∨ ∃ m, b = named m ∧ (Key.of m = Key.of n ∨ Key.of m ∈ h.ancestors (Key.of n)) := by
  rw [fits_of_plain (by simp [kind]) hb] at hf
  cases b with
  | compound c x y rest => simp [isCompound_compound] at hb
  | object => exact Or.inl rfl
  | named m =>
    simp only [equiv, classKey?, fitsDirectly, fitsPlain, Hierarchy.isSubtype, Bool.or_eq_true,
      beq_iff_eq, Option.some.injEq, decide_eq_true_eq] at hf
    exact Or.inr ⟨m, rfl, hf⟩
  | _ => simp [equiv, classKey?, fitsDirectly, fitsPlain, kind] at hf

theorem named_fits_object {n : String} : fits h (named n) object = true := by
  rw [fits_of_plain (by simp [kind]) rfl, Bool.or_eq_true]
  exact Or.inr rfl

theorem named_fits_named {n m : String}
    (hnm : Key.of m = Key.of n ∨ Key.of m ∈ h.ancestors (Key.of n)) :
    fits h (named n) (named m) = true := by
  rw [fits_of_plain (by simp [kind]) rfl]
  simp only [equiv, classKey?, fitsDirectly, fitsPlain, Hierarchy.isSubtype, Bool.or_eq_true,
    beq_iff_eq, Option.some.injEq, decide_eq_true_eq]
  exact hnm

theorem eq_object_of_object_fits {b : Ty} (hb : b.kind.isCompound = false) (hn : b ≠ named "")
    (hf : fits h object b = true) : b = object := by
  rw [fits_of_plain (by decide) hb] at hf
  cases b with
  | compound c x y rest => simp [isCompound_compound] at hb
  | object => rfl
  | named m =>
    simp only [equiv, classKey?, fitsDirectly, fitsPlain, Bool.or_false, beq_iff_eq,
      Option.some.injEq, Key.of_eq_of_empty_iff] at hf
    exact absurd (congrArg named hf) hn
  | _ => simp [equiv, classKey?, fitsDirectly, fitsPlain, kind] at hf

/-- No class name inside of the type is empty. -/
abbrev NamesPresent (t : Ty) : Prop := t.Everywhere (· ≠ named "")

/-- Fitting is transitive for three types of a total size below `n`. -/
def TransitiveBelow (h : Hierarchy) (n : Nat) : Prop :=
  ∀ a b c : Ty, sizeOf a + sizeOf b + sizeOf c < n → NamesPresent a → NamesPresent b →
    NamesPresent c → fits h a b = true → fits h b c = true → fits h a c = true

section Cases

variable {a b c x y : Ty} {rest : List Ty}

theorem isCompound_eq_false (hu : a.kind ≠ .union) (hi : a.kind ≠ .intersection) :
    a.kind.isCompound = false := by
  cases hk : a.kind <;> simp_all [Kind.isCompound]

theorem not_equiv_of_kind (hk : a.kind ≠ b.kind) : equiv a b ≠ true :=
  fun he => hk (kind_eq_of_equiv he)

/-- A union on the left is taken apart first. -/
theorem trans_union_left
    (ih : TransitiveBelow h (sizeOf (compound .union x y rest) + sizeOf b + sizeOf c))
    (ha : NamesPresent (compound .union x y rest)) (hb : NamesPresent b) (hc : NamesPresent c)
    (hab : fits h (compound .union x y rest) b = true) (hbc : fits h b c = true) :
    fits h (compound .union x y rest) c = true := by
  have hm := (everywhere_compound.1 ha).2
  rcases fits_union_left.1 hab with he | hall
  · obtain ⟨x', y', rest', rfl, hp⟩ := equiv_compound_cases he
    have hp := matched_of_pairOff hp
    rcases fits_union_left.1 hbc with he' | hall'
    · exact fits_of_equiv (equiv_trans he he')
    refine fits_union_left.2 (Or.inr fun t ht => ?_)
    obtain ⟨u, hu, htu⟩ := hp.exists_right ht
    have hst := @sizeOf_lt_of_mem .union x y t rest ht
    have hsu := @sizeOf_lt_of_mem .union x' y' u rest' hu
    exact ih t u c (by omega) (hm t ht) ((everywhere_compound.1 hb).2 u hu) hc
      (fits_of_equiv htu) (hall' u hu)
  · refine fits_union_left.2 (Or.inr fun t ht => ?_)
    have hst := @sizeOf_lt_of_mem .union x y t rest ht
    exact ih t b c (by omega) (hm t ht) hb hc (hall t ht) hbc

theorem trans_union_middle (hk : a.kind ≠ .union)
    (ih : TransitiveBelow h (sizeOf a + sizeOf (compound .union x y rest) + sizeOf c))
    (ha : NamesPresent a) (hb : NamesPresent (compound .union x y rest)) (hc : NamesPresent c)
    (hab : fits h a (compound .union x y rest) = true)
    (hbc : fits h (compound .union x y rest) c = true) : fits h a c = true := by
  have hm := (everywhere_compound.1 hb).2
  obtain ⟨u, hu, hau⟩ := ((fits_union_right hk).1 hab).resolve_left (not_equiv_of_kind hk)
  have hsu := @sizeOf_lt_of_mem .union x y u rest hu
  rcases fits_union_left.1 hbc with he | hall
  · obtain ⟨x', y', rest', rfl, hp⟩ := equiv_compound_cases he
    obtain ⟨v, hv, huv⟩ := (matched_of_pairOff hp).exists_right hu
    have hsv := @sizeOf_lt_of_mem .union x' y' v rest' hv
    refine (fits_union_right hk).2 (Or.inr ⟨v, hv, ?_⟩)
    exact ih a u v (by omega) ha (hm u hu) ((everywhere_compound.1 hc).2 v hv) hau
      (fits_of_equiv huv)
  · exact ih a u c (by omega) ha (hm u hu) hc hau (hall u hu)

theorem trans_union_right (hka : a.kind ≠ .union) (hkb : b.kind ≠ .union)
    (ih : TransitiveBelow h (sizeOf a + sizeOf b + sizeOf (compound .union x y rest)))
    (ha : NamesPresent a) (hb : NamesPresent b) (hc : NamesPresent (compound .union x y rest))
    (hab : fits h a b = true) (hbc : fits h b (compound .union x y rest) = true) :
    fits h a (compound .union x y rest) = true := by
  obtain ⟨v, hv, hbv⟩ := ((fits_union_right hkb).1 hbc).resolve_left (not_equiv_of_kind hkb)
  have hsv := @sizeOf_lt_of_mem .union x y v rest hv
  refine (fits_union_right hka).2 (Or.inr ⟨v, hv, ?_⟩)
  exact ih a b v (by omega) ha hb ((everywhere_compound.1 hc).2 v hv) hab hbv

theorem trans_intersection_right (hka : a.kind ≠ .union) (hkb : b.kind ≠ .union)
    (ih : TransitiveBelow h (sizeOf a + sizeOf b + sizeOf (compound .intersection x y rest)))
    (ha : NamesPresent a) (hb : NamesPresent b)
    (hc : NamesPresent (compound .intersection x y rest)) (hab : fits h a b = true)
    (hbc : fits h b (compound .intersection x y rest) = true) :
    fits h a (compound .intersection x y rest) = true := by
  have hm := (everywhere_compound.1 hc).2
  rcases (fits_intersection_right hkb).1 hbc with he | hall
  · obtain ⟨x', y', rest', rfl, hp⟩ := equiv_compound_cases (equiv_symm he)
    rcases (fits_intersection_right hka).1 hab with he' | hall'
    · exact fits_of_equiv (equiv_trans he' he)
    refine (fits_intersection_right hka).2 (Or.inr fun v hv => ?_)
    obtain ⟨u, hu, hvu⟩ := (matched_of_pairOff hp).exists_right hv
    have hsu := @sizeOf_lt_of_mem .intersection x' y' u rest' hu
    have hsv := @sizeOf_lt_of_mem .intersection x y v rest hv
    exact ih a u v (by omega) ha ((everywhere_compound.1 hb).2 u hu) (hm v hv) (hall' u hu)
      (fits_of_equiv (equiv_symm hvu))
  · refine (fits_intersection_right hka).2 (Or.inr fun v hv => ?_)
    have hsv := @sizeOf_lt_of_mem .intersection x y v rest hv
    exact ih a b v (by omega) ha hb (hm v hv) hab (hall v hv)

theorem trans_intersection_middle (hk : a.kind ≠ .union) (hkc : c.kind.isCompound = false)
    (ih : TransitiveBelow h (sizeOf a + sizeOf (compound .intersection x y rest) + sizeOf c))
    (ha : NamesPresent a) (hb : NamesPresent (compound .intersection x y rest))
    (hc : NamesPresent c) (hab : fits h a (compound .intersection x y rest) = true)
    (hbc : fits h (compound .intersection x y rest) c = true) : fits h a c = true := by
  have hm := (everywhere_compound.1 hb).2
  obtain ⟨u, hu, huc⟩ := (fits_intersection_left hkc).1 hbc
  have hsu := @sizeOf_lt_of_mem .intersection x y u rest hu
  rcases (fits_intersection_right hk).1 hab with he | hall
  · obtain ⟨x', y', rest', rfl, hp⟩ := equiv_compound_cases (equiv_symm he)
    obtain ⟨t, ht, hut⟩ := (matched_of_pairOff hp).exists_right hu
    have hst := @sizeOf_lt_of_mem .intersection x' y' t rest' ht
    refine (fits_intersection_left hkc).2 ⟨t, ht, ?_⟩
    exact ih t u c (by omega) ((everywhere_compound.1 ha).2 t ht) (hm u hu) hc
      (fits_of_equiv (equiv_symm hut)) huc
  · exact ih a u c (by omega) ha (hm u hu) hc (hall u hu) huc

theorem trans_intersection_left (hkb : b.kind.isCompound = false) (hkc : c.kind.isCompound = false)
    (ih : TransitiveBelow h (sizeOf (compound .intersection x y rest) + sizeOf b + sizeOf c))
    (ha : NamesPresent (compound .intersection x y rest)) (hb : NamesPresent b)
    (hc : NamesPresent c) (hab : fits h (compound .intersection x y rest) b = true)
    (hbc : fits h b c = true) : fits h (compound .intersection x y rest) c = true := by
  obtain ⟨t, ht, htb⟩ := (fits_intersection_left hkb).1 hab
  have hst := @sizeOf_lt_of_mem .intersection x y t rest ht
  refine (fits_intersection_left hkc).2 ⟨t, ht, ?_⟩
  exact ih t b c (by omega) ((everywhere_compound.1 ha).2 t ht) hb hc htb hbc

/-- Three types without members: arrays go by their elements, classes by the hierarchy. -/
theorem trans_plain (ht : h.Transitive) (hka : a.kind.isCompound = false)
    (hkb : b.kind.isCompound = false) (hkc : c.kind.isCompound = false)
    (ih : TransitiveBelow h (sizeOf a + sizeOf b + sizeOf c)) (ha : NamesPresent a)
    (hb : NamesPresent b) (hc : NamesPresent c) (hab : fits h a b = true)
    (hbc : fits h b c = true) : fits h a c = true := by
  cases a with
  | compound d x y rest => simp [isCompound_compound] at hka
  | arrayOf e =>
    rcases eq_array_or_of_arrayOf_fits hkb hab with rfl | ⟨e', rfl, hee⟩
    · rw [eq_of_basic_fits hkb (by simp [kind]) rfl hkc hbc]
      exact hab
    · rcases eq_array_or_of_arrayOf_fits hkc hbc with rfl | ⟨e'', rfl, hee'⟩
      · exact arrayOf_fits_array
      · refine arrayOf_fits_arrayOf (ih e e' e'' ?_ ha.2 hb.2 hc.2 hee hee')
        simp only [arrayOf.sizeOf_spec]
        omega
  | named n =>
    rcases eq_object_or_of_named_fits hkb hab with rfl | ⟨m, rfl, hnm⟩
    · rw [eq_object_of_object_fits hkc hc.self hbc]
      exact named_fits_object
    · rcases eq_object_or_of_named_fits hkc hbc with rfl | ⟨k, rfl, hmk⟩
      · exact named_fits_object
      · refine named_fits_named ?_
        rcases hnm with hnm | hnm
        · rwa [hnm] at hmk
        · rcases hmk with hmk | hmk
          · exact Or.inr (hmk ▸ hnm)
          · exact Or.inr (ht _ _ _ hnm hmk)
  | object =>
    rw [eq_object_of_object_fits hkb hb.self hab] at hbc
    exact hbc
  | _ =>
    rw [eq_of_basic_fits hka (by simp [kind]) rfl hkb hab] at hbc
    exact hbc

end Cases

theorem fits_trans (ht : h.Transitive) {a b c : Ty} (ha : NamesPresent a) (hb : NamesPresent b)
    (hc : NamesPresent c) (hab : fits h a b = true) (hbc : fits h b c = true) :
    fits h a c = true := by
  have hbelow (n : Nat) : TransitiveBelow h n := by
    induction n with
    | zero => exact fun _ _ _ hn => absurd hn (Nat.not_lt_zero _)
    | succ n ihn =>
      intro a b c hn ha hb hc hab hbc
      have ih : TransitiveBelow h (sizeOf a + sizeOf b + sizeOf c) :=
        fun a' b' c' hlt => ihn a' b' c' (by omega)
      by_cases hka : a.kind = .union
      · obtain ⟨x, y, rest, rfl⟩ := @exists_of_kind_eq a .union hka
        exact trans_union_left ih ha hb hc hab hbc
      by_cases hkb : b.kind = .union
      · obtain ⟨x, y, rest, rfl⟩ := @exists_of_kind_eq b .union hkb
        exact trans_union_middle hka ih ha hb hc hab hbc
      by_cases hkc : c.kind = .union
      · obtain ⟨x, y, rest, rfl⟩ := @exists_of_kind_eq c .union hkc
        exact trans_union_right hka hkb ih ha hb hc hab hbc
      by_cases hic : c.kind = .intersection
      · obtain ⟨x, y, rest, rfl⟩ := @exists_of_kind_eq c .intersection hic
        exact trans_intersection_right hka hkb ih ha hb hc hab hbc
      have hpc := isCompound_eq_false hkc hic
      by_cases hib : b.kind = .intersection
      · obtain ⟨x, y, rest, rfl⟩ := @exists_of_kind_eq b .intersection hib
        exact trans_intersection_middle hka hpc ih ha hb hc hab hbc
      have hpb := isCompound_eq_false hkb hib
      by_cases hia : a.kind = .intersection
      · obtain ⟨x, y, rest, rfl⟩ := @exists_of_kind_eq a .intersection hia
        exact trans_intersection_left hpb hpc ih ha hb hc hab hbc
      exact trans_plain ht (isCompound_eq_false hka hia) hpb hpc ih ha hb hc hab hbc
  exact hbelow _ a b c (Nat.lt_succ_self _) ha hb hc hab hbc

end Ty

open Hierarchy in
theorem Hierarchy.Reflects.transitive_close {es : List Edit} {h : Hierarchy} (hr : Reflects es h)
    (hd : ∀ c p, Recorded es c p → Declares es c) : h.close.Transitive := by
  intro a b c hab hbc
  rw [hr.mem_ancestors_close hd] at hab hbc ⊢
  exact hab.trans hbc

namespace Ty

open Hierarchy in
/-- Over a hierarchy that was closed when every child of an edge was declared, fitting is reflexive
and transitive. -/
theorem fits_close_preorder (baseline edits : List Edit)
    (hd : ∀ c p, Recorded (baseline ++ edits) c p → Declares (baseline ++ edits) c) :
    (∀ a : Ty, NamesPresent a →
      fits (Edit.run (Edit.run .empty baseline) edits).close a a = true) ∧
    (∀ a b c : Ty, NamesPresent a → NamesPresent b → NamesPresent c →
      fits (Edit.run (Edit.run .empty baseline) edits).close a b = true →
      fits (Edit.run (Edit.run .empty baseline) edits).close b c = true →
      fits (Edit.run (Edit.run .empty baseline) edits).close a c = true) := by
  have ht := (reflects_run baseline edits).transitive_close hd
  exact ⟨fun a _ => fits_refl _ a, fun a b c ha hb hc => fits_trans ht ha hb hc⟩

/-- Three classes in a line, the first of them below a built-in one. -/
def lineEdits : List Hierarchy.Edit :=
  [.declare "A", .edges "A" ["B"], .declare "B", .edge "B" "C"]

open Hierarchy in
theorem fits_close_line :
    (∀ c p, Recorded ([.declare "C"] ++ lineEdits) c p →
      Declares ([.declare "C"] ++ lineEdits) c) ∧
    fits (Edit.run (Edit.run .empty [.declare "C"]) lineEdits).close (arrayOf (named "A"))
      (compound .union null (arrayOf (named "C")) [string]) = true := by
  have hrec {a b : Key} : Recorded ([.declare "C"] ++ lineEdits) a b ↔
      (a = Key.of "A" ∧ b = Key.of "B") ∨ (a = Key.of "B" ∧ b = Key.of "C") := by
    simp only [Recorded, lineEdits, Edit.recorded, List.cons_append, List.nil_append,
      List.mem_cons, List.not_mem_nil, or_false, exists_eq_or_imp, exists_eq_left, false_or,
      List.map_cons, List.map_nil, Prod.mk.injEq]
  have hd : ∀ c p, Recorded ([.declare "C"] ++ lineEdits) c p →
      Declares ([.declare "C"] ++ lineEdits) c := by
    intro c p hcp
    rcases hrec.1 hcp with ⟨rfl, -⟩ | ⟨rfl, -⟩
    · exact ⟨.declare "A", by simp [lineEdits], List.mem_cons_self⟩
    · exact ⟨.declare "B", by simp [lineEdits], List.mem_cons_self⟩
  have hlink := (reflects_run [.declare "C"] lineEdits).close.linked
  have hAB := named_fits_named (Or.inr (hlink _ _ (hrec.2 (Or.inl ⟨rfl, rfl⟩))))
  have hBC := named_fits_named (Or.inr (hlink _ _ (hrec.2 (Or.inr ⟨rfl, rfl⟩))))
  refine ⟨hd, (fits_close_preorder [.declare "C"] lineEdits hd).2 (arrayOf (named "A"))
    (arrayOf (named "B")) _ ?_ ?_ ?_ ?_ ?_⟩
  · simp [NamesPresent, Everywhere]
  · simp [NamesPresent, Everywhere]
  · simp [NamesPresent, Everywhere, EverywhereAll]
  · exact arrayOf_fits_arrayOf hAB
  · exact (fits_union_right (by decide)).2 (Or.inr ⟨_, by simp, arrayOf_fits_arrayOf hBC⟩)

end Ty

end TypeRecovery
