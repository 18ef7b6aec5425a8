import Mathlib.Data.Set.Finite.Basic
import TypeRecovery.Proofs.Fitting

/-!
# Types that fit alike

Equal types differ in the order of members, in the letter case of class names, and in one thing more:
an object whose class name is empty is equal to an object without a name. The first two make variants
of a type, and where it fits does not depend on the variant, over any hierarchy. The third does: any
object takes every class, but no hierarchy places every class below the empty name.
-/
namespace TypeRecovery

/-- However many names a hierarchy has, there are classes that it says nothing about. -/
theorem Hierarchy.exists_ancestors_eq_nil (h : Hierarchy) :
    ∃ n, n ≠ "" ∧ h.ancestors (Key.of n) = [] := by
  let name (n : Nat) : String := String.ofList (List.replicate (n + 1) 'a')
  have hfrom (before : List Char) (n : Nat) :
      Text.lowerFrom before (List.replicate n 'a') = List.replicate n 'a' := by
    induction n generalizing before with
    | zero => rfl
    | succ n ih =>
      rw [List.replicate_succ, Text.lowerFrom, ih]
      rfl
  have hinj : Function.Injective fun n => Key.of (name n) := by
    intro m n hmn
    have hl := congrArg (fun k : Key => k.text.toList.length) hmn
    simpa [name, Key.of, Text.lower, hfrom] using hl
  obtain ⟨_, ⟨n, rfl⟩, hn⟩ :=
    (Set.infinite_range_of_injective hinj).exists_notMem_finite (List.finite_toSet h.above.keys)
  refine ⟨name n, by simp [name, ← String.toList_inj], ?_⟩
  rw [ancestors]
  cases hg : h.above.get? (Key.of (name n)) with
  | none => rfl
  | some ks => exact absurd (Table.mem_keys_of_get? hg) hn

namespace Ty

variable {h : Hierarchy}

/-- Induction over the nesting of compounds of one kind. -/
theorem combinator_induction (k : Combinator) {P : Ty → Prop} (other : ∀ t, t.kind ≠ k.kind → P t)
    (compound : ∀ a b rest, (∀ t ∈ a :: b :: rest, P t) → P (compound k a b rest)) (t : Ty) :
    P t := by
  induction t using members_induction with
  | leaf t hm he =>
    refine other t fun hk => ?_
    obtain ⟨a, b, rest, rfl⟩ := exists_of_kind_eq hk
    simp [members] at hm
  | arrayOf t _ => exact other _ (by cases k <;> simp [kind, Combinator.kind])
  | compound c a b rest ih =>
    by_cases hc : c = k
    · subst hc
      exact compound a b rest ih
    · exact other _ (by cases c <;> cases k <;> simp_all [kind, Combinator.kind])

/-- What fits a member fits the union. -/
theorem fits_union_of_mem {a q x y : Ty} {rest : List Ty} (hq : q ∈ x :: y :: rest)
    (haq : fits h a q = true) : fits h a (compound .union x y rest) = true := by
  induction a using combinator_induction .union generalizing q x y rest with
  | other t hk => exact (fits_union_right hk).2 (Or.inr ⟨q, hq, haq⟩)
  | compound a b more ih =>
    refine fits_union_left.2 (Or.inr fun m hm => ?_)
    rcases fits_union_left.1 haq with he | hall
    · -- `q` is a union as well, and has a member equal to `m`
      obtain ⟨x', y', rest', rfl, hp⟩ := equiv_compound_cases he
      obtain ⟨u, hu, hmu⟩ := (matched_of_pairOff hp).exists_right hm
      exact ih m hm hq (ih m hm hu (fits_of_equiv hmu))
    · exact ih m hm hq (hall m hm)

/-- A union fits where all its members fit: that it is equal to the target adds nothing. -/
theorem fits_union_iff {x y b : Ty} {rest : List Ty} :
    fits h (compound .union x y rest) b = true ↔ ∀ t ∈ x :: y :: rest, fits h t b = true := by
  refine fits_union_left.trans (or_iff_right_of_imp fun he t ht => ?_)
  obtain ⟨x', y', rest', rfl, hp⟩ := equiv_compound_cases he
  obtain ⟨u, hu, htu⟩ := (matched_of_pairOff hp).exists_right ht
  exact fits_union_of_mem hu (fits_of_equiv htu)

/-- The same type written in another way: with members in another order and class names in other
letter case. -/
inductive Variant : Ty → Ty → Prop
  | leaf {t : Ty} (hm : t.members = []) (he : t.elementType? = none) : Variant t t
  | named {m n : String} (hk : Key.of m = Key.of n) : Variant (named m) (named n)
  | arrayOf {t u : Ty} (htu : Variant t u) : Variant (arrayOf t) (arrayOf u)
  | compound {c : Combinator} {a b x y : Ty} {rest more vs : List Ty}
      (hf : List.Forall₂ Variant (a :: b :: rest) vs) (hp : vs.Perm (x :: y :: more)) :
      Variant (compound c a b rest) (compound c x y more)

theorem variant_compound_cases {c : Combinator} {a b u : Ty} {rest : List Ty}
    (hv : Variant (compound c a b rest) u) :
    ∃ x y more vs, u = compound c x y more ∧ List.Forall₂ Variant (a :: b :: rest) vs ∧
      vs.Perm (x :: y :: more) := by
  cases hv with
  | leaf hm => simp [members] at hm
  | compound hf hp => exact ⟨_, _, _, _, rfl, hf, hp⟩

theorem variant_arrayOf_cases {t u : Ty} (hv : Variant (arrayOf t) u) :
    ∃ t', u = arrayOf t' ∧ Variant t t' := by
  cases hv with
  | leaf hm he => simp [elementType?] at he
  | arrayOf htu => exact ⟨_, rfl, htu⟩

theorem variant_object_cases {u : Ty} (hv : Variant object u) : u = object := by
  cases hv
  rfl

theorem variant_named_cases {n : String} {u : Ty} (hv : Variant (named n) u) :
    ∃ m, u = named m ∧ Key.of m = Key.of n := by
  cases hv with
  | leaf => exact ⟨n, rfl, rfl⟩
  | named hk => exact ⟨_, rfl, hk.symm⟩

theorem variant_leaf_cases {t u : Ty} (hm : t.members = []) (he : t.elementType? = none)
    (hv : Variant t u) : u = t ∨ ∃ m n, t = named m ∧ u = named n ∧ Key.of m = Key.of n := by
  cases hv with
  | leaf => exact Or.inl rfl
  | named hk => exact Or.inr ⟨_, _, rfl, rfl, hk⟩
  | arrayOf => simp [elementType?] at he
  | compound => simp [members] at hm

/-- A relation of two lists may be weakened with what is known of their members. -/
theorem forall₂_imp_mem {R S : Ty → Ty → Prop} {ts us : List Ty} (hf : List.Forall₂ R ts us)
    (hRS : ∀ t ∈ ts, ∀ u ∈ us, R t u → S t u) : List.Forall₂ S ts us := by
  induction hf with
  | nil => exact .nil
  | @cons t u ts us htu _ ih =>
    refine .cons (hRS t List.mem_cons_self u List.mem_cons_self htu) (ih fun t' ht' u' hu' => ?_)
    exact hRS t' (List.mem_cons_of_mem t ht') u' (List.mem_cons_of_mem u hu')

theorem variant_symm {t u : Ty} (hv : Variant t u) : Variant u t := by
  induction t using members_induction generalizing u with
  | leaf t hm he =>
    rcases variant_leaf_cases hm he hv with rfl | ⟨m, n, rfl, rfl, hk⟩
    · exact hv
    · exact .named hk.symm
  | arrayOf t ih =>
    obtain ⟨u, rfl, htu⟩ := variant_arrayOf_cases hv
    exact .arrayOf (ih htu)
  | compound c a b rest ih =>
    obtain ⟨x, y, more, vs, rfl, hf, hp⟩ := variant_compound_cases hv
    have hback : List.Forall₂ Variant vs (a :: b :: rest) :=
      .flip (forall₂_imp_mem hf fun t ht _ _ => ih t ht)
    obtain ⟨ws, hf', hp'⟩ := List.perm_comp_forall₂ hp.symm hback
    exact .compound hf' hp'

/-- Variants are equal. -/
theorem Variant.equiv {t u : Ty} (hv : Variant t u) : t.equiv u = true := by
  induction t using members_induction generalizing u with
  | leaf t hm he =>
    rcases variant_leaf_cases hm he hv with rfl | ⟨m, n, rfl, rfl, hk⟩
    · exact equiv_refl _
    · simp [Ty.equiv, classKey?, hk]
  | arrayOf t ih =>
    obtain ⟨u, rfl, htu⟩ := variant_arrayOf_cases hv
    rw [Ty.equiv]
    exact ih htu
  | compound c a b rest ih =>
    obtain ⟨x, y, more, vs, rfl, hf, hp⟩ := variant_compound_cases hv
    refine equiv_compound_iff.2 ⟨rfl, vs, hp, ?_⟩
    exact forall₂_imp_mem hf fun t ht _ _ => ih t ht

theorem eq_object_of_equiv {t : Ty} (hn : t ≠ named "") (he : equiv object t = true) :
    t = object := by
  cases t with
  | object => rfl
  | named m =>
    simp only [equiv, classKey?, beq_iff_eq, Option.some.injEq, Key.of_eq_of_empty_iff] at he
    exact absurd (congrArg named he) hn
  | _ => simp [equiv, classKey?] at he

theorem exists_named_of_equiv {n : String} {t : Ty} (hn : n ≠ "") (he : equiv (named n) t = true) :
    ∃ m, t = named m ∧ Key.of m = Key.of n := by
  cases t with
  | object =>
    simp only [equiv, classKey?, beq_iff_eq, Option.some.injEq] at he
    exact absurd (Key.of_eq_of_empty_iff.1 he.symm) hn
  | named m =>
    simp only [equiv, classKey?, beq_iff_eq, Option.some.injEq] at he
    exact ⟨m, rfl, he⟩
  | _ => simp [equiv, classKey?] at he

/-- Equal types without empty class names are variants. -/
theorem variant_of_equiv {t u : Ty} (ht : NamesPresent t) (hu : NamesPresent u)
    (he : t.equiv u = true) : Variant t u := by
  induction t using members_induction generalizing u with
  | leaf t hm hel =>
    cases t with
    | object =>
      rw [eq_object_of_equiv hu.self he]
      exact .leaf rfl rfl
    | named n =>
      obtain ⟨m, rfl, hk⟩ := exists_named_of_equiv (fun hn => ht (congrArg named hn)) he
      exact .named hk.symm
    | arrayOf t => simp [elementType?] at hel
    | compound c a b rest => simp [members] at hm
    | _ => cases u <;> first | exact .leaf rfl rfl | simp [equiv] at he
  | arrayOf t ih =>
    obtain ⟨u, rfl, htu⟩ := equiv_arrayOf_cases he
    exact .arrayOf (ih ht.2 hu.2 htu)
  | compound c a b rest ih =>
    obtain ⟨x, y, more, rfl, hp⟩ := equiv_compound_cases he
    obtain ⟨vs, hperm, hf⟩ := matched_of_pairOff hp
    refine .compound (forall₂_imp_mem hf fun t ht' v hv => ih t ht' ?_ ?_) hperm
    · exact (everywhere_compound.1 ht).2 t ht'
    · exact (everywhere_compound.1 hu).2 v (hperm.subset hv)

/-- Members of variants are variants of each other. -/
theorem variant_members {c : Combinator} {a b u : Ty} {rest : List Ty}
    (hv : Variant (compound c a b rest) u) :
    ∃ x y more, u = compound c x y more ∧
      (∀ t ∈ a :: b :: rest, ∃ t' ∈ x :: y :: more, Variant t t') ∧
      ∀ t' ∈ x :: y :: more, ∃ t ∈ a :: b :: rest, Variant t t' := by
  have hright {c : Combinator} {a b x y : Ty} {rest more : List Ty}
      (hv : Variant (compound c a b rest) (compound c x y more)) (t : Ty)
      (ht : t ∈ a :: b :: rest) : ∃ t' ∈ x :: y :: more, Variant t t' := by
    obtain ⟨_, _, _, vs, he, hf, hp⟩ := variant_compound_cases hv
    obtain ⟨i, hi, rfl⟩ := List.getElem_of_mem ht
    have hiv : i < vs.length := hf.length_eq ▸ hi
    cases he
    exact ⟨vs[i], hp.subset (List.getElem_mem hiv), hf.get hi hiv⟩
  obtain ⟨x, y, more, -, rfl, -⟩ := variant_compound_cases hv
  refine ⟨x, y, more, rfl, hright hv, fun t' ht' => ?_⟩
  obtain ⟨t, ht, htt⟩ := hright (variant_symm hv) t' ht'
  exact ⟨t, ht, variant_symm htt⟩

section Exchange

variable {a a' b b' : Ty}

theorem fits_of_equiv_variants (haa : Variant a a') (hbb : Variant b b') (he : a.equiv b = true) :
    fits h a' b' = true :=
  fits_of_equiv (equiv_trans (equiv_symm haa.equiv) (equiv_trans he hbb.equiv))

/-- For a left side that is no union, it is enough to look at targets that are not compound. -/
theorem exchange_of_plain (hk : a.kind ≠ .union) (haa : Variant a a')
    (plain : ∀ b b', b.kind.isCompound = false → Variant b b' → fits h a b = true →
      fits h a' b' = true)
    (hbb : Variant b b') (hf : fits h a b = true) : fits h a' b' = true := by
  have hk' : a'.kind ≠ .union := kind_eq_of_equiv haa.equiv ▸ hk
  induction b using members_induction generalizing b' with
  | leaf b hm he => exact plain b b' (isCompound_of_members_eq_nil hm) hbb hf
  | arrayOf b _ => exact plain (arrayOf b) b' rfl hbb hf
  | compound c x y rest ih =>
    obtain ⟨x', y', rest', rfl, hright, hleft⟩ := variant_members hbb
    cases c with
    | union =>
      rcases (fits_union_right hk).1 hf with he | ⟨t, ht, hat⟩
      · exact fits_of_equiv_variants haa hbb he
      · obtain ⟨t', ht', htt⟩ := hright t ht
        exact fits_union_of_mem ht' (ih t ht htt hat)
    | intersection =>
      rcases (fits_intersection_right hk).1 hf with he | hall
      · exact fits_of_equiv_variants haa hbb he
      · refine (fits_intersection_right hk').2 (Or.inr fun t' ht' => ?_)
        obtain ⟨t, ht, htt⟩ := hleft t' ht'
        exact ih t ht htt (hall t ht)

theorem exchange_leaf (hm : a.members = []) (he : a.elementType? = none) (haa : Variant a a')
    (hkb : b.kind.isCompound = false) (hbb : Variant b b') (hf : fits h a b = true) :
    fits h a' b' = true := by
  cases a with
  | compound c x y rest => simp [members] at hm
  | arrayOf e => simp [elementType?] at he
  | object =>
    by_cases hn : b = named ""
    · exact fits_of_equiv_variants haa hbb (hn ▸ rfl)
    · exact fits_of_equiv_variants haa hbb (eq_object_of_object_fits hkb hn hf ▸ equiv_refl _)
  | named n =>
    obtain ⟨n', rfl, hn⟩ := variant_named_cases haa
    rcases eq_object_or_of_named_fits hkb hf with rfl | ⟨m, rfl, hnm⟩
    · rw [variant_object_cases hbb]
      exact named_fits_object
    · obtain ⟨m', rfl, hm'⟩ := variant_named_cases hbb
      exact named_fits_named (by rwa [hn, hm'])
  | _ =>
    rw [eq_of_basic_fits rfl (by simp [kind]) rfl hkb hf] at hbb
    exact fits_of_equiv_variants haa hbb (equiv_refl _)

theorem fits_of_variant (haa : Variant a a') (hbb : Variant b b') (hf : fits h a b = true) :
    fits h a' b' = true := by
  induction a using members_induction generalizing a' b b' with
  | leaf a hm he =>
    exact exchange_of_plain (ne_union_of_plain (isCompound_of_members_eq_nil hm)) haa
      (fun b b' hkb hbb => exchange_leaf hm he haa hkb hbb) hbb hf
  | arrayOf e ih =>
    obtain ⟨e', rfl, hee⟩ := variant_arrayOf_cases haa
    refine exchange_of_plain (by simp [kind]) haa (fun b b' hkb hbb hf => ?_) hbb hf
    rcases eq_array_or_of_arrayOf_fits hkb hf with rfl | ⟨x, rfl, hex⟩
    · cases hbb
      exact arrayOf_fits_array
    · obtain ⟨x', rfl, hxx⟩ := variant_arrayOf_cases hbb
      exact arrayOf_fits_arrayOf (ih hee hxx hex)
  | compound c x y rest ih =>
    obtain ⟨x', y', rest', rfl, hright, hleft⟩ := variant_members haa
    cases c with
    | union =>
      refine fits_union_iff.2 fun t' ht' => ?_
      obtain ⟨t, ht, htt⟩ := hleft t' ht'
      exact ih t ht htt hbb (fits_union_iff.1 hf t ht)
    | intersection =>
      refine exchange_of_plain (by simp [kind, Combinator.kind]) haa
        (fun b b' hkb hbb hf => ?_) hbb hf
      obtain ⟨t, ht, htb⟩ := (fits_intersection_left hkb).1 hf
      obtain ⟨t', ht', htt⟩ := hright t ht
      refine (fits_intersection_left (kind_eq_of_equiv hbb.equiv ▸ hkb)).2 ⟨t', ht', ?_⟩
      exact ih t ht htt hbb htb

/-- Equal types without empty class names can be exchanged on both sides. -/
theorem fits_exchange (ha : NamesPresent a) (ha' : NamesPresent a') (hb : NamesPresent b)
    (hb' : NamesPresent b') (haa : a.equiv a' = true) (hbb : b.equiv b' = true)
    (hf : fits h a b = true) : fits h a' b' = true :=
  fits_of_variant (variant_of_equiv ha ha' haa) (variant_of_equiv hb hb' hbb) hf

theorem fits_variant (haa : Variant a a') (hbb : Variant b b') : fits h a b = fits h a' b' := by
  rw [Bool.eq_iff_iff]
  exact ⟨fits_of_variant haa hbb, fits_of_variant (variant_symm haa) (variant_symm hbb)⟩

end Exchange

/-- Over any hierarchy, some class fits any object and does not fit the empty class name. -/
theorem exists_named_not_fits_empty (h : Hierarchy) :
    ∃ n, fits h (named n) object = true ∧ fits h (named n) (named "") = false := by
  obtain ⟨n, hn, hanc⟩ := h.exists_ancestors_eq_nil
  refine ⟨n, named_fits_object, Bool.eq_false_iff.2 fun hf => ?_⟩
  rcases eq_object_or_of_named_fits rfl hf with he | ⟨m, he, hk | hmem⟩
  · cases he
  · cases he
    exact hn (Key.of_eq_of_empty_iff.1 hk.symm)
  · rw [hanc] at hmem
    simp at hmem

/-- Over any hierarchy, equal types fit alike if their class names are not empty, and so do all
variants of types. Only the empty name stands in the way: it is equal to no name at all, and there
is always a class that tells the two apart. -/
theorem fits_interchange (h : Hierarchy) :
    (∀ a a' b b', NamesPresent a → NamesPresent a' → NamesPresent b → NamesPresent b' →
      a.equiv a' = true → b.equiv b' = true → fits h a b = fits h a' b') ∧
    (∀ a a' b b', Variant a a' → Variant b b' → fits h a b = fits h a' b') ∧
    equiv object (named "") = true ∧
      ∃ n, fits h (named n) object = true ∧ fits h (named n) (named "") = false := by
  refine ⟨fun a a' b b' ha ha' hb hb' haa hbb => ?_, fun a a' b b' => fits_variant, rfl,
    exists_named_not_fits_empty h⟩
  exact fits_variant (variant_of_equiv ha ha' haa) (variant_of_equiv hb hb' hbb)

/-- Classes in another order and another spelling, against a class above one of them. -/
theorem fits_interchange_spelling :
    let h := Hierarchy.empty.link (Key.of "Bar") (Key.of "Foo")
    let a := compound .intersection (named "Bar") (named "Baz") []
    let a' := compound .intersection (named "BAZ") (named "bar") []
    let b := compound .union null (named "Foo") []
    let b' := compound .union (named "FOO") null []
    NamesPresent a ∧ NamesPresent a' ∧ NamesPresent b ∧ NamesPresent b' ∧ a.equiv a' = true ∧
      b.equiv b' = true ∧ fits h a b = true ∧ fits h a' b' = true := by
  intro h a a' b b'
  have ha : NamesPresent a := by simp [a, NamesPresent, Everywhere, EverywhereAll]
  have ha' : NamesPresent a' := by simp [a', NamesPresent, Everywhere, EverywhereAll]
  have hb : NamesPresent b := by simp [b, NamesPresent, Everywhere, EverywhereAll]
  have hb' : NamesPresent b' := by simp [b', NamesPresent, Everywhere, EverywhereAll]
  have haa : a.equiv a' = true := by decide
  have hbb : b.equiv b' = true := by decide
  have hf : fits h a b = true := by decide
  exact ⟨ha, ha', hb, hb', haa, hbb, hf,
    (fits_interchange h).1 a a' b b' ha ha' hb hb' haa hbb ▸ hf⟩

/-- A class fits any object, but not the equal type with an empty class name. -/
theorem fits_object_not_empty_name :
    equiv (named "A") (named "A") = true ∧ equiv object (named "") = true ∧
      fits .empty (named "A") object = true ∧ fits .empty (named "A") (named "") = false := by
  decide

end Ty

end TypeRecovery
