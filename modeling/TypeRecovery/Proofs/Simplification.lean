import TypeRecovery.Proofs.Bounds
import TypeRecovery.Proofs.Nullability

/-!
# What simplification makes of a type

The parts of a simplified type are what is left when nested compounds of one kind are taken apart,
each of them simplified. Nothing is dropped and nothing changes places, so that a simplified type
allows null exactly if the type did, and equal types are still equal when they are simplified.
-/
namespace TypeRecovery.Ty

theorem flatMap_simplify_ne_nil (c : Combinator) (a b : Ty) (rest : List Ty) :
    ((a :: b :: rest).flatMap fun t => t.simplify.parts c) ≠ [] := by
  simp [parts_ne_nil]

/-- Members that move up into the compound around theirs are still asked in the same way. -/
theorem allowsNull_simplify (t : Ty) : t.simplify.allowsNull = t.allowsNull := by
  induction t using members_induction with
  | leaf t hm he => rw [simplify_leaf hm he]
  | arrayOf t _ => rfl
  | compound c a b rest ih =>
    rw [simplify_compound, Bool.eq_iff_iff]
    cases c with
    | union =>
      rw [allowsNull_join_union (flatMap_simplify_ne_nil .union a b rest),
        allowsNull_iff_union_parts (t := compound .union a b rest)]
      constructor
      · rintro ⟨m, hm, hnull⟩
        obtain ⟨t, ht, hmt⟩ := List.mem_flatMap.1 hm
        exact ⟨t, ht, ih t ht ▸ allowsNull_iff_union_parts.2 ⟨m, hmt, hnull⟩⟩
      · rintro ⟨t, ht, hnull⟩
        obtain ⟨m, hmt, hm⟩ := allowsNull_iff_union_parts.1 ((ih t ht).trans hnull)
        exact ⟨m, List.mem_flatMap.2 ⟨t, ht, hmt⟩, hm⟩
    | intersection =>
      rw [allowsNull_join_intersection (flatMap_simplify_ne_nil .intersection a b rest),
        List.forall_mem_flatMap, allowsNull_iff_intersection_parts (t := compound _ a b rest)]
      refine forall₂_congr fun t ht => ?_
      rw [← allowsNull_iff_intersection_parts, ih t ht]

/-- Two members or more stay two or more. -/
theorem kind_simplify (t : Ty) : t.simplify.kind = t.kind := by
  cases t with
  | compound c a b rest =>
    by_contra hk
    have hl := congrArg List.length (parts_simplify_compound c a b rest)
    have ha := List.length_pos_iff.2 (parts_ne_nil c a.simplify)
    have hb := List.length_pos_iff.2 (parts_ne_nil c b.simplify)
    rw [parts_of_kind_ne hk, List.flatMap_cons, List.flatMap_cons, List.length_append,
      List.length_append, List.length_singleton] at hl
    omega
  | _ => rfl

theorem parts_simplify (c : Combinator) (t : Ty) :
    t.simplify.parts c = (t.leaves c).map simplify := by
  induction t using combinator_induction c with
  | other t hk =>
    have hk' : t.simplify.kind ≠ c.kind := kind_simplify t ▸ hk
    rw [leaves_of_kind_ne hk, parts_of_kind_ne hk', List.map_singleton]
  | compound a b rest ih =>
    rw [parts_simplify_compound, leaves_compound, List.map_flatMap]
    exact List.flatMap_congr ih

theorem Matched.flatMap {f g : Ty → List Ty} {ts us : List Ty} (h : Matched ts us)
    (hfg : ∀ t ∈ ts, ∀ u, t.equiv u = true → Matched (f t) (g u)) :
    Matched (ts.flatMap f) (us.flatMap g) := by
  obtain ⟨vs, hp, hf⟩ := h
  have hpairs : Matched (ts.flatMap f) (vs.flatMap g) := by
    clear hp
    induction hf with
    | nil => exact matched_of_perm (List.Perm.refl [])
    | @cons t v ts vs htv _ ih =>
      rw [List.flatMap_cons, List.flatMap_cons]
      refine (hfg t List.mem_cons_self v htv).append (ih fun t' ht' => ?_)
      exact hfg t' (List.mem_cons_of_mem t ht')
  exact hpairs.trans (fun t _ => Ty.stable t) (matched_of_perm (hp.flatMap_right g))

theorem simplify_congr {t u : Ty} (he : t.equiv u = true) : t.simplify.equiv u.simplify = true := by
  induction t using members_induction generalizing u with
  | leaf t hm hel =>
    rw [simplify_leaf hm hel]
    cases u with
    | arrayOf u =>
      obtain ⟨_, rfl, -⟩ := equiv_arrayOf_cases (equiv_symm he)
      simp [elementType?] at hel
    | compound c x y more =>
      obtain ⟨_, _, _, rfl, -⟩ := equiv_compound_cases (equiv_symm he)
      simp [members] at hm
    | _ => exact he
  | arrayOf t ih =>
    obtain ⟨u, rfl, htu⟩ := equiv_arrayOf_cases he
    rw [simplify, simplify, equiv]
    exact ih htu
  | compound c a b rest ih =>
    obtain ⟨x, y, more, rfl, hp⟩ := equiv_compound_cases he
    rw [simplify_compound, simplify_compound]
    refine join_equiv c ((matched_of_pairOff hp).flatMap fun t ht u htu => ?_)
    exact parts_matched c (ih t ht htu)

/-- A simplified type has no union directly inside of a union and no intersection directly inside of
an intersection, and is left alone by a second simplification. It allows null exactly if the type
does, and equal types stay equal. Its parts are the simplified types that are left of the nesting. -/
theorem simplify_normal_form (t : Ty) :
    t.simplify.Flat ∧ t.simplify.simplify = t.simplify ∧
    t.simplify.allowsNull = t.allowsNull ∧
    (∀ u, t.equiv u = true → t.simplify.equiv u.simplify = true) ∧
    ∀ c, t.simplify.parts c = (t.leaves c).map simplify :=
  ⟨flat_simplify t, (flat_simplify t).simplify_eq, allowsNull_simplify t, fun _ => simplify_congr,
    fun c => parts_simplify c t⟩

/-- Unions inside of unions, once in an intersection and once in an array, in two orders. -/
theorem simplify_normal_form_nested :
    let inner := compound .union null (compound .union int float []) []
    let t := compound .union (arrayOf inner) (compound .intersection (named "A") inner []) [inner]
    let u := compound .union inner (arrayOf inner) [compound .intersection inner (named "a") []]
    t.equiv u = true ∧ t.simplify.equiv u.simplify = true ∧ t.simplify.allowsNull = true ∧
      t.simplify.parts .union = (t.leaves .union).map simplify ∧
      t.simplify.members.length = 5 := by
  intro inner t u
  have he : t.equiv u = true := by decide
  obtain ⟨-, -, hnull, hequiv, hparts⟩ := simplify_normal_form t
  exact ⟨he, hequiv u he, hnull.trans (by decide), hparts .union, by decide⟩

end TypeRecovery.Ty
