import Mathlib.Data.List.Induction
import TypeRecovery.Proofs.Equality
import TypeRecovery.Ty.Lattice

/-!
# Combining equal types

Equal types can be exchanged for each other in unions, intersections, removals and least upper
bounds. A list without repetitions is determined, up to equality and order, by which types it has a
member equal to; so it is enough to look at membership wherever repetitions are dropped.
-/
namespace TypeRecovery.Ty

/-- No two members are equal. -/
def Distinct (ts : List Ty) : Prop := ts.Pairwise fun a b => a.equiv b = false

/-- Every type of the first list is equal to one of the second. -/
def Covered (ts us : List Ty) : Prop := ∀ t ∈ ts, ∃ u ∈ us, t.equiv u = true

instance (ts us : List Ty) : Decidable (Covered ts us) :=
  inferInstanceAs (Decidable (∀ t ∈ ts, ∃ u ∈ us, t.equiv u = true))

theorem Covered.of_subset {ts us : List Ty} (h : ts ⊆ us) : Covered ts us :=
  fun t ht => ⟨t, h ht, equiv_refl t⟩

theorem Covered.trans {ts us vs : List Ty} (h : Covered ts us) (h' : Covered us vs) :
    Covered ts vs := by
  intro t ht
  obtain ⟨u, hu, htu⟩ := h t ht
  obtain ⟨v, hv, huv⟩ := h' u hu
  exact ⟨v, hv, equiv_trans htu huv⟩

theorem Covered.eq_nil {ts us : List Ty} (h : Covered ts us) (hus : us = []) : ts = [] := by
  refine List.eq_nil_iff_forall_not_mem.2 fun t ht => ?_
  obtain ⟨u, hu, -⟩ := h t ht
  rw [hus] at hu
  exact List.not_mem_nil hu

theorem covered_append {ts us vs : List Ty} :
    Covered (ts ++ us) vs ↔ Covered ts vs ∧ Covered us vs := by
  simp only [Covered, List.mem_append, or_imp, forall_and]

theorem Matched.covered {ts us : List Ty} (h : Matched ts us) : Covered ts us :=
  fun _ ht => h.exists_right ht

theorem matched_symm {ts us : List Ty} (h : Matched ts us) : Matched us ts :=
  h.symm fun t _ => stable t

theorem matched_of_perm {ts us : List Ty} (h : ts.Perm us) : Matched ts us :=
  ⟨ts, h, List.forall₂_same.2 fun t _ => equiv_refl t⟩

theorem matched_of_forall₂ {ts us : List Ty}
    (h : List.Forall₂ (fun t u => equiv t u = true) ts us) : Matched ts us :=
  ⟨us, List.Perm.refl us, h⟩

theorem matched_singleton {t u : Ty} (h : t.equiv u = true) : Matched [t] [u] :=
  matched_of_forall₂ (.cons h .nil)

theorem Matched.append {ts us ts' us' : List Ty} (h : Matched ts us) (h' : Matched ts' us') :
    Matched (ts ++ ts') (us ++ us') := by
  obtain ⟨vs, hp, hf⟩ := h
  obtain ⟨vs', hp', hf'⟩ := h'
  exact ⟨vs ++ vs', hp.append hp', List.rel_append hf hf'⟩

theorem Matched.length_eq {ts us : List Ty} (h : Matched ts us) : ts.length = us.length := by
  obtain ⟨vs, hp, hf⟩ := h
  rw [hf.length_eq, hp.length_eq]

theorem Distinct.perm {ts us : List Ty} (h : Distinct ts) (hp : ts.Perm us) : Distinct us := by
  refine List.Pairwise.perm h hp ?_
  intro a b hab
  rw [equiv_comm, hab]

/-- Two lists without repetitions that cover each other can be paired. -/
theorem matched_of_covered {ts us : List Ty} (ht : Distinct ts) (hu : Distinct us)
    (h : Covered ts us) (h' : Covered us ts) : Matched ts us := by
  induction ts generalizing us with
  | nil =>
    cases us with
    | nil => exact matched_of_perm (List.Perm.refl [])
    | cons u us =>
      obtain ⟨t, hmem, -⟩ := h' u List.mem_cons_self
      simp at hmem
  | cons t ts ih =>
    obtain ⟨u, hmem, htu⟩ := h t List.mem_cons_self
    obtain ⟨front, back, rfl⟩ := List.append_of_mem hmem
    have hp : (front ++ u :: back).Perm (u :: (front ++ back)) := List.perm_middle
    have hd := List.pairwise_cons.1 (hu.perm hp)
    have hd' := List.pairwise_cons.1 ht
    -- `t` and `u` are taken out, and nothing else is equal to either of them
    have hrest : Covered ts (front ++ back) := by
      intro s hs
      obtain ⟨v, hv, hsv⟩ := h s (List.mem_cons_of_mem t hs)
      rcases List.mem_cons.1 (hp.subset hv) with rfl | hv
      · have hts := equiv_trans htu (equiv_symm hsv)
        simp [hd'.1 s hs] at hts
      · exact ⟨v, hv, hsv⟩
    have hrest' : Covered (front ++ back) ts := by
      intro v hv
      obtain ⟨s, hs, hvs⟩ := h' v (hp.symm.subset (List.mem_cons_of_mem u hv))
      rcases List.mem_cons.1 hs with rfl | hs
      · have huv := equiv_symm (equiv_trans hvs htu)
        simp [hd.1 v hv] at huv
      · exact ⟨s, hs, hvs⟩
    obtain ⟨vs, hpv, hf⟩ := ih hd'.2 hd.2 hrest hrest'
    exact ⟨u :: vs, (hpv.cons u).trans hp.symm, .cons htu hf⟩

theorem unique_concat (ts : List Ty) (t : Ty) :
    unique (ts ++ [t]) = if (unique ts).any (equiv t) then unique ts else unique ts ++ [t] := by
  simp [unique]

theorem mem_of_mem_unique {ts : List Ty} {t : Ty} (h : t ∈ unique ts) : t ∈ ts := by
  induction ts using List.reverseRecOn with
  | nil => exact h
  | append_singleton ts u ih =>
    rw [unique_concat] at h
    by_cases hu : (unique ts).any (equiv u) = true
    · rw [if_pos hu] at h
      exact List.mem_append_left _ (ih h)
    · rw [if_neg hu, List.mem_append] at h
      exact List.mem_append.2 (h.imp_left ih)

theorem covered_unique (ts : List Ty) : Covered ts (unique ts) := by
  induction ts using List.reverseRecOn with
  | nil => simp [Covered]
  | append_singleton ts u ih =>
    rw [unique_concat]
    by_cases hu : (unique ts).any (equiv u) = true
    · rw [if_pos hu, covered_append]
      refine ⟨ih, fun t ht => ?_⟩
      rw [List.mem_singleton.1 ht]
      exact List.any_eq_true.1 hu
    · rw [if_neg hu, covered_append]
      exact ⟨ih.trans (.of_subset (List.subset_append_left _ _)),
        .of_subset (List.subset_append_right _ _)⟩

theorem unique_covered (ts : List Ty) : Covered (unique ts) ts :=
  .of_subset fun _ h => mem_of_mem_unique h

theorem distinct_unique (ts : List Ty) : Distinct (unique ts) := by
  induction ts using List.reverseRecOn with
  | nil => exact List.Pairwise.nil
  | append_singleton ts u ih =>
    rw [unique_concat]
    by_cases hu : (unique ts).any (equiv u) = true
    · rwa [if_pos hu]
    · rw [if_neg hu]
      refine List.pairwise_append.2 ⟨ih, List.pairwise_singleton _ _, ?_⟩
      intro t ht v hv
      rw [List.mem_singleton.1 hv, equiv_comm]
      simpa using fun h => hu (List.any_eq_true.2 ⟨t, ht, h⟩)

theorem unique_ne_nil {ts : List Ty} (h : ts ≠ []) : unique ts ≠ [] := by
  obtain ⟨t, ht⟩ := List.exists_mem_of_ne_nil ts h
  obtain ⟨u, hu, -⟩ := covered_unique ts t ht
  exact List.ne_nil_of_mem hu

/-- What is left without repetitions depends on membership only. -/
theorem unique_matched {ts us : List Ty} (h : Covered ts us) (h' : Covered us ts) :
    Matched (unique ts) (unique us) :=
  matched_of_covered (distinct_unique ts) (distinct_unique us)
    ((unique_covered ts).trans (h.trans (covered_unique us)))
    ((unique_covered us).trans (h'.trans (covered_unique ts)))

theorem parts_matched {a b : Ty} (c : Combinator) (h : a.equiv b = true) :
    Matched (a.parts c) (b.parts c) := by
  cases a with
  | compound d x y rest =>
    obtain ⟨x', y', rest', rfl, hp⟩ := equiv_compound_cases h
    by_cases hd : d = c
    · simpa [parts, hd] using matched_of_pairOff hp
    · simpa [parts, hd] using matched_singleton h
  | _ => cases b <;> first | exact matched_singleton h | simp [equiv, classKey?] at h

theorem join_equiv {ts us : List Ty} (c : Combinator) (h : Matched ts us) :
    (join c ts).equiv (join c us) = true := by
  match ts, us, h.length_eq with
  | [], [], _ => rfl
  | [t], [u], _ =>
    obtain ⟨v, hv, htv⟩ := h.exists_right List.mem_cons_self
    rwa [List.mem_singleton.1 hv] at htv
  | t :: t' :: ts, u :: u' :: us, _ => exact equiv_compound_iff.2 ⟨rfl, h⟩

theorem combine_congr {a a' b b' : Ty} (c : Combinator) (ha : a.equiv a' = true)
    (hb : b.equiv b' = true) : (combine c a b).equiv (combine c a' b') = true := by
  rw [combine, combine, equiv_congr ha hb]
  by_cases h : a'.equiv b' = true
  · rwa [if_pos h, if_pos h]
  · rw [if_neg h, if_neg h]
    have hm := (parts_matched c ha).append (parts_matched c hb)
    exact join_equiv c (unique_matched hm.covered (matched_symm hm).covered)

theorem foldl_congr {f : Ty → Ty → Ty}
    (hf : ∀ a a' b b', a.equiv a' = true → b.equiv b' = true → (f a b).equiv (f a' b') = true)
    {ts us : List Ty} (h : List.Forall₂ (fun t u => equiv t u = true) ts us) {a a' : Ty}
    (ha : a.equiv a' = true) : (ts.foldl f a).equiv (us.foldl f a') = true := by
  induction h generalizing a a' with
  | nil => exact ha
  | cons htu _ ih => exact ih (hf _ _ _ _ ha htu)

theorem combineAll?_eq_none {c : Combinator} {ts : List Ty} : combineAll? c ts = none ↔ ts = [] := by
  cases ts <;> simp [combineAll?]

theorem Matched.filter {ts us : List Ty} {p q : Ty → Bool}
    (hpq : ∀ t u, equiv t u = true → p t = q u) (h : Matched ts us) :
    Matched (ts.filter p) (us.filter q) := by
  obtain ⟨vs, hp, hf⟩ := h
  refine ⟨vs.filter q, hp.filter q, ?_⟩
  clear hp
  induction hf with
  | nil => exact .nil
  | @cons t v ts vs htv _ ih =>
    rw [List.filter_cons, List.filter_cons, hpq t v htv]
    by_cases hq : q v = true
    · rw [if_pos hq, if_pos hq]
      exact .cons htv ih
    · rwa [if_neg hq, if_neg hq]

theorem remove_of_equiv {u t : Ty} (h : u.equiv t = true) : u.remove t = null := by
  unfold remove
  rw [if_pos h]

theorem remove_of_kind_ne {u t : Ty} (h : u.equiv t = false) (hk : u.kind ≠ .union) :
    u.remove t = u := by
  unfold remove
  rw [h]
  cases u with
  | compound d x y rest =>
    cases d with
    | union => exact absurd rfl hk
    | intersection => rfl
  | _ => rfl

/-- A union loses its members equal to `t`, and is `null` without any. -/
theorem remove_union {a b t : Ty} {rest : List Ty}
    (h : (compound .union a b rest).equiv t = false) :
    (compound .union a b rest).remove t =
      if ((a :: b :: rest).filter fun m => !m.equiv t) = [] then null
      else join .union ((a :: b :: rest).filter fun m => !m.equiv t) := by
  simp only [remove, h, Bool.false_eq_true, if_false]
  generalize (a :: b :: rest).filter (fun m => !m.equiv t) = kept
  cases kept <;> rfl

theorem remove_congr {u u' t t' : Ty} (hu : u.equiv u' = true) (ht : t.equiv t' = true) :
    (u.remove t).equiv (u'.remove t') = true := by
  have hcond := equiv_congr hu ht
  by_cases h : u'.equiv t' = true
  · rw [remove_of_equiv h, remove_of_equiv (hcond.trans h)]
    rfl
  rw [Bool.not_eq_true] at h
  rw [h] at hcond
  by_cases hk : u.kind = .union
  · obtain ⟨x, y, rest, rfl⟩ := exists_of_kind_eq (d := .union) hk
    obtain ⟨x', y', rest', rfl, hp⟩ := equiv_compound_cases hu
    rw [remove_union hcond, remove_union h]
    have hm := (matched_of_pairOff hp).filter (p := fun m => !m.equiv t)
      (q := fun m => !m.equiv t') fun m n hmn => by rw [equiv_congr hmn ht]
    have hnil : ((x :: y :: rest).filter fun m => !m.equiv t) = [] ↔
        ((x' :: y' :: rest').filter fun m => !m.equiv t') = [] := by
      rw [← List.length_eq_zero_iff, ← List.length_eq_zero_iff, hm.length_eq]
    simp only [hnil]
    split
    · rfl
    · exact join_equiv .union hm
  · rw [remove_of_kind_ne hcond hk, remove_of_kind_ne h (kind_eq_of_equiv hu ▸ hk)]
    exact hu

theorem isUnknown_congr {a b : Ty} (h : a.equiv b = true) : a.isUnknown = b.isUnknown := by
  rw [isUnknown, isUnknown, kind_eq_of_equiv h]

theorem lub_congr {a a' b b' : Ty} (ha : a.equiv a' = true) (hb : b.equiv b' = true) :
    (lub a b).equiv (lub a' b') = true := by
  rw [lub, lub, isUnknown_congr ha, isUnknown_congr hb]
  by_cases h : a'.isUnknown = true
  · rwa [if_pos h, if_pos h]
  · by_cases h' : b'.isUnknown = true
    · rwa [if_neg h, if_neg h, if_pos h', if_pos h']
    · rw [if_neg h, if_neg h, if_neg h', if_neg h']
      exact combine_congr .union ha hb

end TypeRecovery.Ty
