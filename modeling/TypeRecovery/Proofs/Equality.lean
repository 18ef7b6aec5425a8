import Mathlib.Data.List.Perm.Basic
import TypeRecovery.Proofs.Subterms
import TypeRecovery.Ty.Equiv

/-!
# Equality of types is an equivalence

Members of compounds are paired off greedily: each takes the first equal one that is left. Because
equality is an equivalence, the greedy choice never fails where some pairing exists. Both facts
depend on each other and are proved together by induction on the first type.
-/
namespace TypeRecovery.Ty

theorem equiv_compound (c d : Combinator) (x y x' y' : Ty) (rest rest' : List Ty) :
    equiv (compound c x y rest) (compound d x' y' rest') =
      (c == d && pairOff (x :: y :: rest) (x' :: y' :: rest')) := by
  rw [equiv, pairOff]
  congr 1

theorem equiv_compound_cases {c : Combinator} {x y b : Ty} {rest : List Ty}
    (h : equiv (compound c x y rest) b = true) :
    ∃ x' y' rest', b = compound c x' y' rest' ∧
      pairOff (x :: y :: rest) (x' :: y' :: rest') = true := by
  cases b with
  | compound d x' y' rest' =>
    rw [equiv_compound, Bool.and_eq_true, beq_iff_eq] at h
    obtain ⟨rfl, h⟩ := h
    exact ⟨x', y', rest', rfl, h⟩
  | _ => simp [equiv] at h

theorem equiv_arrayOf_cases {t b : Ty} (h : equiv (arrayOf t) b = true) :
    ∃ u, b = arrayOf u ∧ equiv t u = true := by
  cases b with
  | arrayOf u => exact ⟨u, rfl, by simpa only [equiv] using h⟩
  | _ => simp [equiv] at h

/-- The members of one list in some order are equal to those of the other, one by one. -/
def Matched (ts us : List Ty) : Prop :=
  ∃ vs, vs.Perm us ∧ List.Forall₂ (fun t v => equiv t v = true) ts vs

theorem pluck_perm {p : Ty → Bool} {us others : List Ty} (h : pluck p us = some others) :
    ∃ u, p u = true ∧ (u :: others).Perm us := by
  induction us generalizing others with
  | nil => simp [pluck] at h
  | cons u us ih =>
    by_cases hu : p u = true
    · simp only [pluck, hu, if_true, Option.some.injEq] at h
      exact ⟨u, hu, h ▸ List.Perm.refl _⟩
    · simp only [pluck, hu] at h
      obtain ⟨others', ho, rfl⟩ := Option.map_eq_some_iff.1 h
      obtain ⟨v, hv, hp⟩ := ih ho
      exact ⟨v, hv, (List.Perm.swap u v others').trans (hp.cons u)⟩

theorem pluck_isSome {p : Ty → Bool} {us : List Ty} {u : Ty} (hu : u ∈ us) (hp : p u = true) :
    ∃ others, pluck p us = some others := by
  induction us with
  | nil => simp at hu
  | cons v us ih =>
    by_cases hv : p v = true
    · exact ⟨us, by simp [pluck, hv]⟩
    · rcases List.mem_cons.1 hu with rfl | hu
      · exact absurd hp hv
      · obtain ⟨others, ho⟩ := ih hu
        exact ⟨v :: others, by simp [pluck, hv, ho]⟩

theorem matched_of_pairOff {ts us : List Ty} (h : pairOff ts us = true) : Matched ts us := by
  induction ts generalizing us with
  | nil =>
    simp only [pairOff, List.isEmpty_iff] at h
    exact ⟨[], h ▸ List.Perm.refl _, .nil⟩
  | cons t ts ih =>
    rw [pairOff] at h
    cases hp : pluck (equiv t) us with
    | none => simp [hp] at h
    | some others =>
      simp only [hp] at h
      obtain ⟨u, hu, hperm⟩ := pluck_perm hp
      obtain ⟨vs, hvs, hf⟩ := ih h
      exact ⟨u :: vs, (hvs.cons u).trans hperm, .cons hu hf⟩

/-- Types equal to `t` are equal to the same types as `t`. -/
def Stable (t : Ty) : Prop := ∀ u, equiv t u = true → ∀ v, equiv t v = equiv u v

theorem Stable.of_equiv {t u : Ty} (ht : Stable t) (h : equiv t u = true) : Stable u := by
  intro v hv w
  have htv : equiv t v = true := by rw [ht u h, hv]
  rw [← ht u h, ht v htv]

/-- In a pairing, `v` may take the place of `u`. -/
theorem forall₂_swap {ts vs : List Ty} {u v : Ty}
    (hf : List.Forall₂ (fun t v => equiv t v = true) ts vs) (hu : u ∈ v :: vs)
    (huv : ∀ t ∈ ts, equiv t u = true → equiv t v = true) :
    ∃ vs', (u :: vs').Perm (v :: vs) ∧ List.Forall₂ (fun t v => equiv t v = true) ts vs' := by
  rcases List.mem_cons.1 hu with rfl | hu
  · exact ⟨vs, List.Perm.refl _, hf⟩
  induction hf with
  | nil => simp at hu
  | @cons t w ts ws htw hf ih =>
    rcases List.mem_cons.1 hu with rfl | hu'
    · exact ⟨v :: ws, List.Perm.swap v u ws, .cons (huv t List.mem_cons_self htw) hf⟩
    · obtain ⟨ws', hp, hf'⟩ := ih (List.mem_cons_of_mem v hu')
        (fun s hs => huv s (List.mem_cons_of_mem t hs)) hu'
      exact ⟨w :: ws', (List.Perm.swap w u ws').trans ((hp.cons w).trans (List.Perm.swap v w ws)),
        .cons htw hf'⟩

/-- Where some pairing exists, the first equal member that is left may be taken: whoever it was
meant for can have the other one instead. -/
theorem Matched.pairOff {ts us : List Ty} (hs : ∀ t ∈ ts, Stable t) (h : Matched ts us) :
    pairOff ts us = true := by
  induction ts generalizing us with
  | nil =>
    obtain ⟨vs, hp, hf⟩ := h
    cases hf
    simp [Ty.pairOff, hp.nil_eq.symm]
  | cons t ts ih =>
    obtain ⟨_, hp, hcons⟩ := h
    obtain ⟨v, vs, htv, hf, rfl⟩ := List.forall₂_cons_left_iff.1 hcons
    obtain ⟨others, ho⟩ := pluck_isSome (hp.subset List.mem_cons_self) htv
    obtain ⟨u, htu, hpu⟩ := pluck_perm ho
    have huv : ∀ s ∈ ts, equiv s u = true → equiv s v = true := by
      intro s hs' hsu
      rw [hs s (List.mem_cons_of_mem t hs') u hsu, ← hs t List.mem_cons_self u htu, htv]
    have hu : u ∈ v :: vs := hp.symm.subset (hpu.subset List.mem_cons_self)
    obtain ⟨vs', hp', hf'⟩ := forall₂_swap hf hu huv
    rw [Ty.pairOff, ho]
    refine ih (fun x hx => hs x (List.mem_cons_of_mem t hx)) ⟨vs', ?_, hf'⟩
    exact (hp'.trans (hp.trans hpu.symm)).cons_inv

theorem equiv_refl (t : Ty) : equiv t t = true := by
  induction t using members_induction with
  | leaf t hm he => cases t <;> simp_all [equiv, classKey?, members, elementType?]
  | arrayOf t ih => rwa [equiv]
  | compound c a b rest ih =>
    rw [equiv_compound, beq_self_eq_true, Bool.true_and]
    have hself (ts : List Ty) (h : ∀ t ∈ ts, equiv t t = true) : pairOff ts ts = true := by
      induction ts with
      | nil => rfl
      | cons t ts ih =>
        rw [pairOff, pluck, if_pos (h t List.mem_cons_self)]
        exact ih fun x hx => h x (List.mem_cons_of_mem t hx)
    exact hself _ ih

theorem Stable.symm {t u : Ty} (ht : Stable t) (h : equiv t u = true) : equiv u t = true := by
  rw [← ht u h, equiv_refl]

theorem Matched.symm {ts us : List Ty} (hs : ∀ t ∈ ts, Stable t) (h : Matched ts us) :
    Matched us ts := by
  obtain ⟨us', hp, hf⟩ := h
  have hf' : List.Forall₂ (fun u t => equiv u t = true) us' ts := by
    clear hp
    induction hf with
    | nil => exact .nil
    | @cons t u ts us htu _ ih =>
      exact .cons ((hs t List.mem_cons_self).symm htu)
        (ih fun x hx => hs x (List.mem_cons_of_mem t hx))
  obtain ⟨ws, hf', hp'⟩ := List.perm_comp_forall₂ hp.symm hf'
  exact ⟨ws, hp', hf'⟩

theorem Matched.trans {ts us vs : List Ty} (hs : ∀ t ∈ ts, Stable t) (h : Matched ts us)
    (h' : Matched us vs) : Matched ts vs := by
  obtain ⟨us', hp, hf⟩ := h
  obtain ⟨vs', hp', hf'⟩ := h'
  obtain ⟨ws, hf', hpw⟩ := List.perm_comp_forall₂ hp hf'
  refine ⟨ws, hpw.trans hp', ?_⟩
  clear hp hpw
  induction hf generalizing ws with
  | nil => cases hf'; exact .nil
  | @cons t u ts us htu _ ih =>
    obtain ⟨w, ws, huw, hf'', rfl⟩ := List.forall₂_cons_left_iff.1 hf'
    refine .cons ?_ (ih (fun x hx => hs x (List.mem_cons_of_mem t hx)) ws hf'')
    rwa [hs t List.mem_cons_self u htu]

theorem Matched.stable {ts us : List Ty} (hs : ∀ t ∈ ts, Stable t) (h : Matched ts us) :
    ∀ u ∈ us, Stable u := by
  obtain ⟨us', hp, hf⟩ := h
  intro u hu
  replace hu := hp.symm.subset hu
  clear hp
  induction hf with
  | nil => simp at hu
  | @cons t v ts us htv _ ih =>
    rcases List.mem_cons.1 hu with rfl | hu
    · exact (hs t List.mem_cons_self).of_equiv htv
    · exact ih (fun x hx => hs x (List.mem_cons_of_mem t hx)) hu

theorem stable (t : Ty) : Stable t := by
  induction t using members_induction with
  | leaf t hm he =>
    intro u hu v
    cases t <;> cases u <;> simp_all [equiv, classKey?, members, elementType?]
  | arrayOf t ih =>
    intro u hu v
    obtain ⟨u, rfl, htu⟩ := equiv_arrayOf_cases hu
    cases v with
    | arrayOf v => rw [equiv, equiv, ih u htu]
    | _ => rfl
  | compound c a b rest ih =>
    intro u hu v
    obtain ⟨x, y, more, rfl, hp⟩ := equiv_compound_cases hu
    have hm := matched_of_pairOff hp
    cases v with
    | compound d x' y' more' =>
      rw [equiv_compound, equiv_compound]
      congr 1
      rw [Bool.eq_iff_iff]
      constructor
      · intro h
        have hm' := matched_of_pairOff h
        exact ((hm.symm ih).trans (hm.stable ih) hm').pairOff (hm.stable ih)
      · intro h
        exact (hm.trans ih (matched_of_pairOff h)).pairOff ih
    | _ => rfl

theorem equiv_symm {a b : Ty} (h : equiv a b = true) : equiv b a = true := (stable a).symm h

theorem equiv_comm (a b : Ty) : equiv a b = equiv b a := by
  rw [Bool.eq_iff_iff]
  exact ⟨equiv_symm, equiv_symm⟩

theorem equiv_trans {a b c : Ty} (h : equiv a b = true) (h' : equiv b c = true) :
    equiv a c = true := by
  rw [stable a b h, h']

theorem equiv_congr {a a' b b' : Ty} (ha : equiv a a' = true) (hb : equiv b b' = true) :
    equiv a b = equiv a' b' := by
  rw [stable a a' ha, equiv_comm, stable b b' hb, equiv_comm]

theorem pairOff_iff {ts us : List Ty} : pairOff ts us = true ↔ Matched ts us :=
  ⟨matched_of_pairOff, fun h => h.pairOff fun t _ => stable t⟩

theorem Matched.exists_right {ts us : List Ty} (h : Matched ts us) {t : Ty} (ht : t ∈ ts) :
    ∃ u ∈ us, equiv t u = true := by
  obtain ⟨vs, hp, hf⟩ := h
  obtain ⟨i, hi, rfl⟩ := List.getElem_of_mem ht
  have hiv : i < vs.length := hf.length_eq ▸ hi
  exact ⟨vs[i], hp.subset (List.getElem_mem hiv), hf.get hi hiv⟩

theorem Matched.exists_left {ts us : List Ty} (h : Matched ts us) {u : Ty} (hu : u ∈ us) :
    ∃ t ∈ ts, equiv t u = true := by
  obtain ⟨t, ht, hut⟩ := (h.symm fun t _ => Ty.stable t).exists_right hu
  exact ⟨t, ht, equiv_symm hut⟩

theorem kind_eq_of_equiv {a b : Ty} (h : equiv a b = true) : a.kind = b.kind := by
  cases a with
  | compound c x y rest =>
    obtain ⟨x', y', rest', rfl, -⟩ := equiv_compound_cases h
    rfl
  | arrayOf t =>
    obtain ⟨u, rfl, -⟩ := equiv_arrayOf_cases h
    rfl
  | _ => cases b <;> simp_all [equiv, classKey?, kind]

/-- Compounds are equal when they combine in the same way and their members can be paired. -/
theorem equiv_compound_iff {c d : Combinator} {x y x' y' : Ty} {rest rest' : List Ty} :
    equiv (compound c x y rest) (compound d x' y' rest') = true ↔
      c = d ∧ Matched (x :: y :: rest) (x' :: y' :: rest') := by
  rw [equiv_compound, Bool.and_eq_true, beq_iff_eq, pairOff_iff]

end TypeRecovery.Ty
