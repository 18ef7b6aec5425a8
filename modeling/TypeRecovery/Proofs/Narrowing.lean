import TypeRecovery.Proofs.Bounds

/-!
# Narrowing by removal

Where a value is known not to be of type `t`, its type is narrowed by the removal of `t`. Nothing is
lost by that: what is left, together with `t`, takes everything that the type took. And where some
member of a simplified union is left, the union without the others is narrower and free of `t`.
-/
namespace TypeRecovery.Ty

variable {h : Hierarchy}

theorem namesPresent_remove {u : Ty} (hu : NamesPresent u) (t : Ty) : NamesPresent (u.remove t) :=
  everywhere_remove (by simp) (by simp) hu t

/-- What is left of a union that has some member different from `t`. -/
theorem remove_eq_join {a b t : Ty} {rest : List Ty}
    (he : (compound .union a b rest).equiv t = false)
    (hex : ∃ m ∈ a :: b :: rest, m.equiv t = false) :
    ((a :: b :: rest).filter fun m => !m.equiv t) ≠ [] ∧
      (compound .union a b rest).remove t =
        join .union ((a :: b :: rest).filter fun m => !m.equiv t) := by
  obtain ⟨m, hm, hmt⟩ := hex
  have hne : ((a :: b :: rest).filter fun m => !m.equiv t) ≠ [] :=
    List.ne_nil_of_mem (List.mem_filter.2 ⟨hm, by rw [hmt]; rfl⟩)
  exact ⟨hne, by rw [remove_union he, if_neg hne]⟩

/-- A type fits where `t` and what is left of it without `t` fit. -/
theorem fits_of_remove {u t b : Ty} (hu : NamesPresent u) (ht : NamesPresent t)
    (hb : NamesPresent b) (hr : fits h (u.remove t) b = true) (htb : fits h t b = true) :
    fits h u b = true := by
  have hequal {m : Ty} (hm : NamesPresent m) (he : m.equiv t = true) : fits h m b = true :=
    fits_exchange ht hm hb hb (equiv_symm he) (equiv_refl b) htb
  by_cases he : u.equiv t = true
  · exact hequal hu he
  rw [Bool.not_eq_true] at he
  by_cases hk : u.kind = .union
  · obtain ⟨x, y, rest, rfl⟩ := exists_of_kind_eq (d := .union) hk
    refine fits_union_iff.2 fun m hm => ?_
    by_cases hmt : m.equiv t = true
    · exact hequal ((everywhere_compound.1 hu).2 m hm) hmt
    · rw [Bool.not_eq_true] at hmt
      obtain ⟨hne, hjoin⟩ := remove_eq_join he ⟨m, hm, hmt⟩
      rw [hjoin, fits_join_union hne] at hr
      exact hr m (List.mem_filter.2 ⟨hm, by rw [hmt]; rfl⟩)
  · rwa [remove_of_kind_ne he hk] at hr

section Flat

variable {u t : Ty} (hflat : u.Flat) (hk : u.kind = .union) (he : u.equiv t = false)
  (hex : ∃ m ∈ u.members, m.equiv t = false)

include hflat hk he hex

/-- A single member that is left of a flat union cannot be taken for a union. -/
theorem parts_remove : (u.remove t).parts .union = (u.parts .union).filter fun m => !m.equiv t := by
  obtain ⟨x, y, rest, rfl⟩ := exists_of_kind_eq (d := .union) hk
  obtain ⟨hne, hjoin⟩ := remove_eq_join he hex
  obtain ⟨m, hm⟩ := List.exists_mem_of_ne_nil _ hne
  rw [hjoin]
  exact parts_join hm (hflat.flatAt .union m (List.mem_filter.1 hm).1)

theorem remove_fits : fits h (u.remove t) u = true := by
  refine fits_of_covered (.of_subset ?_)
  rw [parts_remove hflat hk he hex]
  exact List.filter_subset_self _

theorem not_equiv_of_mem_parts_remove {m : Ty} (hm : m ∈ (u.remove t).parts .union) :
    m.equiv t = false := by
  rw [parts_remove hflat hk he hex] at hm
  simpa using (List.mem_filter.1 hm).2

/-- If `t` is a union itself, no member is equal to it and nothing is removed; if not, what is left
could be equal to it only as the single member that is left. -/
theorem remove_not_equiv : (u.remove t).equiv t = false := by
  rw [Bool.eq_false_iff]
  intro heq
  by_cases hkt : t.kind = .union
  · obtain ⟨x, y, rest, rfl⟩ := exists_of_kind_eq (d := .union) hk
    have hall : ((x :: y :: rest).filter fun m => !m.equiv t) = x :: y :: rest := by
      refine List.filter_eq_self.2 fun m hm => ?_
      have hmt : m.equiv t ≠ true := not_equiv_of_kind (hkt ▸ hflat.flatAt .union m hm)
      simpa using hmt
    rw [(remove_eq_join he hex).2, hall] at heq
    exact absurd heq (by simpa [join] using he)
  · have hself : u.remove t ∈ (u.remove t).parts .union := by
      rw [parts_of_kind_ne (c := .union) (kind_eq_of_equiv heq ▸ hkt)]
      exact List.mem_singleton_self _
    rw [not_equiv_of_mem_parts_remove hflat hk he hex hself] at heq
    exact absurd heq (by decide)

end Flat

/-- Over any hierarchy, a type fits the union of `t` with what is left of it without `t`. Where `t` is
neither equal to a simplified union nor to all its members, what is left of the union fits it, is not
equal to `t` and is no union with a member equal to `t`. -/
theorem fits_remove_unionWith (h : Hierarchy) {u t : Ty} (hu : NamesPresent u)
    (ht : NamesPresent t) :
    fits h u ((u.remove t).unionWith t) = true ∧
    (u.simplify = u → u.kind = .union → u.equiv t = false → (∃ m ∈ u.members, m.equiv t = false) →
      fits h (u.remove t) u = true ∧ (u.remove t).equiv t = false ∧
        ¬((u.remove t).kind = .union ∧ ∃ m ∈ (u.remove t).members, m.equiv t = true)) := by
  have hr := namesPresent_remove hu t
  have hb : NamesPresent ((u.remove t).unionWith t) := namesPresent_combine hr ht
  have hbound := (fits_combine_union hr ht hb).1 (fits_refl h _)
  refine ⟨fits_of_remove hu ht hb hbound.1 hbound.2, fun hs hk he hex => ?_⟩
  have hflat := simplify_eq_self_iff.1 hs
  refine ⟨remove_fits hflat hk he hex, remove_not_equiv hflat hk he hex, ?_⟩
  rintro ⟨hkr, m, hm, hmt⟩
  have hparts : m ∈ (u.remove t).parts .union := by
    simpa [parts_eq_ite, Combinator.kind, hkr] using hm
  rw [not_equiv_of_mem_parts_remove hflat hk he hex hparts] at hmt
  exact absurd hmt (by decide)

/-- `Foo` stands twice in the union and is removed under another spelling; two members are left. -/
theorem fits_remove_unionWith_repeating :
    let u := compound .union (named "Foo") null [arrayOf int, named "FOO"]
    let t := named "foo"
    NamesPresent u ∧ NamesPresent t ∧ u.simplify = u ∧ u.kind = .union ∧ u.equiv t = false ∧
      (∃ m ∈ u.members, m.equiv t = false) ∧
      u.remove t = compound .union null (arrayOf int) [] ∧
      fits .empty u ((u.remove t).unionWith t) = true ∧ fits .empty (u.remove t) u = true ∧
      (u.remove t).equiv t = false := by
  intro u t
  have hu : NamesPresent u := by simp [u, NamesPresent, Everywhere, EverywhereAll]
  have ht : NamesPresent t := by simp [t, NamesPresent, Everywhere]
  have he : u.equiv t = false := by decide
  have hex : ∃ m ∈ u.members, m.equiv t = false := ⟨null, by simp [u, members], by decide⟩
  obtain ⟨hcover, hnarrow⟩ := fits_remove_unionWith .empty hu ht
  obtain ⟨hfits, hne, -⟩ := hnarrow rfl rfl he hex
  exact ⟨hu, ht, rfl, rfl, he, hex, by rfl, hcover, hfits, hne⟩

end TypeRecovery.Ty
