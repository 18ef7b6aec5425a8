import TypeRecovery.Proofs.Flatness

/-!
# Combinations of many types

Types are combined one after the other, and what comes out depends on the order only up to equality
as long as their parts cannot be taken apart further. `Gathers` says what a combination of some
types comes to without mentioning an order: its parts are the parts of all of them, and it has no
part twice, unless all of the types are the same. The laws of a semilattice for unions and
intersections of simplified types are read off from it, and so is what the least upper bound of many
types comes to, of which those that are unknown count for nothing.
-/
namespace TypeRecovery.Ty

structure Gathers (c : Combinator) (inputs : List Ty) (r : Ty) : Prop where
  covered : Covered (r.parts c) (inputs.flatMap (parts c))
  covers : Covered (inputs.flatMap (parts c)) (r.parts c)
  repeats : (∀ t ∈ inputs, t.equiv r = true) ∨
    Distinct (r.parts c) ∧ ∃ t ∈ inputs, ∃ u ∈ inputs, t.equiv u = false

theorem gathers_singleton (c : Combinator) (t : Ty) : Gathers c [t] t where
  covered := by simp [Covered.of_subset]
  covers := by simp [Covered.of_subset]
  repeats := by simp [equiv_refl]

theorem combine_of_equiv {c : Combinator} {a b : Ty} (h : a.equiv b = true) : combine c a b = a := by
  rw [combine, if_pos h]

/-- The parts of a combination of different types. -/
theorem parts_combine {c : Combinator} {a b : Ty} (hb : b.FlatAt c) (h : a.equiv b = false) :
    (combine c a b).parts c = unique (a.parts c ++ b.parts c) := by
  have hne : ¬a.equiv b = true := by rw [h]; decide
  rw [combine, if_neg hne]
  -- some part of `b` is there, and no part of `b` can be taken apart
  obtain ⟨m, hm⟩ := List.exists_mem_of_ne_nil _ (parts_ne_nil c b)
  obtain ⟨u, hu, hmu⟩ := covered_unique (a.parts c ++ b.parts c) m (List.mem_append_right _ hm)
  exact parts_join hu (kind_eq_of_equiv hmu ▸ hb m hm)

theorem covered_parts_combine {c : Combinator} {a b : Ty} (hb : b.FlatAt c) :
    Covered ((combine c a b).parts c) (a.parts c ++ b.parts c) ∧
      Covered (a.parts c ++ b.parts c) ((combine c a b).parts c) := by
  cases h : a.equiv b with
  | true =>
    rw [combine_of_equiv h]
    refine ⟨.of_subset (List.subset_append_left _ _), covered_append.2 ⟨?_, ?_⟩⟩
    · exact .of_subset (List.Subset.refl _)
    · exact (parts_matched c (equiv_symm h)).covered
  | false =>
    rw [parts_combine hb h]
    exact ⟨unique_covered _, covered_unique _⟩

theorem Covered.append {ts us vs ws : List Ty} (h : Covered ts vs) (h' : Covered us ws) :
    Covered (ts ++ us) (vs ++ ws) :=
  covered_append.2 ⟨h.trans (.of_subset (List.subset_append_left _ _)),
    h'.trans (.of_subset (List.subset_append_right _ _))⟩

theorem Gathers.combine {c : Combinator} {inputs : List Ty} {r t : Ty} (h : Gathers c inputs r)
    (hne : inputs ≠ []) (ht : t.FlatAt c) : Gathers c (inputs ++ [t]) (combine c r t) where
  covered := by
    rw [List.flatMap_append, List.flatMap_singleton]
    exact (covered_parts_combine ht).1.trans (h.covered.append (.of_subset (List.Subset.refl _)))
  covers := by
    rw [List.flatMap_append, List.flatMap_singleton]
    exact (h.covers.append (.of_subset (List.Subset.refl _))).trans (covered_parts_combine ht).2
  repeats := by
    cases hrt : r.equiv t with
    | true =>
      rw [combine_of_equiv hrt]
      rcases h.repeats with hall | ⟨hd, a, ha, b, hb, hab⟩
      · left
        intro u hu
        rcases List.mem_append.1 hu with hu | hu
        · exact hall u hu
        · rw [List.mem_singleton.1 hu]
          exact equiv_symm hrt
      · exact Or.inr ⟨hd, a, List.mem_append_left _ ha, b, List.mem_append_left _ hb, hab⟩
    | false =>
      rw [parts_combine ht hrt]
      refine Or.inr ⟨distinct_unique _, ?_⟩
      rcases h.repeats with hall | ⟨-, a, ha, b, hb, hab⟩
      · obtain ⟨u, hu⟩ := List.exists_mem_of_ne_nil inputs hne
        refine ⟨u, List.mem_append_left _ hu, t, by simp, ?_⟩
        rw [equiv_congr (hall u hu) (equiv_refl t), hrt]
      · exact ⟨a, List.mem_append_left _ ha, b, List.mem_append_left _ hb, hab⟩

theorem Gathers.foldl {c : Combinator} {inputs ts : List Ty} {r : Ty} (h : Gathers c inputs r)
    (hne : inputs ≠ []) (ht : ∀ t ∈ ts, t.FlatAt c) :
    Gathers c (inputs ++ ts) (ts.foldl (Ty.combine c) r) := by
  induction ts generalizing inputs r with
  | nil => rwa [List.append_nil]
  | cons t ts ih =>
    have hstep := h.combine hne (ht t List.mem_cons_self)
    have := ih hstep (by simp) fun u hu => ht u (List.mem_cons_of_mem t hu)
    rwa [List.append_assoc] at this

theorem gathers_foldl {c : Combinator} {t : Ty} {ts : List Ty} (h : ∀ u ∈ ts, u.FlatAt c) :
    Gathers c (t :: ts) (ts.foldl (combine c) t) :=
  (gathers_singleton c t).foldl (by simp) h

theorem Covered.flatMap_parts {ts us : List Ty} (c : Combinator) (h : Covered ts us) :
    Covered (ts.flatMap (parts c)) (us.flatMap (parts c)) := by
  intro m hm
  obtain ⟨t, ht, hmt⟩ := List.mem_flatMap.1 hm
  obtain ⟨u, hu, htu⟩ := h t ht
  obtain ⟨n, hn, hmn⟩ := (parts_matched c htu).exists_right hmt
  exact ⟨n, List.mem_flatMap.2 ⟨u, hu, hn⟩, hmn⟩

theorem equiv_of_matched_parts {c : Combinator} {a b : Ty} (h : Matched (a.parts c) (b.parts c)) :
    a.equiv b = true := by
  rw [← join_parts c a, ← join_parts c b]
  exact join_equiv c h

/-- Where all types of one list are the same, so are those of a list that covers it. -/
theorem Gathers.uniform {c : Combinator} {ts us : List Ty} {r r' : Ty} (h' : Gathers c us r')
    (huse : us ≠ []) (hut : Covered us ts) (hall : ∀ t ∈ ts, t.equiv r = true) :
    r.equiv r' = true := by
  have hall' : ∀ u ∈ us, u.equiv r = true := by
    intro u hu
    obtain ⟨t, ht, hut⟩ := hut u hu
    exact equiv_trans hut (hall t ht)
  rcases h'.repeats with hsame | ⟨-, a, ha, b, hb, hab⟩
  · obtain ⟨u, hu⟩ := List.exists_mem_of_ne_nil us huse
    exact equiv_trans (equiv_symm (hall' u hu)) (hsame u hu)
  · rw [equiv_trans (hall' a ha) (equiv_symm (hall' b hb))] at hab
    exact absurd hab (by decide)

/-- A combination is determined by the types that it combines, whatever their order. -/
theorem Gathers.equiv {c : Combinator} {ts us : List Ty} {r r' : Ty} (h : Gathers c ts r)
    (h' : Gathers c us r') (hts : ts ≠ []) (hus : us ≠ []) (htu : Covered ts us)
    (hut : Covered us ts) : r.equiv r' = true := by
  rcases h.repeats with hall | ⟨hd, -⟩
  · exact h'.uniform hus hut hall
  rcases h'.repeats with hall | ⟨hd', -⟩
  · exact equiv_symm (h.uniform hts htu hall)
  · refine equiv_of_matched_parts (matched_of_covered hd hd' ?_ ?_)
    · exact h.covered.trans ((htu.flatMap_parts c).trans h'.covers)
    · exact h'.covered.trans ((hut.flatMap_parts c).trans h.covers)

/-- What a semilattice asks of an operation, at three types and up to equality; and that what the
operation makes of simplified types is simplified. -/
structure SemilatticeAt (op : Ty → Ty → Ty) (a b c : Ty) : Prop where
  comm : (op a b).equiv (op b a) = true
  assoc : (op (op a b) c).equiv (op a (op b c)) = true
  idem : (op a a).equiv a = true
  congr : ∀ a' b', a.equiv a' = true → b.equiv b' = true → (op a b).equiv (op a' b') = true
  absorb : (op (op a b) b).equiv (op a b) = true
  simplified : (op a b).simplify = op a b

section

variable {k : Combinator} {a b c : Ty}

theorem gathers_combine (hb : b.FlatAt k) : Gathers k [a, b] (combine k a b) :=
  (gathers_singleton k a).combine (by simp) hb

theorem gathers_combine₃ (hb : b.FlatAt k) (hc : c.FlatAt k) :
    Gathers k [a, b, c] (combine k (combine k a b) c) :=
  (gathers_combine hb).combine (by simp) hc

theorem combine_comm (ha : a.FlatAt k) (hb : b.FlatAt k) :
    (combine k a b).equiv (combine k b a) = true :=
  (gathers_combine hb).equiv (gathers_combine ha) (by simp) (by simp)
    (.of_subset (by simp)) (.of_subset (by simp))

/-- Both sides gather the same three types, after the right one is turned around. -/
theorem combine_assoc (ha : a.Flat) (hb : b.Flat) (hc : c.Flat) :
    (combine k (combine k a b) c).equiv (combine k a (combine k b c)) = true := by
  have hturn : (combine k (combine k b c) a).equiv (combine k a (combine k b c)) = true :=
    combine_comm ((flat_combine hb hc).flatAt k) (ha.flatAt k)
  refine equiv_trans ?_ hturn
  exact (gathers_combine₃ (hb.flatAt k) (hc.flatAt k)).equiv
    (gathers_combine₃ (hc.flatAt k) (ha.flatAt k)) (by simp) (by simp)
    (.of_subset (by simp)) (.of_subset (by simp))

theorem combine_absorb (hb : b.FlatAt k) :
    (combine k (combine k a b) b).equiv (combine k a b) = true :=
  (gathers_combine₃ hb hb).equiv (gathers_combine hb) (by simp) (by simp)
    (.of_subset (by simp)) (.of_subset (by simp))

theorem semilatticeAt_combine (k : Combinator) (ha : a.Flat) (hb : b.Flat) (hc : c.Flat) :
    SemilatticeAt (combine k) a b c where
  comm := combine_comm (ha.flatAt k) (hb.flatAt k)
  assoc := combine_assoc ha hb hc
  idem := by rw [combine_of_equiv (equiv_refl a), equiv_refl]
  congr _ _ := combine_congr k
  absorb := combine_absorb (hb.flatAt k)
  simplified := (flat_combine ha hb).simplify_eq

/-- On simplified types, union and intersection are semilattices up to equality. -/
theorem unionWith_intersectionWith_semilattice (ha : a.simplify = a) (hb : b.simplify = b)
    (hc : c.simplify = c) :
    SemilatticeAt unionWith a b c ∧ SemilatticeAt intersectionWith a b c := by
  rw [simplify_eq_self_iff] at ha hb hc
  exact ⟨semilatticeAt_combine .union ha hb hc, semilatticeAt_combine .intersection ha hb hc⟩

end

/-- A union that repeats a member, that member, and an intersection with a union inside. -/
theorem unionWith_intersectionWith_semilattice_repeating :
    (compound .union int int []).simplify = compound .union int int [] ∧
    int.simplify = int ∧
    (compound .intersection numeric object []).simplify = compound .intersection numeric object [] ∧
    SemilatticeAt unionWith (compound .union int int []) int
      (compound .intersection numeric object []) ∧
    SemilatticeAt intersectionWith (compound .union int int []) int
      (compound .intersection numeric object []) :=
  ⟨rfl, rfl, rfl, unionWith_intersectionWith_semilattice rfl rfl rfl⟩

theorem isUnknown_combine {a b : Ty} (ha : a.isUnknown = false) (hb : b.Clean) :
    (combine .union a b).isUnknown = false := by
  cases h : a.equiv b with
  | true => rwa [combine_of_equiv h]
  | false =>
    obtain ⟨m, hm⟩ := List.exists_mem_of_ne_nil _ (parts_ne_nil .union b)
    have hcov := (covered_parts_combine (c := .union) (a := a) (hb.flat.flatAt .union)).2
    obtain ⟨n, hn, hmn⟩ := hcov m (List.mem_append_right _ hm)
    -- an unknown combination would be its own only part
    refine Bool.eq_false_iff.2 fun hc => ?_
    rw [isUnknown_iff.1 hc] at hn
    rw [List.mem_singleton.1 hn] at hmn
    have := isUnknown_congr hmn
    rw [(hb.of_mem_parts hm).isUnknown_eq] at this
    exact absurd this (by decide)

theorem foldl_lub_eq {ts : List Ty} {a : Ty} (ha : a.isUnknown = false) (h : ∀ t ∈ ts, t.Clean) :
    ts.foldl lub a = ts.foldl (combine .union) a := by
  induction ts generalizing a with
  | nil => rfl
  | cons t ts ih =>
    have ht := h t List.mem_cons_self
    have hstep : lub a t = combine .union a t := by
      rw [lub, ha, ht.isUnknown_eq]
      rfl
    rw [List.foldl_cons, List.foldl_cons, hstep]
    exact ih (isUnknown_combine ha ht) fun u hu => h u (List.mem_cons_of_mem t hu)

/-- Clean types may come in any order, whatever they are added to. -/
theorem foldl_lub_equiv {ts us : List Ty} {a b : Ty} (hab : a.equiv b = true) (h : Matched ts us)
    (ht : ∀ t ∈ ts, t.Clean) (hu : ∀ u ∈ us, u.Clean) :
    (ts.foldl lub a).equiv (us.foldl lub b) = true := by
  have flat {ts : List Ty} (h : ∀ t ∈ ts, t.Clean) : ∀ t ∈ ts, t.FlatAt .union :=
    fun t ht => (h t ht).flat.flatAt .union
  cases ha : a.isUnknown with
  | false =>
    rw [foldl_lub_eq ha ht, foldl_lub_eq (isUnknown_congr hab ▸ ha) hu]
    have hm := (matched_singleton hab).append h
    exact (gathers_foldl (flat ht)).equiv (gathers_foldl (flat hu)) (by simp) (by simp)
      hm.covered (matched_symm hm).covered
  | true =>
    match ts, us, h.length_eq with
    | [], [], _ => exact hab
    | t :: ts, u :: us, _ =>
      have htail {t : Ty} {ts : List Ty} {a : Ty} (ha : a.isUnknown = true)
          (ht : ∀ v ∈ t :: ts, v.Clean) : (t :: ts).foldl lub a = ts.foldl (combine .union) t := by
        rw [List.foldl_cons, lub, if_pos ha]
        exact foldl_lub_eq (ht t List.mem_cons_self).isUnknown_eq
          fun v hv => ht v (List.mem_cons_of_mem t hv)
      rw [htail ha ht, htail (isUnknown_congr hab ▸ ha) hu]
      refine (gathers_foldl ?_).equiv (gathers_foldl ?_) (by simp) (by simp)
        h.covered (matched_symm h).covered
      · exact fun v hv => flat ht v (List.mem_cons_of_mem t hv)
      · exact fun v hv => flat hu v (List.mem_cons_of_mem u hv)

theorem gathers_lubAll {ts : List Ty} (hne : ts ≠ []) (h : ∀ t ∈ ts, t.Clean) :
    Gathers .union ts (lubAll ts) := by
  cases ts with
  | nil => exact absurd rfl hne
  | cons t ts =>
    have htail : ∀ u ∈ ts, u.Clean := fun u hu => h u (List.mem_cons_of_mem t hu)
    have hfold : lubAll (t :: ts) = ts.foldl (combine .union) t :=
      foldl_lub_eq (h t List.mem_cons_self).isUnknown_eq htail
    rw [hfold]
    exact gathers_foldl fun u hu => (htail u hu).flat.flatAt .union

@[simp] theorem lub_unknown_right (t : Ty) : lub t unknown = t := by
  cases h : t.isUnknown with
  | true =>
    rw [isUnknown_iff.1 h]
    rfl
  | false =>
    rw [lub, h]
    rfl

/-- The types of a list about which something is known. -/
def knowns (ts : List Ty) : List Ty := ts.filter fun t => !t.isUnknown

theorem mem_knowns {ts : List Ty} {t : Ty} : t ∈ knowns ts ↔ t ∈ ts ∧ t ≠ unknown := by
  rw [knowns, List.mem_filter, Bool.not_eq_true', Bool.eq_false_iff, Ne, isUnknown_iff]

theorem foldl_lub_knowns (ts : List Ty) (a : Ty) : (knowns ts).foldl lub a = ts.foldl lub a := by
  induction ts generalizing a with
  | nil => rfl
  | cons t ts ih =>
    cases h : t.isUnknown with
    | true =>
      rw [knowns, List.filter_cons_of_neg (by simp [h]), isUnknown_iff.1 h, List.foldl_cons,
        lub_unknown_right]
      exact ih a
    | false =>
      rw [knowns, List.filter_cons_of_pos (by simp [h]), List.foldl_cons, List.foldl_cons]
      exact ih (lub a t)

theorem lubAll_knowns (ts : List Ty) : lubAll (knowns ts) = lubAll ts := foldl_lub_knowns ts bottom

theorem Covered.knowns {ts us : List Ty} (h : Covered ts us) : Covered (knowns ts) (knowns us) := by
  intro t ht
  obtain ⟨hts, hne⟩ := mem_knowns.1 ht
  obtain ⟨u, hu, htu⟩ := h t hts
  refine ⟨u, mem_knowns.2 ⟨hu, fun hun => hne ?_⟩, htu⟩
  rw [← isUnknown_iff, isUnknown_congr htu, hun]
  rfl

theorem clean_of_mem_knowns {ts : List Ty}
    (h : ∀ t ∈ ts, t = unknown ∨ t.simplify = t ∧ t.Known) : ∀ t ∈ knowns ts, t.Clean := by
  intro t ht
  obtain ⟨hts, hne⟩ := mem_knowns.1 ht
  obtain ⟨hs, hk⟩ := (h t hts).resolve_left hne
  exact ⟨simplify_eq_self_iff.1 hs, hk⟩

/-- The least upper bound of many types depends neither on their order nor on how often each of them
comes, and its parts are those of the types that are known. -/
theorem lubAll_of_covered {ts us : List Ty} (hts : ∀ t ∈ ts, t = unknown ∨ t.simplify = t ∧ t.Known)
    (hus : ∀ u ∈ us, u = unknown ∨ u.simplify = u ∧ u.Known) (htu : Covered ts us)
    (hut : Covered us ts) :
    (lubAll ts).equiv (lubAll us) = true ∧
    ((∃ t ∈ ts, t ≠ unknown) →
      Covered ((lubAll ts).parts .union) ((knowns ts).flatMap (parts .union)) ∧
      Covered ((knowns ts).flatMap (parts .union)) ((lubAll ts).parts .union)) := by
  have htu' := htu.knowns
  have hut' := hut.knowns
  rw [← lubAll_knowns ts, ← lubAll_knowns us]
  have hgathers {vs : List Ty} (hvs : ∀ v ∈ vs, v = unknown ∨ v.simplify = v ∧ v.Known)
      (hne : knowns vs ≠ []) : Gathers .union (knowns vs) (lubAll (knowns vs)) :=
    gathers_lubAll hne (clean_of_mem_knowns hvs)
  constructor
  · by_cases hne : knowns ts = []
    · rw [hne, hut'.eq_nil hne, equiv_refl]
    · have hne' : knowns us ≠ [] := fun h => hne (htu'.eq_nil h)
      exact (hgathers hts hne).equiv (hgathers hus hne') hne hne' htu' hut'
  · rintro ⟨t, ht, hne⟩
    have h := hgathers hts (List.ne_nil_of_mem (mem_knowns.2 ⟨ht, hne⟩))
    exact ⟨h.covered, h.covers⟩

/-- A union that repeats a member and comes twice itself, two spellings of a class, and something
unknown in between. -/
theorem lubAll_of_covered_repeating :
    let twice := compound .union int int []
    let ts := [twice, unknown, named "A", twice]
    let us := [named "a", twice, named "A", unknown]
    Covered ts us ∧ Covered us ts ∧ (∃ t ∈ ts, t ≠ unknown) ∧
      (lubAll ts).equiv (lubAll us) = true ∧
      Covered ((lubAll ts).parts .union) [int, int, named "A", int, int] ∧
      Covered [int, int, named "A", int, int] ((lubAll ts).parts .union) := by
  intro twice ts us
  have hts : ∀ t ∈ ts, t = unknown ∨ t.simplify = t ∧ t.Known := by
    simp [ts, twice, Known, Everywhere, EverywhereAll, simplify, simplifyParts, parts, join]
  have hus : ∀ u ∈ us, u = unknown ∨ u.simplify = u ∧ u.Known := by
    simp [us, twice, Known, Everywhere, EverywhereAll, simplify, simplifyParts, parts, join]
  have htu : Covered ts us := by decide
  have hut : Covered us ts := by decide
  have hknown : ∃ t ∈ ts, t ≠ unknown := ⟨twice, List.mem_cons_self, by simp [twice]⟩
  obtain ⟨hequiv, hparts⟩ := lubAll_of_covered hts hus htu hut
  exact ⟨htu, hut, hknown, hequiv, hparts hknown⟩

end TypeRecovery.Ty
