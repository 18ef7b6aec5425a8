import TypeRecovery.Proofs.Combination

/-!
# Flat types

A type is flat when no union stands directly inside of a union and no intersection directly inside
of an intersection. Simplification makes types flat and leaves flat ones as they are. A flat type in
which nothing is unknown is clean, and the operations on types keep to clean types.
-/
namespace TypeRecovery.Ty

/-- No compound stands directly inside of one of its own kind. -/
def Flat (t : Ty) : Prop := t.Everywhere fun u => ∀ m ∈ u.members, m.kind ≠ u.kind

/-- Nothing inside of the type is unknown. -/
def Known (t : Ty) : Prop := t.Everywhere (· ≠ unknown)

structure Clean (t : Ty) : Prop where
  flat : t.Flat
  known : t.Known

theorem flat_compound {c : Combinator} {a b : Ty} {rest : List Ty} :
    (compound c a b rest).Flat ↔ ∀ m ∈ a :: b :: rest, m.Flat ∧ m.kind ≠ c.kind := by
  rw [Flat, everywhere_compound]
  constructor
  · intro h m hm
    exact ⟨h.2 m hm, h.1 m hm⟩
  · intro h
    exact ⟨fun m hm => (h m hm).2, fun m hm => (h m hm).1⟩

theorem known_compound {c : Combinator} {a b : Ty} {rest : List Ty} :
    (compound c a b rest).Known ↔ ∀ m ∈ a :: b :: rest, m.Known := by
  rw [Known, everywhere_compound]
  exact and_iff_right (by simp)

theorem flat_arrayOf {t : Ty} : (arrayOf t).Flat ↔ t.Flat := by
  rw [Flat, everywhere_arrayOf]
  exact and_iff_right (by simp [members])

theorem known_arrayOf {t : Ty} : (arrayOf t).Known ↔ t.Known := by
  rw [Known, everywhere_arrayOf]
  exact and_iff_right (by simp)

theorem clean_arrayOf {t : Ty} : (arrayOf t).Clean ↔ t.Clean :=
  ⟨fun h => ⟨flat_arrayOf.1 h.flat, known_arrayOf.1 h.known⟩,
    fun h => ⟨flat_arrayOf.2 h.flat, known_arrayOf.2 h.known⟩⟩

theorem clean_compound {c : Combinator} {a b : Ty} {rest : List Ty} :
    (compound c a b rest).Clean ↔ ∀ m ∈ a :: b :: rest, m.Clean ∧ m.kind ≠ c.kind := by
  constructor
  · intro h m hm
    have hf := flat_compound.1 h.flat m hm
    exact ⟨⟨hf.1, known_compound.1 h.known m hm⟩, hf.2⟩
  · intro h
    exact ⟨flat_compound.2 fun m hm => ⟨(h m hm).1.flat, (h m hm).2⟩,
      known_compound.2 fun m hm => (h m hm).1.known⟩

theorem clean_of_leaf {t : Ty} (hm : t.members = []) (he : t.elementType? = none)
    (hu : t ≠ unknown) : t.Clean := by
  cases t with
  | arrayOf t => simp [elementType?] at he
  | compound c a b rest => simp [members] at hm
  | _ => exact ⟨by simp [Flat, Everywhere, members], hu⟩

theorem clean_numeric : numeric.Clean := by
  refine clean_compound.2 fun m hm => ?_
  simp only [List.mem_cons, List.not_mem_nil, or_false] at hm
  rcases hm with rfl | rfl <;> exact ⟨clean_of_leaf rfl rfl (by simp), by decide⟩

theorem clean_mixed : mixed.Clean := by
  refine clean_compound.2 fun m hm => ?_
  simp only [List.mem_cons, List.not_mem_nil, or_false] at hm
  rcases hm with rfl | rfl | rfl | rfl | rfl | rfl | rfl | rfl <;>
    exact ⟨clean_of_leaf rfl rfl (by simp), by decide⟩

theorem eq_arrayOf_of_element {t e : Ty} (h : t.elementType? = some e) : t = arrayOf e := by
  cases t with
  | arrayOf u => rw [Option.some.inj h]
  | _ => cases h

theorem Known.element {t e : Ty} (h : t.Known) (he : t.elementType? = some e) : e.Known := by
  rw [eq_arrayOf_of_element he] at h
  exact known_arrayOf.1 h

theorem Clean.element {t e : Ty} (h : t.Clean) (he : t.elementType? = some e) : e.Clean := by
  rw [eq_arrayOf_of_element he] at h
  exact clean_arrayOf.1 h

theorem isUnknown_iff {t : Ty} : t.isUnknown = true ↔ t = unknown := by
  cases t with
  | compound c a b rest => cases c <;> simp [isUnknown, kind, Combinator.kind]
  | _ => simp [isUnknown, kind]

theorem Known.isUnknown_eq {t : Ty} (h : t.Known) : t.isUnknown = false :=
  Bool.eq_false_iff.2 fun hu => h.self (isUnknown_iff.1 hu)

theorem Clean.isUnknown_eq {t : Ty} (h : t.Clean) : t.isUnknown = false := h.known.isUnknown_eq

theorem parts_eq_ite (c : Combinator) (t : Ty) :
    t.parts c = if t.kind = c.kind then t.members else [t] := by
  cases t with
  | compound d a b rest => cases c <;> cases d <;> rfl
  | _ => cases c <;> rfl

theorem parts_of_kind_ne {c : Combinator} {t : Ty} (h : t.kind ≠ c.kind) : t.parts c = [t] := by
  rw [parts_eq_ite, if_neg h]

/-- None of the parts could be taken apart further. -/
def FlatAt (c : Combinator) (t : Ty) : Prop := ∀ m ∈ t.parts c, m.kind ≠ c.kind

theorem Flat.flatAt {t : Ty} (h : t.Flat) (c : Combinator) : t.FlatAt c := by
  intro m hm
  rw [parts_eq_ite] at hm
  split at hm
  · rename_i hk
    rw [← hk]
    exact h.self m hm
  · rwa [List.mem_singleton.1 hm]

theorem Everywhere.of_mem_parts {p : Ty → Prop} {c : Combinator} {t m : Ty} (h : t.Everywhere p)
    (hm : m ∈ t.parts c) : m.Everywhere p := by
  cases t with
  | compound d a b rest =>
    by_cases hd : d = c
    · simp only [parts, hd, if_true] at hm
      exact (everywhere_compound.1 h).2 m hm
    · simp only [parts, hd, if_false, List.mem_singleton] at hm
      rwa [hm]
  | _ =>
    simp only [parts, List.mem_singleton] at hm
    rwa [hm]

theorem Everywhere.of_mem_parts_append {p : Ty → Prop} {c : Combinator} {a b m : Ty}
    (ha : a.Everywhere p) (hb : b.Everywhere p) (hm : m ∈ a.parts c ++ b.parts c) :
    m.Everywhere p := by
  rcases List.mem_append.1 hm with hm | hm
  · exact ha.of_mem_parts hm
  · exact hb.of_mem_parts hm

theorem Clean.of_mem_parts {c : Combinator} {t m : Ty} (h : t.Clean) (hm : m ∈ t.parts c) :
    m.Clean :=
  ⟨Everywhere.of_mem_parts h.flat hm, Everywhere.of_mem_parts h.known hm⟩

theorem flat_join {c : Combinator} {ts : List Ty} (h : ∀ m ∈ ts, m.Flat ∧ m.kind ≠ c.kind) :
    (join c ts).Flat := by
  match ts with
  | [] => simp [join, Flat, Everywhere, members]
  | [t] => exact (h t List.mem_cons_self).1
  | a :: b :: rest => exact flat_compound.2 h

/-- What is true of every compound and of all members is true everywhere inside of their compound. -/
theorem everywhere_join {p : Ty → Prop} (hp : ∀ d a b rest, p (compound d a b rest)) {c : Combinator}
    {ts : List Ty} (hne : ts ≠ []) (h : ∀ m ∈ ts, m.Everywhere p) : (join c ts).Everywhere p := by
  match ts with
  | [] => exact absurd rfl hne
  | [t] => exact h t List.mem_cons_self
  | a :: b :: rest => exact everywhere_compound.2 ⟨hp c a b rest, h⟩

theorem known_join {c : Combinator} {ts : List Ty} (hne : ts ≠ []) (h : ∀ m ∈ ts, m.Known) :
    (join c ts).Known :=
  everywhere_join (by simp) hne h

theorem clean_join {c : Combinator} {ts : List Ty} (hne : ts ≠ [])
    (h : ∀ m ∈ ts, m.Clean ∧ m.kind ≠ c.kind) : (join c ts).Clean :=
  ⟨flat_join fun m hm => ⟨(h m hm).1.flat, (h m hm).2⟩,
    known_join hne fun m hm => (h m hm).1.known⟩

/-- One part that cannot be taken apart is enough to see the parts of a compound again. -/
theorem parts_join {c : Combinator} {ts : List Ty} {t : Ty} (ht : t ∈ ts) (hk : t.kind ≠ c.kind) :
    (join c ts).parts c = ts := by
  match ts with
  | [] => simp at ht
  | [u] =>
    rw [List.mem_singleton.1 ht] at hk
    exact parts_of_kind_ne hk
  | a :: b :: rest => simp [join, parts]

theorem simplifyParts_eq (c : Combinator) (ts : List Ty) :
    simplifyParts c ts = ts.flatMap fun t => t.simplify.parts c := by
  induction ts with
  | nil => rfl
  | cons t ts ih => rw [simplifyParts, ih, List.flatMap_cons]

theorem simplify_compound (c : Combinator) (a b : Ty) (rest : List Ty) :
    (compound c a b rest).simplify =
      join c ((a :: b :: rest).flatMap fun t => t.simplify.parts c) := by
  rw [simplify, simplifyParts_eq]
  rfl

theorem simplify_leaf {t : Ty} (hm : t.members = []) (he : t.elementType? = none) :
    t.simplify = t := by
  cases t with
  | arrayOf t => simp [elementType?] at he
  | compound c a b rest => simp [members] at hm
  | _ => rfl

theorem flat_simplify (t : Ty) : t.simplify.Flat := by
  induction t using members_induction with
  | leaf t hm he =>
    rw [simplify_leaf hm he]
    cases t <;> simp_all [Flat, Everywhere, members, elementType?]
  | arrayOf t ih => exact flat_arrayOf.2 ih
  | compound c a b rest ih =>
    rw [simplify_compound]
    refine flat_join fun m hm => ?_
    obtain ⟨t, ht, hmt⟩ := List.mem_flatMap.1 hm
    exact ⟨Everywhere.of_mem_parts (ih t ht) hmt, (ih t ht).flatAt c m hmt⟩

/-- Simplification sees the parts of nested compounds side by side. -/
theorem parts_simplify_compound (c : Combinator) (a b : Ty) (rest : List Ty) :
    (compound c a b rest).simplify.parts c =
      (a :: b :: rest).flatMap fun t => t.simplify.parts c := by
  obtain ⟨m, hm⟩ := List.exists_mem_of_ne_nil _ (parts_ne_nil c a.simplify)
  rw [simplify_compound]
  exact parts_join (List.mem_flatMap.2 ⟨a, List.mem_cons_self, hm⟩) ((flat_simplify a).flatAt c m hm)

theorem known_simplify {t : Ty} (h : t.Known) : t.simplify.Known := by
  induction t using members_induction with
  | leaf t hm he => rwa [simplify_leaf hm he]
  | arrayOf t ih => exact known_arrayOf.2 (ih (known_arrayOf.1 h))
  | compound c a b rest ih =>
    rw [simplify_compound]
    refine known_join ?_ fun m hm => ?_
    · simp [parts_ne_nil]
    · obtain ⟨t, ht, hmt⟩ := List.mem_flatMap.1 hm
      exact Everywhere.of_mem_parts (ih t ht (known_compound.1 h t ht)) hmt

theorem clean_simplify {t : Ty} (h : t.Known) : t.simplify.Clean :=
  ⟨flat_simplify t, known_simplify h⟩

theorem Flat.simplify_eq {t : Ty} (h : t.Flat) : t.simplify = t := by
  induction t using members_induction with
  | leaf t hm he => exact simplify_leaf hm he
  | arrayOf t ih => rw [simplify, ih (flat_arrayOf.1 h)]
  | compound c a b rest ih =>
    have hparts : ∀ m ∈ a :: b :: rest, m.simplify.parts c = [m] := by
      intro m hm
      obtain ⟨hf, hk⟩ := flat_compound.1 h m hm
      rw [ih m hm hf, parts_of_kind_ne hk]
    rw [simplify_compound, List.flatMap_congr hparts, List.flatMap_singleton']
    rfl

theorem simplify_simplify (t : Ty) : t.simplify.simplify = t.simplify :=
  (flat_simplify t).simplify_eq

/-- Flat types are those that simplification leaves as they are. -/
theorem simplify_eq_self_iff {t : Ty} : t.simplify = t ↔ t.Flat :=
  ⟨fun h => h ▸ flat_simplify t, Flat.simplify_eq⟩

theorem everywhere_combine {p : Ty → Prop} (hp : ∀ d a b rest, p (compound d a b rest))
    {c : Combinator} {a b : Ty} (ha : a.Everywhere p) (hb : b.Everywhere p) :
    (combine c a b).Everywhere p := by
  rw [combine]
  split
  · exact ha
  · refine everywhere_join hp (unique_ne_nil (by simp [parts_ne_nil])) fun m hm => ?_
    exact ha.of_mem_parts_append hb (mem_of_mem_unique hm)

theorem known_combine {c : Combinator} {a b : Ty} (ha : a.Known) (hb : b.Known) :
    (combine c a b).Known :=
  everywhere_combine (by simp) ha hb

theorem flat_combine {c : Combinator} {a b : Ty} (ha : a.Flat) (hb : b.Flat) :
    (combine c a b).Flat := by
  rw [combine]
  split
  · exact ha
  · refine flat_join fun m hm => ?_
    rcases List.mem_append.1 (mem_of_mem_unique hm) with hm | hm
    · exact ⟨Everywhere.of_mem_parts ha hm, ha.flatAt c m hm⟩
    · exact ⟨Everywhere.of_mem_parts hb hm, hb.flatAt c m hm⟩

theorem clean_combine {c : Combinator} {a b : Ty} (ha : a.Clean) (hb : b.Clean) :
    (combine c a b).Clean :=
  ⟨flat_combine ha.flat hb.flat, known_combine ha.known hb.known⟩

/-- What is left of a type is `null`, the type itself, or some of its members. -/
theorem remove_cases (u t : Ty) :
    u.remove t = null ∨ u.remove t = u ∨
      ∃ a b rest ts, u = compound .union a b rest ∧ ts ≠ [] ∧ ts ⊆ a :: b :: rest ∧
        u.remove t = join .union ts := by
  by_cases he : u.equiv t = true
  · exact Or.inl (remove_of_equiv he)
  rw [Bool.not_eq_true] at he
  by_cases hk : u.kind = .union
  · obtain ⟨a, b, rest, rfl⟩ := exists_of_kind_eq (d := .union) hk
    rw [remove_union he]
    split
    · exact Or.inl rfl
    · rename_i hne
      exact Or.inr (Or.inr ⟨a, b, rest, _, rfl, hne, List.filter_subset_self _, rfl⟩)
  · exact Or.inr (Or.inl (remove_of_kind_ne he hk))

theorem everywhere_remove {p : Ty → Prop} (hp : ∀ d a b rest, p (compound d a b rest))
    (hnull : p null) {u : Ty} (h : u.Everywhere p) (t : Ty) : (u.remove t).Everywhere p := by
  rcases remove_cases u t with hr | hr | ⟨a, b, rest, ts, rfl, hne, hsub, hr⟩ <;> rw [hr]
  · exact hnull
  · exact h
  · exact everywhere_join hp hne fun m hm => (everywhere_compound.1 h).2 m (hsub hm)

theorem known_remove {u : Ty} (h : u.Known) (t : Ty) : (u.remove t).Known :=
  everywhere_remove (by simp) (by simp) h t

theorem clean_remove {u : Ty} (h : u.Clean) (t : Ty) : (u.remove t).Clean := by
  rcases remove_cases u t with hr | hr | ⟨a, b, rest, ts, rfl, hne, hsub, hr⟩ <;> rw [hr]
  · exact clean_of_leaf rfl rfl (by simp)
  · exact h
  · exact clean_join hne fun m hm => clean_compound.1 h m (hsub hm)

/-- What combinations keep, least upper bounds keep. -/
theorem lubAll_keeps {P : Ty → Prop} (hP : ∀ a b, P a → P b → P (combine .union a b))
    {ts : List Ty} (hne : ts ≠ []) (h : ∀ t ∈ ts, P t) : P (lubAll ts) := by
  have hlub (a b : Ty) (ha : P a) (hb : P b) : P (lub a b) := by
    rw [lub]
    split
    · exact hb
    · split
      · exact ha
      · exact hP a b ha hb
  have hfold (ts : List Ty) (a : Ty) (ha : P a) (h : ∀ t ∈ ts, P t) : P (ts.foldl lub a) := by
    induction ts generalizing a with
    | nil => exact ha
    | cons t ts ih =>
      exact ih (lub a t) (hlub a t ha (h t List.mem_cons_self)) fun u hu =>
        h u (List.mem_cons_of_mem t hu)
  cases ts with
  | nil => exact absurd rfl hne
  | cons t ts =>
    exact hfold ts t (h t List.mem_cons_self) fun u hu => h u (List.mem_cons_of_mem t hu)

theorem known_lubAll {ts : List Ty} (hne : ts ≠ []) (h : ∀ t ∈ ts, t.Known) : (lubAll ts).Known :=
  lubAll_keeps (fun _ _ => known_combine) hne h

end TypeRecovery.Ty
