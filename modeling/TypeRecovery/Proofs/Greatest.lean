import TypeRecovery.Proofs.Bounds

/-!
# The greatest type

Whether a type fits `mixed` does not depend on the hierarchy, since `mixed` lists one type for each
kind that a value can have. Each alternative of the type has to be found in that list as a whole. An
intersection is found there by a single member, and so is missed if all its members are unions of
several kinds, even though each of these unions fits. These intersections are the only types that
`mixed` is not above.
-/
namespace TypeRecovery.Ty

variable {h : Hierarchy}

mutual

/-- Whether values of the type are of one kind, as far as a single member of each intersection can
tell. -/
def isOf (k : Kind) : Ty → Bool
  | compound .union a b rest => a.isOf k && b.isOf k && allOf k rest
  | compound .intersection a b rest => a.isOf k || b.isOf k || anyOf k rest
  | t => t.kind == k

def allOf (k : Kind) : List Ty → Bool
  | [] => true
  | t :: ts => t.isOf k && allOf k ts

def anyOf (k : Kind) : List Ty → Bool
  | [] => false
  | t :: ts => t.isOf k || anyOf k ts

end

theorem allOf_iff {k : Kind} {ts : List Ty} : allOf k ts = true ↔ ∀ t ∈ ts, t.isOf k = true := by
  induction ts with
  | nil => simp [allOf]
  | cons t ts ih => simp [allOf, ih]

theorem anyOf_iff {k : Kind} {ts : List Ty} : anyOf k ts = true ↔ ∃ t ∈ ts, t.isOf k = true := by
  induction ts with
  | nil => simp [anyOf]
  | cons t ts ih => simp [anyOf, ih]

theorem isOf_union {k : Kind} {a b : Ty} {rest : List Ty} :
    (compound .union a b rest).isOf k = true ↔ ∀ t ∈ a :: b :: rest, t.isOf k = true := by
  simp [isOf, allOf_iff, and_assoc]

theorem isOf_intersection {k : Kind} {a b : Ty} {rest : List Ty} :
    (compound .intersection a b rest).isOf k = true ↔ ∃ t ∈ a :: b :: rest, t.isOf k = true := by
  simp [isOf, anyOf_iff, or_assoc]

theorem isOf_of_plain {k : Kind} {t : Ty} (ht : t.kind.isCompound = false) :
    t.isOf k = true ↔ t.kind = k := by
  cases t with
  | compound c a b rest => simp [isCompound_compound] at ht
  | _ => simp [isOf]

theorem kind_eq_of_fits {a b : Ty} (ha : a.kind.isCompound = false) (hb : b.kind.isCompound = false)
    (hf : fits h a b = true) : a.kind = b.kind := by
  cases a with
  | compound c x y rest => simp [isCompound_compound] at ha
  | arrayOf e => rcases eq_array_or_of_arrayOf_fits hb hf with rfl | ⟨e', rfl, -⟩ <;> rfl
  | named n => rcases eq_object_or_of_named_fits hb hf with rfl | ⟨m, rfl, -⟩ <;> rfl
  | object =>
    by_cases hn : b = named ""
    · rw [hn]
      rfl
    · rw [eq_object_of_object_fits hb hn hf]
  | _ => rw [eq_of_basic_fits ha (by simp [kind]) rfl hb hf]

theorem kind_of_ofKind? {k : Kind} {p : Ty} (hp : ofKind? k = some p) :
    p.kind = k ∧ p.kind.isCompound = false := by
  cases k <;> cases hp <;> exact ⟨rfl, rfl⟩

/-- What is not compound fits the type of its kind, and that of no other kind. -/
theorem plain_fits_iff {k : Kind} {p t : Ty} (hp : ofKind? k = some p)
    (ht : t.kind.isCompound = false) : fits h t p = true ↔ t.kind = k := by
  obtain ⟨hk, hplain⟩ := kind_of_ofKind? hp
  refine ⟨fun hf => (kind_eq_of_fits ht hplain hf).trans hk, ?_⟩
  rintro rfl
  cases t with
  | compound c x y rest => simp [isCompound_compound] at ht
  | named n =>
    cases hp
    exact named_fits_object
  | arrayOf e =>
    cases hp
    exact arrayOf_fits_array
  | _ =>
    cases hp
    exact fits_refl h _

theorem fits_iff_isOf {k : Kind} {p : Ty} (hp : ofKind? k = some p) {t : Ty} :
    fits h t p = true ↔ t.isOf k = true := by
  induction t using members_induction with
  | leaf t hm he =>
    have ht := isCompound_of_members_eq_nil hm
    rw [plain_fits_iff hp ht, isOf_of_plain ht]
  | arrayOf t _ => rw [plain_fits_iff hp rfl, isOf_of_plain rfl]
  | compound c a b rest ih =>
    cases c with
    | union =>
      rw [fits_union_iff, isOf_union]
      exact forall₂_congr ih
    | intersection =>
      rw [fits_intersection_left (kind_of_ofKind? hp).2, isOf_intersection]
      exact exists_congr fun t => and_congr_right fun ht => ih t ht

theorem ofKind?_of_mem_mixed {p : Ty} (hp : p ∈ mixed.members) : ofKind? p.kind = some p := by
  simp only [mixed, members, List.mem_cons, List.not_mem_nil, or_false] at hp
  rcases hp with rfl | rfl | rfl | rfl | rfl | rfl | rfl | rfl <;> rfl

/-- Every kind that a known type can be of is listed. -/
theorem exists_mem_mixed {k : Kind} {t : Ty} (ht : t.Known) (hk : t.isOf k = true) :
    ∃ p ∈ mixed.members, ofKind? k = some p := by
  induction t using members_induction with
  | leaf t hm he =>
    cases t with
    | unknown => exact absurd rfl ht.self
    | arrayOf t => simp [elementType?] at he
    | compound c a b rest => simp [members] at hm
    | _ =>
      cases (isOf_of_plain rfl).1 hk
      exact ⟨_, by simp [mixed, members], rfl⟩
  | arrayOf t _ =>
    cases (isOf_of_plain rfl).1 hk
    exact ⟨array, by simp [mixed, members], rfl⟩
  | compound c a b rest ih =>
    have hmem := known_compound.1 ht
    cases c with
    | union =>
      have ha : a ∈ a :: b :: rest := List.mem_cons_self
      exact ih a ha (hmem a ha) (isOf_union.1 hk a ha)
    | intersection =>
      obtain ⟨m, hm, hmk⟩ := isOf_intersection.1 hk
      exact ih m hm (hmem m hm) hmk

theorem fits_mixed_iff {a : Ty} (ha : a.Known) :
    fits h a mixed = true ↔ ∀ d ∈ a.leaves .union, ∃ k, d.isOf k = true := by
  rw [fits_iff_leaves]
  refine forall₂_congr fun d hd => ?_
  have hunion : d.kind ≠ .union := kind_ne_of_mem_leaves hd
  rw [mixed, fits_union_right hunion, or_iff_right (not_equiv_of_kind hunion)]
  constructor
  · rintro ⟨p, hp, hf⟩
    exact ⟨p.kind, (fits_iff_isOf (ofKind?_of_mem_mixed hp)).1 hf⟩
  · rintro ⟨k, hk⟩
    obtain ⟨p, hp, hpk⟩ := exists_mem_mixed (Everywhere.of_mem_leaves ha hd) hk
    exact ⟨p, hp, (fits_iff_isOf hpk).2 hk⟩

/-- One member that is no union tells the kind of an intersection. -/
theorem isOf_of_mem_leaves {d m : Ty} (hm : m ∈ d.leaves .intersection) (hu : m.kind ≠ .union) :
    d.isOf m.kind = true := by
  refine mem_leaves_induction (P := fun t => t.isOf m.kind = true) (fun hi => ?_) ?_ hm
  · exact (isOf_of_plain (isCompound_eq_false hu hi)).2 rfl
  · exact fun a b rest t ht htm => isOf_intersection.2 ⟨t, ht, htm⟩

/-- A type in which nothing is unknown is below `mixed`, over any hierarchy, exactly if each of its
alternatives is of one kind; and so it is if each alternative is no intersection, or is one that has
a member that is no union. -/
theorem le_top_iff_isOf (h : Hierarchy) {a : Ty} (ha : a.Known) :
    (le h a top = true ↔ ∀ d ∈ a.leaves .union, ∃ k, d.isOf k = true) ∧
    ((∀ d ∈ a.leaves .union, ∃ m ∈ d.leaves .intersection, m.kind ≠ .union) →
      le h a top = true) := by
  have hle : le h a top = fits h a mixed := by
    rw [le, ha.isUnknown_eq]
    rfl
  have hiff : le h a top = true ↔ ∀ d ∈ a.leaves .union, ∃ k, d.isOf k = true := by
    rw [hle, fits_mixed_iff ha]
  refine ⟨hiff, fun hall => hiff.2 fun d hd => ?_⟩
  obtain ⟨m, hm, hu⟩ := hall d hd
  exact ⟨m.kind, isOf_of_mem_leaves hm hu⟩

/-- An intersection of which one member is a union and one is a class, and an array whose elements
`mixed` is not above. -/
theorem le_top_iff_isOf_class :
    let nullable (n : String) := compound .union (named n) null []
    let a := compound .union (compound .intersection (nullable "A") (named "B") [])
      (arrayOf (compound .intersection (nullable "A") (nullable "B") [])) []
    a.Known ∧
      (∀ d ∈ a.leaves .union, ∃ m ∈ d.leaves .intersection, m.kind ≠ .union) ∧
      le .empty a top = true := by
  intro nullable a
  have ha : a.Known := by simp [a, nullable, Known, Everywhere, EverywhereAll]
  have hall : ∀ d ∈ a.leaves .union, ∃ m ∈ d.leaves .intersection, m.kind ≠ .union := by
    simp [a, nullable, leaves, leavesAll, kind, Combinator.kind]
  exact ⟨ha, hall, (le_top_iff_isOf .empty ha).2 hall⟩

/-- `mixed` is above two nullable classes, but not above their intersection. -/
theorem nullable_intersection_not_le_top :
    let nullable (n : String) := compound .union (named n) null []
    let a := compound .intersection (nullable "A") (nullable "B") []
    a.Known ∧ (∀ m ∈ a.members, le .empty m top = true) ∧ le .empty a top = false := by
  intro nullable a
  have ha : a.Known := by simp [a, nullable, Known, Everywhere, EverywhereAll]
  exact ⟨ha, by decide, by decide⟩

end TypeRecovery.Ty
