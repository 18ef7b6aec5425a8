import TypeRecovery.Proofs.Fitting
import TypeRecovery.Ty.Algebra

/-!
# Types that allow null

There are two ways to ask whether a type allows null: of the type itself, from member to member, or
by asking whether `null` fits it. The second way compares the whole of a compound with `null` before
it looks at the members, and it is given a hierarchy; neither makes a difference.
-/
namespace TypeRecovery.Ty

theorem anyAllowsNull_iff {ts : List Ty} :
    anyAllowsNull ts = true ↔ ∃ t ∈ ts, t.allowsNull = true := by
  induction ts with
  | nil => simp [anyAllowsNull]
  | cons t ts ih => simp [anyAllowsNull, ih]

theorem allAllowNull_iff {ts : List Ty} :
    allAllowNull ts = true ↔ ∀ t ∈ ts, t.allowsNull = true := by
  induction ts with
  | nil => simp [allAllowNull]
  | cons t ts ih => simp [allAllowNull, ih]

theorem allowsNull_union {a b : Ty} {rest : List Ty} :
    (compound .union a b rest).allowsNull = true ↔ ∃ t ∈ a :: b :: rest, t.allowsNull = true := by
  simp [allowsNull, anyAllowsNull_iff, or_assoc]

theorem allowsNull_intersection {a b : Ty} {rest : List Ty} :
    (compound .intersection a b rest).allowsNull = true ↔
      ∀ t ∈ a :: b :: rest, t.allowsNull = true := by
  simp [allowsNull, allAllowNull_iff, and_assoc]

theorem allowsNull_of_plain {t : Ty} (ht : t.kind.isCompound = false) :
    t.allowsNull = true ↔ t = null := by
  cases t with
  | compound c a b rest => simp [isCompound_compound] at ht
  | _ => simp [allowsNull]

theorem allowsNull_join_union {ts : List Ty} (hne : ts ≠ []) :
    (join .union ts).allowsNull = true ↔ ∃ t ∈ ts, t.allowsNull = true := by
  match ts with
  | [] => exact absurd rfl hne
  | [t] => simp [join]
  | a :: b :: rest => exact allowsNull_union

theorem allowsNull_join_intersection {ts : List Ty} (hne : ts ≠ []) :
    (join .intersection ts).allowsNull = true ↔ ∀ t ∈ ts, t.allowsNull = true := by
  match ts with
  | [] => exact absurd rfl hne
  | [t] => simp [join]
  | a :: b :: rest => exact allowsNull_intersection

theorem allowsNull_iff_union_parts {t : Ty} :
    t.allowsNull = true ↔ ∃ m ∈ t.parts .union, m.allowsNull = true := by
  rw [← allowsNull_join_union (parts_ne_nil .union t), join_parts]

theorem allowsNull_iff_intersection_parts {t : Ty} :
    t.allowsNull = true ↔ ∀ m ∈ t.parts .intersection, m.allowsNull = true := by
  rw [← allowsNull_join_intersection (parts_ne_nil .intersection t), join_parts]

/-- A type allows null exactly if `null` fits it, over any hierarchy. -/
theorem allowsNull_eq_fits_null (h : Hierarchy) (t : Ty) : t.allowsNull = fits h null t := by
  have hplain {t : Ty} (ht : t.kind.isCompound = false) :
      t.allowsNull = true ↔ fits h null t = true := by
    rw [allowsNull_of_plain ht]
    constructor
    · rintro rfl
      exact fits_refl h null
    · exact eq_of_basic_fits rfl (by decide) rfl ht
  rw [Bool.eq_iff_iff]
  induction t using members_induction with
  | leaf t hm _ => exact hplain (isCompound_of_members_eq_nil hm)
  | arrayOf t _ => exact hplain rfl
  | compound c a b rest ih =>
    cases c with
    | union =>
      rw [allowsNull_union, fits_union_of_plain rfl]
      exact exists_congr fun t => and_congr_right fun ht => ih t ht
    | intersection =>
      rw [allowsNull_intersection, fits_intersection_of_plain rfl]
      exact forall₂_congr ih

end TypeRecovery.Ty
