import TypeRecovery.Ty.Basic

/-!
# Types inside of types

Induction over the members of compounds, and properties that hold at every place inside of a type.
-/
namespace TypeRecovery.Ty

/-- Induction over a type, with one case for all members of a compound. -/
theorem members_induction {P : Ty → Prop} (leaf : ∀ t, t.members = [] → t.elementType? = none → P t)
    (arrayOf : ∀ t, P t → P (arrayOf t))
    (compound : ∀ c a b rest, (∀ t ∈ a :: b :: rest, P t) → P (compound c a b rest)) (t : Ty) :
    P t := by
  refine @Ty.rec P (fun ts => ∀ t ∈ ts, P t) ?_ ?_ ?_ ?_ ?_ ?_ ?_ ?_ ?_ arrayOf ?_ ?_ ?_ ?_ t
  case refine_11 =>
    intro c a b rest ha hb hrest
    refine compound c a b rest fun t ht => ?_
    rcases List.mem_cons.1 ht with rfl | ht
    · exact ha
    · rcases List.mem_cons.1 ht with rfl | ht
      · exact hb
      · exact hrest t ht
  case refine_12 => exact fun t ht => absurd ht List.not_mem_nil
  case refine_13 =>
    intro t ts ht hts u hu
    rcases List.mem_cons.1 hu with rfl | hu
    · exact ht
    · exact hts u hu
  all_goals first | exact leaf _ rfl rfl | exact fun _ => leaf _ rfl rfl

theorem sizeOf_lt_of_mem {c : Combinator} {x y t : Ty} {rest : List Ty} (ht : t ∈ x :: y :: rest) :
    sizeOf t < sizeOf (compound c x y rest) := by
  rw [compound.sizeOf_spec]
  rcases List.mem_cons.1 ht with rfl | ht
  · omega
  · rcases List.mem_cons.1 ht with rfl | ht
    · omega
    · have := List.sizeOf_lt_of_mem ht
      omega

theorem isCompound_compound (c : Combinator) (x y : Ty) (rest : List Ty) :
    (compound c x y rest).kind.isCompound = true := by
  cases c <;> rfl

theorem isCompound_of_members_eq_nil {t : Ty} (hm : t.members = []) : t.kind.isCompound = false := by
  cases t with
  | compound c a b rest => simp [members] at hm
  | _ => rfl

theorem exists_of_kind_eq {a : Ty} {d : Combinator} (ha : a.kind = d.kind) :
    ∃ x y rest, a = compound d x y rest := by
  cases a with
  | compound d' x y rest =>
    refine ⟨x, y, rest, ?_⟩
    cases d <;> cases d' <;> simp_all [kind, Combinator.kind]
  | _ => cases d <;> simp [kind, Combinator.kind] at ha

mutual

/-- Every type inside of a type satisfies `p`, the type itself included. -/
def Everywhere (p : Ty → Prop) : Ty → Prop
  | arrayOf t => p (arrayOf t) ∧ t.Everywhere p
  | compound c a b rest =>
    p (compound c a b rest) ∧ a.Everywhere p ∧ b.Everywhere p ∧ EverywhereAll p rest
  | t => p t

def EverywhereAll (p : Ty → Prop) : List Ty → Prop
  | [] => True
  | t :: ts => t.Everywhere p ∧ EverywhereAll p ts

end

theorem everywhereAll_iff {p : Ty → Prop} {ts : List Ty} :
    EverywhereAll p ts ↔ ∀ t ∈ ts, t.Everywhere p := by
  induction ts with
  | nil => simp [EverywhereAll]
  | cons t ts ih => simp [EverywhereAll, ih]

theorem everywhere_compound {p : Ty → Prop} {c : Combinator} {a b : Ty} {rest : List Ty} :
    (compound c a b rest).Everywhere p ↔
      p (compound c a b rest) ∧ ∀ t ∈ a :: b :: rest, t.Everywhere p := by
  simp [Everywhere, everywhereAll_iff]

theorem Everywhere.self {p : Ty → Prop} {t : Ty} (h : t.Everywhere p) : p t := by
  cases t with
  | arrayOf t => exact h.1
  | compound c a b rest => exact h.1
  | _ => exact h

theorem Everywhere.mono {p q : Ty → Prop} {t : Ty} (h : t.Everywhere p) (hpq : ∀ u, p u → q u) :
    t.Everywhere q := by
  induction t using members_induction with
  | leaf t hm he => cases t <;> first | exact hpq _ h | simp [members, elementType?] at hm he
  | arrayOf t ih => exact ⟨hpq _ h.1, ih h.2⟩
  | compound c a b rest ih =>
    rw [everywhere_compound] at h ⊢
    exact ⟨hpq _ h.1, fun m hm => ih m hm (h.2 m hm)⟩

theorem everywhere_arrayOf {p : Ty → Prop} {t : Ty} :
    (arrayOf t).Everywhere p ↔ p (arrayOf t) ∧ t.Everywhere p := by
  rw [Everywhere]

end TypeRecovery.Ty
