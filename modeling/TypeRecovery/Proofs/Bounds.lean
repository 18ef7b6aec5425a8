import TypeRecovery.Proofs.Gathering
import TypeRecovery.Proofs.Variants

/-!
# Unions and intersections as bounds

A union fits exactly where all its members fit, over any hierarchy, so the union of two types is their
least upper bound. The dual holds only in part. An intersection fits itself because it is equal to
itself, but a union is met only through one of its members, so an intersection with a union inside
need not fit its own member. So there are types for which intersections are greatest lower bounds and
types for which they are not; and where no union stands among the members, they are so for all types.
-/
namespace TypeRecovery.Ty

variable {h : Hierarchy}

theorem fits_join_union {ts : List Ty} {b : Ty} (hne : ts ≠ []) :
    fits h (join .union ts) b = true ↔ ∀ t ∈ ts, fits h t b = true := by
  match ts with
  | [] => exact absurd rfl hne
  | [t] => simp [join]
  | x :: y :: rest => exact fits_union_iff

theorem fits_iff_parts {a b : Ty} :
    fits h a b = true ↔ ∀ t ∈ a.parts .union, fits h t b = true := by
  rw [← fits_join_union (parts_ne_nil .union a), join_parts]

/-- What fits a part fits the whole. -/
theorem fits_of_mem_parts {a u b : Ty} (hu : u ∈ b.parts .union) (hau : fits h a u = true) :
    fits h a b = true := by
  by_cases hk : b.kind = .union
  · obtain ⟨x, y, rest, rfl⟩ := @exists_of_kind_eq b .union hk
    exact fits_union_of_mem hu hau
  · rw [parts_of_kind_ne (c := .union) hk, List.mem_singleton] at hu
    rwa [← hu]

/-- A type whose parts are parts of another one fits there. -/
theorem fits_of_covered {a b : Ty} (hcov : Covered (a.parts .union) (b.parts .union)) :
    fits h a b = true := by
  refine fits_iff_parts.2 fun t ht => ?_
  obtain ⟨u, hu, htu⟩ := hcov t ht
  exact fits_of_mem_parts hu (fits_of_equiv htu)

theorem namesPresent_combine {k : Combinator} {a b : Ty} (ha : NamesPresent a)
    (hb : NamesPresent b) : NamesPresent (combine k a b) :=
  everywhere_combine (by simp) ha hb

/-- Types that all fit, or into all of which something fits, may be given without repetitions. -/
theorem forall_unique_iff {P : Ty → Prop} {ts : List Ty}
    (hP : ∀ t ∈ ts, ∀ u ∈ ts, t.equiv u = true → P t → P u) :
    (∀ t ∈ unique ts, P t) ↔ ∀ t ∈ ts, P t := by
  constructor
  · intro hall t ht
    obtain ⟨u, hu, htu⟩ := covered_unique ts t ht
    exact hP u (mem_of_mem_unique hu) t ht (equiv_symm htu) (hall u hu)
  · exact fun hall t ht => hall t (mem_of_mem_unique ht)

theorem fits_combine_union {a b c : Ty} (ha : NamesPresent a) (hb : NamesPresent b)
    (hc : NamesPresent c) :
    fits h (combine .union a b) c = true ↔ fits h a c = true ∧ fits h b c = true := by
  rw [combine]
  split
  · rename_i he
    exact (and_iff_left_of_imp (fits_exchange ha hb hc hc he (equiv_refl c))).symm
  · have hin : ∀ t ∈ a.parts .union ++ b.parts .union, NamesPresent t :=
      fun t => ha.of_mem_parts_append hb
    rw [fits_join_union (unique_ne_nil (by simp [parts_ne_nil])), forall_unique_iff,
      List.forall_mem_append, ← fits_iff_parts, ← fits_iff_parts]
    exact fun t ht u hu he => fits_exchange (hin t ht) (hin u hu) hc hc he (equiv_refl c)

/-- Over any hierarchy, the union of two types is their least upper bound. -/
theorem fits_unionWith_iff (h : Hierarchy) {a b c : Ty} (ha : NamesPresent a) (hb : NamesPresent b)
    (hc : NamesPresent c) :
    (fits h (a.unionWith b) c = true ↔ fits h a c = true ∧ fits h b c = true) ∧
    fits h a (a.unionWith b) = true ∧ fits h b (a.unionWith b) = true :=
  ⟨fits_combine_union ha hb hc,
    (fits_combine_union ha hb (namesPresent_combine ha hb)).1 (fits_refl h _)⟩

/-- `bar` below `foo`; the union nests and repeats `null`, and names the class in another way. -/
theorem fits_unionWith_iff_nested :
    let h := (Hierarchy.empty.declare (Key.of "Foo")).link (Key.of "Bar") (Key.of "Foo")
    let a := compound .union (compound .union (named "Bar") null []) null []
    let c := compound .union null (named "Foo") []
    NamesPresent a ∧ NamesPresent (named "bar") ∧ NamesPresent c ∧ fits h a c = true ∧
      fits h (named "bar") c = true ∧ fits h (a.unionWith (named "bar")) c = true ∧
      fits h a (a.unionWith (named "bar")) = true := by
  intro h a c
  have ha : NamesPresent a := by simp [a, NamesPresent, Everywhere, EverywhereAll]
  have hb : NamesPresent (named "bar") := by simp [NamesPresent, Everywhere]
  have hc : NamesPresent c := by simp [c, NamesPresent, Everywhere, EverywhereAll]
  have hac : fits h a c = true := by decide
  have hbc : fits h (named "bar") c = true := by decide
  have hl := fits_unionWith_iff h ha hb hc
  exact ⟨ha, hb, hc, hac, hbc, hl.1.2 ⟨hac, hbc⟩, hl.2.1⟩

mutual

/-- What is left of a type when all compounds of one kind that it is nested of are taken apart. -/
def leaves (k : Combinator) : Ty → List Ty
  | compound c a b rest =>
    if c = k then a.leaves k ++ (b.leaves k ++ leavesAll k rest) else [compound c a b rest]
  | t => [t]

def leavesAll (k : Combinator) : List Ty → List Ty
  | [] => []
  | t :: ts => t.leaves k ++ leavesAll k ts

end

theorem leavesAll_eq (k : Combinator) (ts : List Ty) : leavesAll k ts = ts.flatMap (leaves k) := by
  induction ts with
  | nil => rfl
  | cons t ts ih => rw [leavesAll, ih, List.flatMap_cons]

theorem leaves_compound (k : Combinator) (a b : Ty) (rest : List Ty) :
    (compound k a b rest).leaves k = (a :: b :: rest).flatMap (leaves k) := by
  simp [leaves, leavesAll_eq]

theorem leaves_of_kind_ne {k : Combinator} {t : Ty} (hk : t.kind ≠ k.kind) : t.leaves k = [t] := by
  cases t with
  | compound c a b rest =>
    have hc : c ≠ k := fun hc => hk (congrArg Combinator.kind hc)
    simp [leaves, hc]
  | _ => rfl

theorem leaves_join (k : Combinator) {ts : List Ty} (hne : ts ≠ []) :
    (join k ts).leaves k = ts.flatMap (leaves k) := by
  match ts with
  | [] => exact absurd rfl hne
  | [t] => simp [join]
  | a :: b :: rest => exact leaves_compound k a b rest

theorem leaves_eq_flatMap_parts (k : Combinator) (t : Ty) :
    t.leaves k = (t.parts k).flatMap (leaves k) := by
  rw [← leaves_join k (parts_ne_nil k t), join_parts]

/-- What is true of a leaf, and passes from a member to the compound, is true of the whole. -/
theorem mem_leaves_induction {k : Combinator} {d : Ty} {P : Ty → Prop} (leaf : d.kind ≠ k.kind → P d)
    (member : ∀ a b rest, ∀ m ∈ a :: b :: rest, P m → P (compound k a b rest)) {t : Ty}
    (hd : d ∈ t.leaves k) : P t := by
  induction t using combinator_induction k with
  | other t hk =>
    rw [leaves_of_kind_ne hk, List.mem_singleton] at hd
    subst hd
    exact leaf hk
  | compound a b rest ih =>
    rw [leaves_compound] at hd
    obtain ⟨m, hm, hdm⟩ := List.mem_flatMap.1 hd
    exact member a b rest m hm (ih m hm hdm)

theorem kind_ne_of_mem_leaves {k : Combinator} {t d : Ty} (hd : d ∈ t.leaves k) :
    d.kind ≠ k.kind :=
  mem_leaves_induction (P := fun _ => d.kind ≠ k.kind) id (fun _ _ _ _ _ hk => hk) hd

theorem Everywhere.of_mem_leaves {p : Ty → Prop} {k : Combinator} {t d : Ty} (ht : t.Everywhere p)
    (hd : d ∈ t.leaves k) : d.Everywhere p := by
  refine mem_leaves_induction (P := fun t => t.Everywhere p → d.Everywhere p) ?_ ?_ hd ht
  · exact fun _ hd => hd
  · intro a b rest m hm ih ht
    exact ih ((everywhere_compound.1 ht).2 m hm)

/-- A type fits where all its alternatives fit. -/
theorem fits_iff_leaves {a b : Ty} :
    fits h a b = true ↔ ∀ d ∈ a.leaves .union, fits h d b = true := by
  induction a using combinator_induction .union with
  | other t hk => simp [leaves_of_kind_ne hk]
  | compound x y rest ih =>
    rw [fits_union_iff, leaves_compound]
    constructor
    · intro hall d hd
      obtain ⟨m, hm, hdm⟩ := List.mem_flatMap.1 hd
      exact (ih m hm).1 (hall m hm) d hdm
    · intro hall m hm
      exact (ih m hm).2 fun d hd => hall d (List.mem_flatMap.2 ⟨m, hm, hd⟩)

/-- Where `c` fits an intersection, it fits each of its members. -/
def Splits (h : Hierarchy) (c t : Ty) : Prop :=
  fits h c t = true → ∀ m ∈ t.parts .intersection, fits h c m = true

theorem splits_of_kind_ne {c t : Ty} (hk : t.kind ≠ .intersection) : Splits h c t := by
  intro hf m hm
  rw [parts_of_kind_ne (c := .intersection) hk, List.mem_singleton] at hm
  rwa [hm]

/-- What fits all members fits the intersection. -/
theorem fits_join_intersection {c : Ty} {ts : List Ty} (hne : ts ≠ [])
    (hall : ∀ m ∈ ts, fits h c m = true) : fits h c (join .intersection ts) = true := by
  match ts with
  | [] => exact absurd rfl hne
  | [t] => exact hall t List.mem_cons_self
  | x :: y :: rest =>
    refine fits_iff_leaves.2 fun d hd => ?_
    refine (fits_intersection_right (kind_ne_of_mem_leaves hd)).2 (Or.inr fun m hm => ?_)
    exact fits_iff_leaves.1 (hall m hm) d hd

theorem Splits.fits_join_iff {c : Ty} {ts : List Ty} (hs : Splits h c (join .intersection ts))
    (hne : ts ≠ []) :
    fits h c (join .intersection ts) = true ↔ ∀ m ∈ ts, fits h c m = true := by
  refine ⟨fun hf => ?_, fits_join_intersection hne⟩
  match ts with
  | [] => exact absurd rfl hne
  | [t] => simpa [join] using hf
  | x :: y :: rest => simpa [join, parts] using hs hf

theorem Splits.fits_iff {c t : Ty} (hs : Splits h c t) :
    fits h c t = true ↔ ∀ m ∈ t.parts .intersection, fits h c m = true := by
  refine ⟨hs, fun hall => ?_⟩
  have hf := fits_join_intersection (parts_ne_nil .intersection t) hall
  rwa [join_parts] at hf

theorem fits_combine_intersection {a b c : Ty} (ha : NamesPresent a) (hb : NamesPresent b)
    (hc : NamesPresent c) (hsa : Splits h c a) (hsb : Splits h c b)
    (hs : Splits h c (combine .intersection a b)) :
    fits h c (combine .intersection a b) = true ↔ fits h c a = true ∧ fits h c b = true := by
  rw [combine] at hs ⊢
  split
  · rename_i he
    exact (and_iff_left_of_imp (fits_exchange hc hc ha hb (equiv_refl c) he)).symm
  · rename_i he
    rw [if_neg he] at hs
    have hin : ∀ t ∈ a.parts .intersection ++ b.parts .intersection, NamesPresent t :=
      fun t => ha.of_mem_parts_append hb
    rw [hs.fits_join_iff (unique_ne_nil (by simp [parts_ne_nil])), forall_unique_iff,
      List.forall_mem_append, ← hsa.fits_iff, ← hsb.fits_iff]
    exact fun t ht u hu he => fits_exchange hc hc (hin t ht) (hin u hu) (equiv_refl c) he

/-- A type splits every target to which none of its alternatives is equal. -/
theorem splits_of_not_equiv {c t : Ty} (hne : ∀ d ∈ c.leaves .union, d.equiv t = false) :
    Splits h c t := by
  by_cases hk : t.kind = .intersection
  · obtain ⟨x, y, rest, rfl⟩ := @exists_of_kind_eq t .intersection hk
    intro hf m hm
    refine fits_iff_leaves.2 fun d hd => ?_
    have hd' := (fits_intersection_right (kind_ne_of_mem_leaves hd)).1 (fits_iff_leaves.1 hf d hd)
    exact hd'.resolve_left (by simp [hne d hd]) m (by simpa [parts] using hm)
  · exact splits_of_kind_ne hk

/-- If a type splits those of its alternatives that it fits, it splits everything. -/
theorem splits_of_leaves {c : Ty} (hc : NamesPresent c)
    (hd : ∀ d ∈ c.leaves .union, Splits h c d) {t : Ty} (ht : NamesPresent t) : Splits h c t := by
  by_cases hex : ∃ d ∈ c.leaves .union, d.equiv t = true
  · obtain ⟨d, hmem, hdt⟩ := hex
    have hnd : NamesPresent d := hc.of_mem_leaves hmem
    intro hf m hm
    have hcd := fits_exchange hc hc ht hnd (equiv_refl c) (equiv_symm hdt) hf
    obtain ⟨u, hu, hum⟩ := (parts_matched .intersection hdt).exists_left hm
    exact fits_exchange hc hc (hnd.of_mem_parts hu) (ht.of_mem_parts hm) (equiv_refl c) hum
      (hd d hmem hcd u hu)
  · simp only [not_exists, not_and, Bool.not_eq_true] at hex
    exact splits_of_not_equiv hex

/-- A target that is nested of intersections down to types that are no unions is split by everything,
and an intersection that has a fitting member fits it. -/
theorem splits_of_no_union {t : Ty} (hu : ∀ m ∈ t.leaves .intersection, m.kind ≠ .union) :
    (∀ c, Splits h c t) ∧
      ∀ x y rest, ∀ u ∈ x :: y :: rest, fits h u t = true →
        fits h (compound .intersection x y rest) t = true := by
  induction t using combinator_induction .intersection with
  | other t hk =>
    rw [leaves_of_kind_ne hk] at hu
    have hplain := isCompound_eq_false (hu t List.mem_cons_self) hk
    exact ⟨fun c => splits_of_kind_ne hk,
      fun x y rest u hmem hut => (fits_intersection_left hplain).2 ⟨u, hmem, hut⟩⟩
  | compound a b more ih =>
    rw [leaves_compound] at hu
    have hin (m : Ty) (hm : m ∈ a :: b :: more) :=
      ih m hm fun n hn => hu n (List.mem_flatMap.2 ⟨m, hm, hn⟩)
    have hsplit (c : Ty) : Splits h c (compound .intersection a b more) := by
      intro hf m hm
      have hm : m ∈ a :: b :: more := by simpa [parts] using hm
      refine fits_iff_leaves.2 fun d hd => ?_
      rcases (fits_intersection_right (kind_ne_of_mem_leaves hd)).1
        (fits_iff_leaves.1 hf d hd) with he | hall
      · -- `d` is an intersection with a member equal to `m`
        obtain ⟨x, y, rest, rfl, hp⟩ := equiv_compound_cases (equiv_symm he)
        obtain ⟨u, hmem, hmu⟩ := (matched_of_pairOff hp).exists_right hm
        exact (hin m hm).2 x y rest u hmem (fits_of_equiv (equiv_symm hmu))
      · exact hall m hm
    refine ⟨hsplit, fun x y rest u hmem hut => ?_⟩
    refine (fits_intersection_right (by simp [kind, Combinator.kind])).2 (Or.inr fun m hm => ?_)
    exact (hin m hm).2 x y rest u hmem (hsplit u hut m (by simpa [parts] using hm))

theorem mem_leaves_combine {k : Combinator} {a b m : Ty} (hm : m ∈ (combine k a b).leaves k) :
    m ∈ a.leaves k ++ b.leaves k := by
  rw [combine] at hm
  split at hm
  · exact List.mem_append_left _ hm
  · rw [leaves_join k (unique_ne_nil (by simp [parts_ne_nil]))] at hm
    obtain ⟨t, ht, hmt⟩ := List.mem_flatMap.1 hm
    rw [leaves_eq_flatMap_parts k a, leaves_eq_flatMap_parts k b, ← List.flatMap_append]
    exact List.mem_flatMap.2 ⟨t, mem_of_mem_unique ht, hmt⟩

mutual

/-- How deep arrays and compounds are nested. -/
def height : Ty → Nat
  | arrayOf t => t.height + 1
  | compound _ a b rest => max a.height (max b.height (heightAll rest)) + 1
  | _ => 0

def heightAll : List Ty → Nat
  | [] => 0
  | t :: ts => max t.height (heightAll ts)

end

theorem heightAll_le_iff {ts : List Ty} {n : Nat} :
    heightAll ts ≤ n ↔ ∀ t ∈ ts, t.height ≤ n := by
  induction ts with
  | nil => simp [heightAll]
  | cons t ts ih => rw [heightAll, Nat.max_le, ih, List.forall_mem_cons]

theorem height_compound_le_iff {c : Combinator} {a b : Ty} {rest : List Ty} {n : Nat} :
    (compound c a b rest).height ≤ n + 1 ↔ ∀ t ∈ a :: b :: rest, t.height ≤ n := by
  rw [height, Nat.add_le_add_iff_right]
  change heightAll (a :: b :: rest) ≤ n ↔ _
  exact heightAll_le_iff

theorem height_lt_of_mem {c : Combinator} {a b t : Ty} {rest : List Ty} (ht : t ∈ a :: b :: rest) :
    t.height < (compound c a b rest).height := by
  rw [height]
  exact Nat.lt_succ_of_le (heightAll_le_iff.1 (Nat.le_refl (heightAll (a :: b :: rest))) t ht)

theorem height_le_of_equiv {a b : Ty} (he : a.equiv b = true) : a.height ≤ b.height := by
  induction a using members_induction generalizing b with
  | leaf t hm he => cases t <;> simp_all [height, members, elementType?]
  | arrayOf t ih =>
    obtain ⟨u, rfl, htu⟩ := equiv_arrayOf_cases he
    exact Nat.succ_le_succ (ih htu)
  | compound c x y rest ih =>
    obtain ⟨x', y', rest', rfl, hp⟩ := equiv_compound_cases he
    rw [height.eq_def (compound c x' y' rest'), height_compound_le_iff]
    intro t ht
    obtain ⟨u, hu, htu⟩ := (matched_of_pairOff hp).exists_right ht
    exact Nat.le_of_lt_succ (Nat.lt_of_le_of_lt (ih t ht htu) (height_lt_of_mem (c := c) hu))

theorem height_le_of_mem_parts {k : Combinator} {t m : Ty} (hm : m ∈ t.parts k) :
    m.height ≤ t.height := by
  by_cases hk : t.kind = k.kind
  · obtain ⟨a, b, rest, rfl⟩ := exists_of_kind_eq hk
    simp only [parts, if_true] at hm
    exact Nat.le_of_lt (height_lt_of_mem hm)
  · rw [parts_of_kind_ne hk, List.mem_singleton] at hm
    exact Nat.le_of_eq (congrArg height hm)

theorem height_le_of_mem_leaves {k : Combinator} {t d : Ty} (hd : d ∈ t.leaves k) :
    d.height ≤ t.height := by
  refine mem_leaves_induction (P := fun t => d.height ≤ t.height) ?_ ?_ hd
  · exact fun _ => Nat.le_refl _
  · intro a b rest m hm ih
    exact Nat.le_trans ih (Nat.le_of_lt (height_lt_of_mem hm))

theorem flatAt_of_kind_ne {k : Combinator} {t : Ty} (hk : t.kind ≠ k.kind) : t.FlatAt k := by
  intro m hm
  rw [parts_of_kind_ne hk, List.mem_singleton] at hm
  rwa [hm]

/-- An intersection with a union that is higher than `t` is not equal to `t`. -/
theorem not_equiv_combine_of_height {t a b : Ty} (hb : b.kind = .union)
    (hlt : t.height < b.height) : t.equiv (combine .intersection a b) = false := by
  rw [Bool.eq_false_iff]
  intro he
  have hk : b.kind ≠ Combinator.intersection.kind := by simp [hb, Combinator.kind]
  obtain ⟨u, hu, hbu⟩ := (covered_parts_combine (flatAt_of_kind_ne hk)).2 b
    (List.mem_append_right (a.parts .intersection) (by simp [parts_of_kind_ne hk]))
  obtain ⟨v, hv, hvu⟩ := (parts_matched .intersection he).exists_left hu
  have hlow := height_le_of_mem_parts hv
  have hhigh := height_le_of_equiv (equiv_trans hbu (equiv_symm hvu))
  omega

/-- If intersections are lower bounds for `c`, it splits its alternatives: take the alternative itself
and a union of `c` that is too high to be found inside of `c`. -/
theorem splits_leaf_of_bounds {c d : Ty} (hc : NamesPresent c) (hd : d ∈ c.leaves .union)
    (hbound : ∀ a b, NamesPresent a → NamesPresent b → fits h c a = true → fits h c b = true →
      fits h c (combine .intersection a b) = true) : Splits h c d := by
  intro hf m hm
  have hnd : NamesPresent d := hc.of_mem_leaves hd
  have hnb : NamesPresent (compound .union c c []) :=
    everywhere_compound.2 ⟨by simp, by simpa using hc⟩
  have hsplit : Splits h c (combine .intersection d (compound .union c c [])) := by
    refine splits_of_not_equiv fun d' hd' => not_equiv_combine_of_height rfl ?_
    exact Nat.lt_of_le_of_lt (height_le_of_mem_leaves hd') (height_lt_of_mem List.mem_cons_self)
  have hfit := hbound d _ hnd hnb hf (fits_union_of_mem List.mem_cons_self (fits_refl h c))
  have hflat : (compound .union c c []).FlatAt .intersection :=
    flatAt_of_kind_ne (by simp [kind, Combinator.kind])
  obtain ⟨u, hu, hmu⟩ := (covered_parts_combine hflat).2 m (List.mem_append_left _ hm)
  exact fits_exchange hc hc ((namesPresent_combine hnd hnb).of_mem_parts hu) (hnd.of_mem_parts hm)
    (equiv_refl c) (equiv_symm hmu) (hsplit hfit u hu)

/-- Over any hierarchy, intersections are greatest lower bounds for `c` exactly if `c` fits the
members of each of its alternatives into which it fits as a whole. They are so for every `c`, and fit
the two types that they are made of, if no union stands among the members of these. -/
theorem fits_intersectionWith_iff (h : Hierarchy) :
    (∀ c, NamesPresent c →
      ((∀ a b, NamesPresent a → NamesPresent b →
          (fits h c (a.intersectionWith b) = true ↔ fits h c a = true ∧ fits h c b = true)) ↔
        ∀ d ∈ c.leaves .union, fits h c d = true →
          ∀ m ∈ d.parts .intersection, fits h c m = true)) ∧
    ∀ a b, NamesPresent a → NamesPresent b →
      (∀ m ∈ a.leaves .intersection ++ b.leaves .intersection, m.kind ≠ .union) →
      (∀ c, NamesPresent c →
        (fits h c (a.intersectionWith b) = true ↔ fits h c a = true ∧ fits h c b = true)) ∧
      fits h (a.intersectionWith b) a = true ∧ fits h (a.intersectionWith b) b = true := by
  refine ⟨fun c hc => ⟨fun hlaw d hd => ?_, fun hd a b ha hb => ?_⟩, fun a b ha hb hu => ?_⟩
  · exact splits_leaf_of_bounds hc hd fun a b ha hb hca hcb => (hlaw a b ha hb).2 ⟨hca, hcb⟩
  · exact fits_combine_intersection ha hb hc (splits_of_leaves hc hd ha) (splits_of_leaves hc hd hb)
      (splits_of_leaves hc hd (namesPresent_combine ha hb))
  · have hlaw (c : Ty) (hc : NamesPresent c) :
        fits h c (a.intersectionWith b) = true ↔ fits h c a = true ∧ fits h c b = true := by
      refine fits_combine_intersection ha hb hc ?_ ?_ ?_
      · exact (splits_of_no_union fun m hm => hu m (List.mem_append_left _ hm)).1 c
      · exact (splits_of_no_union fun m hm => hu m (List.mem_append_right _ hm)).1 c
      · exact (splits_of_no_union fun m hm => hu m (mem_leaves_combine hm)).1 c
    exact ⟨hlaw, (hlaw _ (namesPresent_combine ha hb)).1 (fits_refl h _)⟩

/-- Three classes, of which one is named twice in different ways. -/
theorem fits_intersectionWith_iff_classes :
    let a := compound .intersection (named "A") (named "B") []
    let b := compound .intersection (named "b") (named "C") []
    NamesPresent a ∧ NamesPresent b ∧
      (∀ m ∈ a.leaves .intersection ++ b.leaves .intersection, m.kind ≠ .union) ∧
      fits .empty (a.intersectionWith b) a = true ∧ fits .empty (a.intersectionWith b) b = true := by
  intro a b
  have ha : NamesPresent a := by simp [a, NamesPresent, Everywhere, EverywhereAll]
  have hb : NamesPresent b := by simp [b, NamesPresent, Everywhere, EverywhereAll]
  have hu : ∀ m ∈ a.leaves .intersection ++ b.leaves .intersection, m.kind ≠ .union := by
    simp [a, b, leaves, leavesAll, kind]
  exact ⟨ha, hb, hu, ((fits_intersectionWith_iff .empty).2 a b ha hb hu).2⟩

/-- The intersection of a union with a third class does not fit the union, though it fits itself. -/
theorem intersectionWith_not_lower_bound :
    let a := compound .union (named "A") (named "B") []
    let b := named "C"
    NamesPresent a ∧ NamesPresent b ∧ NamesPresent (a.intersectionWith b) ∧
      fits .empty (a.intersectionWith b) (a.intersectionWith b) = true ∧
      fits .empty (a.intersectionWith b) a = false := by
  intro a b
  have ha : NamesPresent a := by simp [a, NamesPresent, Everywhere, EverywhereAll]
  have hb : NamesPresent b := by simp [b, NamesPresent, Everywhere]
  exact ⟨ha, hb, namesPresent_combine ha hb, fits_refl _ _, by decide⟩

end TypeRecovery.Ty
