import Mathlib.Data.List.FinRange
import Mathlib.Data.List.NodupEquivFin
import Mathlib.Data.List.Pairwise
import Mathlib.Data.List.Sort
import TypeRecovery.Proofs.Combination
import TypeRecovery.Ty.Hash

/-!
# Equal types have equal hashes

Equality of compounds is a pairing of positions, and a pairing leaves the set of the members' hashes
as it is. So equal types have equal hashes, whatever numbers, texts, tuples and sets are hashed to,
and a set that is searched by hash keeps the same types as one that is searched from end to end.
-/
namespace TypeRecovery

theorem mem_insertNumber {n x : Int} {ms : List Int} :
    x ∈ insertNumber n ms ↔ x = n ∨ x ∈ ms := by
  induction ms with
  | nil => simp [insertNumber]
  | cons m ms ih =>
    rw [insertNumber]
    split_ifs with hlt heq
    · simp
    · simp [heq]
    · rw [List.mem_cons, ih, List.mem_cons]
      exact or_left_comm

theorem pairwise_insertNumber {n : Int} {ms : List Int} (h : ms.Pairwise (· < ·)) :
    (insertNumber n ms).Pairwise (· < ·) := by
  induction ms with
  | nil => exact List.pairwise_singleton _ _
  | cons m ms ih =>
    obtain ⟨hm, hms⟩ := List.pairwise_cons.1 h
    rw [insertNumber]
    split_ifs with hlt heq
    · refine List.pairwise_cons.2 ⟨fun x hx => ?_, h⟩
      rcases List.mem_cons.1 hx with rfl | hx
      · exact hlt
      · exact hlt.trans (hm x hx)
    · exact h
    · refine List.pairwise_cons.2 ⟨fun x hx => ?_, ih hms⟩
      rcases mem_insertNumber.1 hx with rfl | hx
      · omega
      · exact hm x hx

namespace Ty

/-- Members can be paired off exactly if there is a bijection of their positions along which they are
equal. -/
theorem matched_iff_positions {ts us : List Ty} :
    Matched ts us ↔ ∃ σ : Fin ts.length ≃ Fin us.length,
      ∀ i, (ts.get i).equiv (us.get (σ i)) = true := by
  constructor
  · rintro ⟨vs, hp, hf⟩
    -- a rearrangement of `us` is a list of all its positions
    have hcomp : Relation.Comp (· = List.map us.get ·) List.Perm vs (List.finRange us.length) := by
      rw [List.eq_map_comp_perm]
      simpa only [List.map_get_finRange] using hp
    obtain ⟨is, rfl, his⟩ := hcomp
    have hnd : is.Nodup := his.nodup_iff.2 (List.nodup_finRange _)
    have hall : ∀ i, i ∈ is := fun i => his.mem_iff.2 (List.mem_finRange i)
    obtain ⟨hl, hget⟩ := List.forall₂_iff_get.1 hf
    rw [List.length_map] at hl
    refine ⟨(finCongr hl).trans (hnd.getEquivOfForallMemList is hall), fun i => ?_⟩
    have hi := hget i i.isLt (by rw [List.length_map, ← hl]; exact i.isLt)
    simpa using hi
  · rintro ⟨σ, hσ⟩
    refine ⟨(List.finRange ts.length).map fun i => us.get (σ i), ?_, ?_⟩
    · have hp : ((List.finRange ts.length).map σ).Perm (List.finRange us.length) := by
        refine (List.perm_ext_iff_of_nodup ?_ (List.nodup_finRange _)).2 fun i => ?_
        · exact (List.nodup_finRange _).map σ.injective
        · simpa using ⟨σ.symm i, σ.apply_symm_apply i⟩
      have hm := hp.map us.get
      rwa [List.map_map, List.map_get_finRange] at hm
    · refine List.forall₂_iff_get.2 ⟨by simp, fun i hi _ => ?_⟩
      simpa using hσ ⟨i, hi⟩

variable {f : Hashing}

theorem mem_hashSet {ts : List Ty} {x : Int} : x ∈ hashSet f ts ↔ ∃ t ∈ ts, t.hash f = x := by
  induction ts with
  | nil => simp [hashSet]
  | cons t ts ih => simp [hashSet, mem_insertNumber, ih, eq_comm]

theorem pairwise_hashSet (f : Hashing) (ts : List Ty) : (hashSet f ts).Pairwise (· < ·) := by
  induction ts with
  | nil => exact List.Pairwise.nil
  | cons t ts ih => exact pairwise_insertNumber ih

theorem hash_compound (f : Hashing) (c : Combinator) (a b : Ty) (rest : List Ty) :
    (compound c a b rest).hash f = f.tagged c.kind (f.set (hashSet f (a :: b :: rest))) := rfl

/-- Members that are paired off with members of the same hash give the same set. -/
theorem hashSet_eq_of_matched {ts us : List Ty} (h : Matched ts us)
    (ih : ∀ t ∈ ts, ∀ u, t.equiv u = true → t.hash f = u.hash f) :
    hashSet f ts = hashSet f us := by
  refine (pairwise_hashSet f ts).eq_of_mem_iff (pairwise_hashSet f us) fun x => ?_
  rw [mem_hashSet, mem_hashSet]
  constructor
  · rintro ⟨t, ht, rfl⟩
    obtain ⟨u, hu, htu⟩ := h.exists_right ht
    exact ⟨u, hu, (ih t ht u htu).symm⟩
  · rintro ⟨u, hu, rfl⟩
    obtain ⟨t, ht, htu⟩ := h.exists_left hu
    exact ⟨t, ht, ih t ht u htu⟩

theorem hash_eq_of_equiv (f : Hashing) {a b : Ty} (h : a.equiv b = true) : a.hash f = b.hash f := by
  induction a using members_induction generalizing b with
  | leaf t hm he => cases t <;> cases b <;> simp_all [equiv, classKey?, members, elementType?, hash]
  | arrayOf t ih =>
    obtain ⟨u, rfl, htu⟩ := equiv_arrayOf_cases h
    rw [hash, hash, ih htu]
  | compound c x y rest ih =>
    obtain ⟨x', y', rest', rfl, hp⟩ := equiv_compound_cases h
    rw [hash_compound, hash_compound,
      hashSet_eq_of_matched (matched_of_pairOff hp) fun t ht _ => ih t ht]

end Ty

namespace HashedSet

variable {f : Hashing}

/-- The hash never hides an equal element. -/
theorem contains_eq_any (s : HashedSet f) (t : Ty) : s.contains t = s.elements.any t.equiv := by
  rw [Bool.eq_iff_iff, contains, List.any_eq_true, List.any_eq_true]
  refine exists_congr fun u => and_congr_right fun _ => ?_
  rw [Bool.and_eq_true, beq_iff_eq, Ty.equiv_comm u t]
  exact and_iff_right_of_imp fun h => (Ty.hash_eq_of_equiv f h).symm

theorem elements_insert (s : HashedSet f) (t : Ty) :
    (s.insert t).elements =
      if s.elements.any t.equiv then s.elements else s.elements ++ [t] := by
  rw [insert, contains_eq_any]
  split <;> rfl

/-- Whatever is used to hash, a set keeps the first of each class of equal types. -/
theorem elements_ofList (f : Hashing) (ts : List Ty) :
    (ofList f ts).elements = Ty.unique ts := by
  have hrun (s : HashedSet f) : (ts.foldl insert s).elements =
      ts.foldl (fun kept t => if kept.any t.equiv then kept else kept ++ [t]) s.elements := by
    induction ts generalizing s with
    | nil => rfl
    | cons t ts ih => rw [List.foldl_cons, List.foldl_cons, ih, elements_insert]
  exact hrun {}

example (f : Hashing) : (ofList f [.named "Foo", .named "fOO", .int]).size = 2 := by
  rw [size, elements_ofList]
  decide

end HashedSet

namespace Ty

/-- In a list without repetitions, at most one type is equal to a given one. -/
theorem Distinct.eq_of_equiv {ts : List Ty} (h : Distinct ts) {t u v : Ty} (hu : u ∈ ts)
    (hv : v ∈ ts) (hut : u.equiv t = true) (hvt : v.equiv t = true) : u = v := by
  by_contra hne
  have : Std.Symm fun a b : Ty => a.equiv b = false := ⟨fun a b hab => by rw [equiv_comm, hab]⟩
  have huv : u.equiv v = false := List.Pairwise.forall h hu hv hne
  rw [equiv_trans hut (equiv_symm hvt)] at huv
  exact absurd huv (by decide)

/-- Equality of types is an equivalence that pairs off the members of compounds; equal types have
equal hashes; and a set of types has one element for each class of equal types put into it. -/
theorem equality_of_types :
    Equivalence (fun a b : Ty => a.equiv b = true) ∧
    (∀ (c : Combinator) (x y x' y' : Ty) (rest rest' : List Ty),
      (compound c x y rest).equiv (compound c x' y' rest') = true ↔
        ∃ σ : Fin (x :: y :: rest).length ≃ Fin (x' :: y' :: rest').length,
          ∀ i, ((x :: y :: rest).get i).equiv ((x' :: y' :: rest').get (σ i)) = true) ∧
    (∀ (f : Hashing) (a b : Ty), a.equiv b = true → a.hash f = b.hash f) ∧
    (∀ (f : Hashing) (ts : List Ty),
      (HashedSet.ofList f ts).elements ⊆ ts ∧ Distinct (HashedSet.ofList f ts).elements ∧
      ∀ t ∈ ts, ∃! u, u ∈ (HashedSet.ofList f ts).elements ∧ u.equiv t = true) := by
  refine ⟨⟨equiv_refl, equiv_symm, equiv_trans⟩, ?_, fun f _ _ => hash_eq_of_equiv f, ?_⟩
  · intro c x y x' y' rest rest'
    rw [equiv_compound_iff, and_iff_right rfl, matched_iff_positions]
  · intro f ts
    rw [HashedSet.elements_ofList]
    refine ⟨fun _ => mem_of_mem_unique, distinct_unique ts, fun t ht => ?_⟩
    obtain ⟨u, hu, htu⟩ := covered_unique ts t ht
    refine ⟨u, ⟨hu, equiv_symm htu⟩, ?_⟩
    rintro v ⟨hv, hvt⟩
    exact (distinct_unique ts).eq_of_equiv hv hu hvt (equiv_symm htu)

end Ty

end TypeRecovery
