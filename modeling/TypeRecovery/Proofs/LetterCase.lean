import Mathlib.Tactic.IntervalCases
import TypeRecovery.Proofs.Agreement

/-!
# Letter case of texts and types

Folding writes the capitals of ASCII in lowercase and leaves everything else. Texts with the same
folding differ in letter case only. They have the same key, so a type and its folding are equal, and
every operation on types commutes with folding: whichever of two equal members is kept, its folding
is the same as if all types had been folded before.
-/
namespace TypeRecovery

namespace Text

def capitals : List Char := "ABCDEFGHIJKLMNOPQRSTUVWXYZ".toList

theorem mem_capitals_of_toLower_ne {c : Char} (h : c.toLower ≠ c) : c ∈ capitals := by
  have hrange : 65 ≤ c.toNat ∧ c.toNat ≤ 90 := by
    by_contra hout
    exact h (dif_neg fun hin => hout ⟨hin.1, hin.2⟩)
  obtain ⟨hlow, hhigh⟩ := hrange
  rw [← Char.ofNat_toNat c]
  generalize c.toNat = n at hlow hhigh
  interval_cases n <;> decide

/-- What does not tell the capitals from their small letters does not depend on letter case. -/
theorem apply_toLower {α : Type} [DecidableEq α] {f : Char → α}
    (h : capitals.all (fun c => f c.toLower = f c) = true) (c : Char) : f c.toLower = f c := by
  by_cases hc : c.toLower = c
  · rw [hc]
  · simpa using List.all_eq_true.1 h c (mem_capitals_of_toLower_ne hc)

/-- A character that is no small letter is the folding of itself only. -/
theorem eq_of_toLower_eq {c d : Char} (hd : capitals.all (fun c => c.toLower != d) = true)
    (h : c.toLower = d) : c = d := by
  by_cases hc : c.toLower = c
  · rw [← hc, h]
  · have hne := List.all_eq_true.1 hd c (mem_capitals_of_toLower_ne hc)
    simp [h] at hne

theorem toLower_toLower (c : Char) : c.toLower.toLower = c.toLower := apply_toLower (by decide) c

theorem isCased_toLower (c : Char) : isCased c.toLower = isCased c := apply_toLower (by decide) c

theorem isCaseIgnorable_toLower (c : Char) : isCaseIgnorable c.toLower = isCaseIgnorable c :=
  apply_toLower (by decide +kernel) c

theorem endsWord_map (before after : List Char) :
    endsWord (before.map Char.toLower) (after.map Char.toLower) = endsWord before after := by
  have hdrop (cs : List Char) : (cs.map Char.toLower).dropWhile isCaseIgnorable =
      (cs.dropWhile isCaseIgnorable).map Char.toLower := by
    rw [List.dropWhile_map]
    exact congrArg (fun p => (cs.dropWhile p).map Char.toLower) (funext isCaseIgnorable_toLower)
  unfold endsWord
  rw [hdrop, hdrop]
  cases before.dropWhile isCaseIgnorable <;> cases after.dropWhile isCaseIgnorable <;>
    simp [isCased_toLower]

theorem lowerAt_map (before after : List Char) (c : Char) :
    lowerAt (before.map Char.toLower) c.toLower (after.map Char.toLower) =
      lowerAt before c after := by
  have hsigma : (c.toLower.toNat == 0x3A3) = (c.toNat == 0x3A3) :=
    apply_toLower (f := fun c => c.toNat == 0x3A3) (by decide) c
  have hdotted : (c.toLower.toNat == 0x130) = (c.toNat == 0x130) :=
    apply_toLower (f := fun c => c.toNat == 0x130) (by decide) c
  have hother : lowerChar c.toLower = lowerChar c := apply_toLower (by decide) c
  rw [lowerAt, lowerAt, hsigma, hdotted, hother, endsWord_map]

theorem lowerFrom_map (before cs : List Char) :
    lowerFrom (before.map Char.toLower) (cs.map Char.toLower) = lowerFrom before cs := by
  induction cs generalizing before with
  | nil => rfl
  | cons c cs ih =>
    rw [List.map_cons, lowerFrom, lowerFrom, lowerAt_map, ← ih (c :: before), List.map_cons]

/-- The text with its capitals of ASCII in lowercase. -/
def folded (s : String) : String := String.ofList (s.toList.map Char.toLower)

@[simp] theorem toList_folded (s : String) : (folded s).toList = s.toList.map Char.toLower :=
  String.toList_ofList

@[simp] theorem folded_folded (s : String) : folded (folded s) = folded s := by
  rw [folded, toList_folded, List.map_map, folded]
  exact congrArg (fun f => String.ofList (s.toList.map f)) (funext toLower_toLower)

theorem folded_beq_empty (s : String) : (folded s == "") = (s == "") := by
  rw [Bool.eq_iff_iff, beq_iff_eq, beq_iff_eq, ← String.toList_eq_nil_iff, toList_folded,
    List.map_eq_nil_iff, String.toList_eq_nil_iff]

theorem lower_folded (s : String) : lower (folded s) = lower s := by
  rw [lower, toList_folded, lower]
  exact congrArg String.ofList (lowerFrom_map [] s.toList)

end Text

@[simp] theorem Key.of_folded (name : String) : Key.of (Text.folded name) = Key.of name := by
  rw [Key.of, Text.lower_folded, Key.of]

namespace Ty

mutual

/-- The type with all its class names folded. -/
def folded : Ty → Ty
  | named name => named (Text.folded name)
  | arrayOf t => arrayOf t.folded
  | compound c x y rest => compound c x.folded y.folded (foldedAll rest)
  | t => t

def foldedAll : List Ty → List Ty
  | [] => []
  | t :: ts => t.folded :: foldedAll ts

end

theorem foldedAll_eq (ts : List Ty) : foldedAll ts = ts.map folded := by
  induction ts with
  | nil => rfl
  | cons t ts ih => rw [foldedAll, ih, List.map_cons]

theorem folded_compound (c : Combinator) (x y : Ty) (rest : List Ty) :
    (compound c x y rest).folded = compound c x.folded y.folded (rest.map folded) := by
  rw [folded, foldedAll_eq]

@[simp] theorem folded_folded (t : Ty) : t.folded.folded = t.folded := by
  induction t using members_induction with
  | leaf t hm he => cases t <;> simp_all [folded, members, elementType?]
  | arrayOf t ih => rw [folded, folded, ih]
  | compound c x y rest ih =>
    rw [folded_compound, folded_compound]
    simp only [List.mem_cons, forall_eq_or_imp] at ih
    simpa [ih.1, ih.2.1] using ih.2.2

@[simp] theorem kind_folded (t : Ty) : t.folded.kind = t.kind := by
  cases t <;> rfl

theorem isUnknown_folded (t : Ty) : t.folded.isUnknown = t.isUnknown := by
  rw [isUnknown, kind_folded, isUnknown]

theorem elementType?_folded (t : Ty) : t.folded.elementType? = t.elementType?.map folded := by
  cases t <;> rfl

theorem members_folded (t : Ty) : t.folded.members = t.members.map folded := by
  cases t with
  | compound c x y rest => rw [folded_compound]; rfl
  | _ => rfl

/-- A type is equal to its folding. -/
theorem equiv_folded_self (t : Ty) : t.equiv t.folded = true := by
  induction t using members_induction with
  | leaf t hm he => cases t <;> simp_all [folded, equiv, classKey?, members, elementType?]
  | arrayOf t ih => rwa [folded, equiv]
  | compound c x y rest ih =>
    rw [folded_compound, equiv_compound_iff]
    refine ⟨rfl, (x :: y :: rest).map folded, List.Perm.refl _, ?_⟩
    exact List.forall₂_map_right_iff.2 (List.forall₂_same.2 ih)

theorem equiv_folded (t u : Ty) : t.folded.equiv u.folded = t.equiv u :=
  (equiv_congr (equiv_folded_self t) (equiv_folded_self u)).symm

theorem equiv_of_folded_eq {t u : Ty} (h : t.folded = u.folded) : t.equiv u = true := by
  rw [← equiv_folded, h]
  exact equiv_refl _

theorem parts_folded (c : Combinator) (t : Ty) : t.folded.parts c = (t.parts c).map folded := by
  rw [parts_eq_ite, parts_eq_ite, kind_folded]
  split
  · exact members_folded t
  · rfl

theorem join_folded (c : Combinator) (ts : List Ty) :
    join c (ts.map folded) = (join c ts).folded := by
  match ts with
  | [] => rfl
  | [t] => rfl
  | a :: b :: rest => exact (folded_compound c a b rest).symm

theorem unique_folded (ts : List Ty) : unique (ts.map folded) = (unique ts).map folded := by
  induction ts using List.reverseRecOn with
  | nil => rfl
  | append_singleton ts t ih =>
    have hany : ((unique ts).map folded).any (equiv t.folded) = (unique ts).any (equiv t) := by
      rw [List.any_map]
      exact congrArg (unique ts).any (funext fun u => equiv_folded t u)
    rw [List.map_append, List.map_singleton, unique_concat, unique_concat, ih, hany]
    split
    · rfl
    · rw [List.map_append, List.map_singleton]

theorem combine_folded (c : Combinator) (a b : Ty) :
    combine c a.folded b.folded = (combine c a b).folded := by
  rw [combine, combine, equiv_folded]
  split
  · rfl
  · rw [parts_folded, parts_folded, ← List.map_append, unique_folded, join_folded]

theorem combineAll?_folded (c : Combinator) (ts : List Ty) :
    combineAll? c (ts.map folded) = (combineAll? c ts).map folded := by
  cases ts with
  | nil => rfl
  | cons t ts =>
    refine congrArg some ?_
    induction ts generalizing t with
    | nil => rfl
    | cons u ts ih =>
      rw [List.map_cons, List.foldl_cons, List.foldl_cons, combine_folded]
      exact ih (combine c t u)

theorem remove_folded (u t : Ty) : u.folded.remove t.folded = (u.remove t).folded := by
  by_cases he : u.equiv t = true
  · rw [remove_of_equiv he, remove_of_equiv ((equiv_folded u t).trans he)]
    rfl
  rw [Bool.not_eq_true] at he
  have he' := (equiv_folded u t).trans he
  by_cases hk : u.kind = .union
  · obtain ⟨a, b, rest, rfl⟩ := exists_of_kind_eq (d := .union) hk
    have hkept : (a.folded :: b.folded :: rest.map folded).filter (fun m => !m.equiv t.folded) =
        ((a :: b :: rest).filter fun m => !m.equiv t).map folded := by
      rw [← List.map_cons, ← List.map_cons, List.filter_map]
      refine congrArg (fun p => ((a :: b :: rest).filter p).map folded) (funext fun m => ?_)
      exact congrArg (!·) (equiv_folded m t)
    rw [folded_compound] at he' ⊢
    rw [remove_union he, remove_union he', hkept]
    generalize (a :: b :: rest).filter (fun m => !m.equiv t) = kept
    cases kept with
    | nil => rfl
    | cons m kept => simpa using join_folded .union (m :: kept)
  · rw [remove_of_kind_ne he hk, remove_of_kind_ne he' (by rwa [kind_folded])]

theorem simplify_folded (t : Ty) : t.folded.simplify = t.simplify.folded := by
  induction t using members_induction with
  | leaf t hm he =>
    rw [simplify_leaf hm he, simplify_leaf]
    · rw [members_folded, hm, List.map_nil]
    · rw [elementType?_folded, he, Option.map_none]
  | arrayOf t ih => rw [folded, simplify, ih, simplify, folded]
  | compound c x y rest ih =>
    rw [folded_compound, simplify_compound, simplify_compound, ← join_folded, List.map_flatMap,
      ← List.map_cons, ← List.map_cons, List.flatMap_map]
    refine congrArg (join c) (List.flatMap_congr fun t ht => ?_)
    rw [ih t ht, parts_folded]

theorem lub_folded (a b : Ty) : lub a.folded b.folded = (lub a b).folded := by
  rw [lub, lub, isUnknown_folded, isUnknown_folded]
  split
  · rfl
  · split
    · rfl
    · exact combine_folded .union a b

theorem lubAll_folded (ts : List Ty) : lubAll (ts.map folded) = (lubAll ts).folded := by
  have hfold (a : Ty) : (ts.map folded).foldl lub a.folded = (ts.foldl lub a).folded := by
    induction ts generalizing a with
    | nil => rfl
    | cons t ts ih => rw [List.map_cons, List.foldl_cons, List.foldl_cons, lub_folded, ih]
  exact hfold bottom

theorem meets_folded {same same' direct direct' : Ty → Bool}
    (hs : ∀ t, same' t.folded = same t) (hd : ∀ t, direct' t.folded = direct t) (t : Ty) :
    meets same' direct' t.folded = meets same direct t := by
  have hplain {t : Ty} (ht : t.kind.isCompound = false) :
      meets same' direct' t.folded = meets same direct t := by
    rw [meets_of_plain ht, meets_of_plain (by rwa [kind_folded]), hs, hd]
  induction t using members_induction with
  | leaf t hm he =>
    apply hplain
    cases t with
    | compound c x y rest => cases hm
    | _ => rfl
  | arrayOf t _ => exact hplain rfl
  | compound c x y rest ih =>
    have hsame := hs (compound c x y rest)
    have hmembers {Q : Bool → Prop} : (∀ t ∈ rest, Q (meets same' direct' t.folded)) ↔
        ∀ t ∈ rest, Q (meets same direct t) := by
      refine forall₂_congr fun t ht => ?_
      rw [ih t (by simp [ht])]
    have hany : meetsAny same' direct' (rest.map folded) = meetsAny same direct rest := by
      rw [Bool.eq_iff_iff, ← not_iff_not, meetsAny_iff, meetsAny_iff]
      simpa using hmembers (Q := (· = false))
    have hall : meetsAll same' direct' (rest.map folded) = meetsAll same direct rest := by
      rw [Bool.eq_iff_iff, meetsAll_iff, meetsAll_iff]
      simpa using hmembers (Q := (· = true))
    rw [folded_compound] at hsame ⊢
    cases c with
    | union => rw [meets, meets, hsame, ih x (by simp), ih y (by simp), hany]
    | intersection => rw [meets, meets, hsame, ih x (by simp), ih y (by simp), hall]

/-- What fits directly does so whatever the case of letters, if this is so for all members. -/
theorem fitsDirectly_folded (h : Hierarchy) {a : Ty}
    (hm : ∀ m ∈ a.members, ∀ t, fits h m.folded t.folded = fits h m t)
    (he : ∀ e, a.elementType? = some e → ∀ t, fits h e.folded t.folded = fits h e t) (t : Ty) :
    fitsDirectly h a.folded t.folded = fitsDirectly h a t := by
  cases a with
  | compound c x y rest =>
    have hany : anyFits h (rest.map folded) t.folded = anyFits h rest t := by
      rw [Bool.eq_iff_iff, anyFits_iff, anyFits_iff]
      simp only [List.mem_map, exists_exists_and_eq_and]
      refine exists_congr fun m => and_congr_right fun hmem => ?_
      rw [hm m (by simp [members, hmem])]
    rw [folded_compound, fitsDirectly, fitsDirectly, hany, hm x (by simp [members]),
      hm y (by simp [members])]
  | arrayOf e =>
    cases t with
    | arrayOf e' => exact he e rfl e'
    | _ => rfl
  | array => cases t <;> rfl
  | _ => cases t <;> simp [folded, fitsDirectly, fitsPlain, kind]

theorem fits_folded (h : Hierarchy) (a b : Ty) : fits h a.folded b.folded = fits h a b := by
  have hother {a : Ty} (ha : a.kind ≠ .union)
      (hm : ∀ m ∈ a.members, ∀ t, fits h m.folded t.folded = fits h m t)
      (he : ∀ e, a.elementType? = some e → ∀ t, fits h e.folded t.folded = fits h e t) (b : Ty) :
      fits h a.folded b.folded = fits h a b := by
    rw [fits_eq_meets ha, fits_eq_meets (by rwa [kind_folded])]
    exact meets_folded (equiv_folded a) (fitsDirectly_folded h hm he) b
  induction a using members_induction generalizing b with
  | leaf a hm he =>
    refine hother ?_ (by simp [hm]) (by simp [he]) b
    cases a with
    | compound c x y rest => cases hm
    | _ => simp [kind]
  | arrayOf a ih =>
    refine hother (by simp [kind]) (by simp [members]) (fun e he => ?_) b
    exact Option.some.inj he ▸ ih
  | compound c x y rest ih =>
    cases c with
    | intersection =>
      exact hother (a := compound .intersection x y rest) (by simp [kind, Combinator.kind]) ih
        (by simp [elementType?]) b
    | union =>
      have hself := equiv_folded (compound .union x y rest) b
      rw [folded_compound] at hself ⊢
      rw [Bool.eq_iff_iff, fits_union_left, fits_union_left, hself, ← List.map_cons,
        ← List.map_cons]
      simp only [List.forall_mem_map]
      refine or_congr_right (forall₂_congr fun m hmem => ?_)
      rw [ih m hmem]

theorem classesOf_folded (t : Ty) : Analysis.classesOf t.folded = Analysis.classesOf t := by
  induction t using members_induction with
  | leaf t hm he =>
    cases t with
    | named name => exact Analysis.classesOf_named (Key.of_folded name)
    | compound c x y rest => cases hm
    | _ => rfl
  | arrayOf t _ => rfl
  | compound c x y rest ih =>
    rw [folded_compound]
    cases c with
    | intersection => rfl
    | union =>
      rw [Analysis.classesOf_union, Analysis.classesOf_union, ← List.map_cons, ← List.map_cons,
        List.flatMap_map]
      exact List.flatMap_congr ih

end Ty

end TypeRecovery
