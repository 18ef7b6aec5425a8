import TypeRecovery.Proofs.Alike
import TypeRecovery.Proofs.Declared
import TypeRecovery.Proofs.Exchange

/-!
# Rules do not tell exchangeable types apart

If what is known of each operand is exchanged for a related type, every rule comes to a related
outcome. The one rule that needs more is the fetch of class constants: it asks for the values of
constants in the order of the classes that a type names, and equal types may name them in different
orders.
-/
namespace TypeRecovery.Analysis

open Inquiry

variable {R G : Ty → Ty → Prop} {known known' : OperandId → Option Ty}

theorem alike_operandIn (op : Op) (s : Slot) :
    Alike Eq G known known' (operandIn op s) (operandIn op s) := by
  unfold operandIn
  split
  · exact .answer rfl
  · exact .answer rfl
  · exact .fault _

theorem alike_operandsIn (a : Analysis) (op : Op) (s : Slot) :
    Alike Eq G known known' (a.operandsIn op s) (a.operandsIn op s) := by
  unfold operandsIn
  split
  · exact .answer rfl
  · exact .answer rfl
  · exact .fault _
  · exact .fault _

theorem alike_requireName (v : Value) :
    Alike Eq G known known' (requireName v) (requireName v) := by
  unfold requireName
  split
  · exact .answer rfl
  · exact .fault _

theorem alike_ofOption_self {α : Type} (x : Option α) :
    Alike Eq G known known' (ofOption x) (ofOption x) := by
  cases x with
  | none => exact .wait
  | some x => exact .answer rfl

theorem alike_typeIn? (hk : ∀ x, Option.Rel R (known x) (known' x)) (op : Op) (s : Slot) :
    Alike (Option.Rel R) G known known' (typeIn? op s) (typeIn? op s) := by
  refine (alike_operandIn op s).bind fun x y hxy => ?_
  rw [hxy]
  exact alike_known? hk y

theorem alike_typeIn (hk : ∀ x, Option.Rel R (known x) (known' x)) (op : Op) (s : Slot) :
    Alike R G known known' (typeIn op s) (typeIn op s) := by
  refine (alike_operandIn op s).bind fun x y hxy => ?_
  rw [hxy]
  exact alike_known hk y

theorem alike_typesIn (hk : ∀ x, Option.Rel R (known x) (known' x)) (op : Op) (s t : Slot) :
    Alike (fun p q => R p.1 q.1 ∧ R p.2 q.2) G known known' (typesIn op s t) (typesIn op s t) := by
  refine (alike_typeIn? hk op s).bind fun l l' hl => ?_
  refine (alike_typeIn? hk op t).bind fun r r' hr => ?_
  refine (alike_ofOption hl).bind fun x x' hx => ?_
  exact (alike_ofOption hr).map fun y y' hy => ⟨hx, hy⟩

theorem alike_types {ts us : List Ty} (hl : ts.length = us.length)
    (h : ts ≠ [] → Ty.Answers R ts us) :
    Alike (Ty.Answers R) G known known' (types ts) (types us) := by
  unfold types
  cases ts with
  | nil =>
    rw [List.length_nil, eq_comm, List.length_eq_zero_iff] at hl
    rw [hl]
    exact .wait
  | cons t ts =>
    cases us with
    | nil => simp at hl
    | cons u us => exact .answer (h (by simp))

theorem bitwise_congr {l l' r r' : Ty} (hl : l.kind = l'.kind) (hr : r.kind = r'.kind) :
    bitwise l r = bitwise l' r' := by
  rw [bitwise, bitwise, hl, hr]

theorem clean_bitwise (l r : Ty) : (bitwise l r).Clean := by
  unfold bitwise
  split <;> exact Ty.clean_of_leaf rfl rfl (by simp)

section

variable (hR : Ty.Exchange R)

include hR

theorem arrayWith_exchange {t u : Option Ty} (h : Option.Rel R t u) :
    R (arrayWith t) (arrayWith u) := by
  cases h with
  | some h => exact hR.arrayOf h
  | none => exact hR.clean (Ty.clean_of_leaf rfl rfl (by simp [arrayWith]))

theorem arithmetic_exchange {l l' r r' : Ty} (hl : R l l') (hr : R r r') :
    R (arithmetic l r) (arithmetic l' r') := by
  have toList {t u : Option Ty} (h : Option.Rel R t u) : List.Forall₂ R t.toList u.toList := by
    cases h with
    | some h => exact .cons h .nil
    | none => exact .nil
  unfold arithmetic
  rw [hR.kind_eq hl, hR.kind_eq hr]
  split
  case h_5 =>
    apply arrayWith_exchange hR
    exact hR.combineAll? .union (List.rel_append (toList (hR.element hl)) (toList (hR.element hr)))
  case h_6 => exact hR.clean Ty.clean_mixed
  all_goals exact hR.clean (Ty.clean_of_leaf rfl rfl (by simp))

theorem signed_exchange {t u : Ty} (h : R t u) : R (signed t) (signed u) := by
  unfold signed
  rw [hR.kind_eq h]
  split
  · exact h
  · exact hR.clean Ty.clean_numeric

theorem elementOf_exchange {t u : Ty} (h : R t u) : R (elementOf t) (elementOf u) := by
  have he := hR.element h
  unfold elementOf
  generalize t.elementType? = e at he ⊢
  generalize u.elementType? = e' at he ⊢
  cases he with
  | some he => exact he
  | none =>
    simp only [hR.kind_eq h]
    split
    · exact h
    · exact hR.clean Ty.clean_mixed

theorem castObject_exchange (h : Hierarchy) {t u : Ty} (htu : R t u) :
    R (if t.fits h .object then t else .named "stdClass")
      (if u.fits h .object then u else .named "stdClass") := by
  rw [Ty.fits_object_congr (hR.equiv htu)]
  split
  · exact htu
  · exact hR.clean (Ty.clean_of_leaf rfl rfl (by simp))

theorem answers_self {ts : List Ty} (hne : ts ≠ []) (h : ∀ t ∈ ts, t.Clean) :
    Ty.Answers R ts ts :=
  ⟨hne, Or.inl (List.forall₂_same.2 fun t ht => hR.clean (h t ht))⟩

/-- An answer that is given without asking. -/
theorem alike_const {t : Ty} (h : t.Clean) :
    Alike (Ty.Answers R) G known known' (answer [t]) (answer [t]) :=
  .answer (Ty.answers_singleton (hR.clean h))

variable (hk : ∀ x, Option.Rel R (known x) (known' x))

include hk

theorem alike_merge (a : Analysis) (op : Op) (hG : ∀ t u, R t u → G t u) :
    Alike (Ty.Answers R) G known known' (a.merge op) (a.merge op) := by
  have known_types {ts us : List (Option Ty)} (h : List.Forall₂ (Option.Rel R) ts us) :
      List.Forall₂ R (ts.filterMap id) (us.filterMap id) ∧
        ts.all (·.isSome) = us.all (·.isSome) := by
    induction h with
    | nil => exact ⟨.nil, rfl⟩
    | cons h _ ih =>
      cases h with
      | some h => simpa using ⟨⟨h, ih.1⟩, ih.2⟩
      | none => simpa using ih.1
  refine (alike_operandsIn a op .vars).bind fun xs ys hxy => ?_
  rw [hxy]
  refine (alike_mapM_self ys fun x _ => alike_known? hk x).bind fun ts us htu => ?_
  obtain ⟨hf, hall⟩ := known_types htu
  refine (alike_ofOption (hR.combineAll? .union hf)).bind fun t u h => ?_
  rw [hall]
  split
  · exact .answer (Ty.answers_singleton h)
  · exact .guess (hG t u h)

theorem alike_assertedType (a : Analysis) (test : Assertion) :
    Alike R G known known' (a.assertedType test) (a.assertedType test) := by
  refine assertedType.induct a
    (fun test => Alike R G known known' (a.assertedType test) (a.assertedType test))
    (fun tests =>
      Alike (List.Forall₂ R) G known known' (a.assertedTypes tests) (a.assertedTypes tests))
    ?_ ?_ ?_ ?_ ?_ ?_ ?_ test
  · intro x v hv
    simp only [assertedType, hv]
    exact .answer (hR.clean (Ty.clean_declaredOrMixed v))
  · intro x hx
    simp only [assertedType, hx]
    exact alike_known hk (some x)
  · intro c parts ih
    rw [assertedType]
    exact ih.bind fun ts us htu => alike_ofOption (hR.combineAll? c htu)
  · intro first rest ihf ihr
    rw [assertedType]
    refine ihf.bind fun t u htu => ihr.bind fun ts us htus => ?_
    exact alike_ofOption (hR.combineAll? .intersection (.cons htu htus))
  · rw [assertedType]
    exact .fault _
  · rw [assertedTypes]
    exact .answer .nil
  · intro p ps ihp ihps
    rw [assertedTypes]
    exact ihp.bind fun t u htu => ihps.map fun ts us htus => .cons htu htus

theorem alike_narrowed (a : Analysis) (subject : Option OperandId) (test : Assertion) :
    Alike R G known known' (a.narrowed subject test) (a.narrowed subject test) := by
  induction test using narrowed.induct with
  | case1 first rest ih =>
    rw [narrowed]
    refine ih.bind fun t u htu => (alike_known? hk subject).map fun s s' hs => ?_
    cases hs with
    | some hs => exact hR.remove hs htu
    | none => exact hR.remove (hR.clean Ty.clean_mixed) htu
  | case2 =>
    rw [narrowed]
    exact .wait
  | case3 test hn ho =>
    rw [narrowed]
    · exact alike_assertedType hR hk a test
    · exact hn
    · exact ho

theorem alike_constantFetch (a : Analysis) (op : Op) :
    Alike (Ty.Answers R) G known known' (a.constantFetch op) (a.constantFetch op) := by
  refine (alike_ofOption_self _).bind fun v w hv => ?_
  rw [hv]
  refine (alike_requireName w).bind fun s name hs => ?_
  rw [hs]
  split
  · exact alike_const hR (Ty.clean_of_leaf rfl rfl (by simp))
  · exact alike_const hR (Ty.clean_of_leaf rfl rfl (by simp))
  · exact alike_const hR (Ty.clean_of_leaf rfl rfl (by simp))
  · refine (alike_mapM_self _ fun c _ => alike_known hk c.value).bind fun ts us h => ?_
    exact alike_types h.length_eq fun hne => ⟨hne, Or.inl h⟩

theorem alike_newObject (a : Analysis) (op : Op) :
    Alike (Ty.Answers R) G known known' (a.newObject op) (a.newObject op) := by
  have hobject : Ty.object.Clean := Ty.clean_of_leaf rfl rfl (by simp)
  refine (alike_operandIn op .cls).bind fun x y hxy => ?_
  rw [hxy]
  split
  · exact alike_const hR (Ty.clean_of_leaf rfl rfl (by simp))
  · exact alike_const hR (Ty.clean_declaredOrMixed _)
  · refine (alike_known? hk y).bind fun t u htu => ?_
    cases htu with
    | some h =>
      refine .answer (Ty.answers_singleton ?_)
      rw [hR.kind_eq h]
      split
      · exact h
      · exact hR.clean hobject
    | none => exact alike_const hR hobject

omit hk in
theorem alike_functionCall (a : Analysis) (op : Op) :
    Alike (Ty.Answers R) G known known' (a.functionCall op) (a.functionCall op) := by
  refine (alike_ofOption_self _).bind fun v w hv => ?_
  rw [hv]
  refine (alike_requireName w).bind fun s name hs => ?_
  rw [hs]
  split
  · refine (alike_ofOption (R := R) (a := a.signatures.functionType? (Key.of name)) ?_).map
      fun t u htu => Ty.answers_singleton htu
    cases h : a.signatures.functionType? (Key.of name) with
    | none => exact .none
    | some t => exact .some (hR.clean (Signatures.clean_of_functionType? h))
  · rename_i fs hne
    refine .answer (answers_self hR (by simpa using hne) fun t ht => ?_)
    obtain ⟨f, -, rfl⟩ := List.mem_map.1 ht
    exact clean_functionType f

omit hk in
theorem alike_namespacedCall (a : Analysis) (op : Op) :
    Alike (Ty.Answers R) G known known' (a.namespacedCall op) (a.namespacedCall op) := by
  refine (alike_ofOption_self _).bind fun _ _ _ => ?_
  refine (alike_ofOption_self _).bind fun v w hv => ?_
  rw [hv]
  refine (alike_requireName w).bind fun s name hs => ?_
  rw [hs]
  split
  · exact alike_functionCall hR a op
  · rename_i fs hne
    refine .answer (answers_self hR (by simpa using hne) fun t ht => ?_)
    obtain ⟨f, -, rfl⟩ := List.mem_map.1 ht
    exact clean_functionType f

end

theorem classesOf_union (x y : Ty) (rest : List Ty) :
    classesOf (.compound .union x y rest) = (x :: y :: rest).flatMap classesOf := by
  have hall (ts : List Ty) : classesOf.classesOfAll ts = ts.flatMap classesOf := by
    induction ts with
    | nil => rfl
    | cons t ts ih => rw [classesOf.classesOfAll, ih, List.flatMap_cons]
  rw [classesOf, hall]
  simp

/-- The case of a name does not matter. -/
theorem classesOf_named {n m : String} (h : Key.of n = Key.of m) :
    classesOf (.named n) = classesOf (.named m) := by
  have hempty : n = "" ↔ m = "" := by
    rw [← Key.of_eq_of_empty_iff, h, Key.of_eq_of_empty_iff]
  simp [classesOf, hempty, h]

/-- Equal types name the same classes, in some order. -/
theorem classesOf_perm {t u : Ty} (h : t.equiv u = true) : (classesOf t).Perm (classesOf u) := by
  induction t using Ty.members_induction generalizing u with
  | leaf t hm he =>
    have hobject : classesOf .object = classesOf (.named "") := rfl
    cases t with
    | object =>
      cases u with
      | object => exact List.Perm.refl _
      | named n =>
        have hn : Key.of n = Key.of "" := by simpa [Ty.equiv, Ty.classKey?] using h
        rw [hobject, classesOf_named hn]
      | _ => simp [Ty.equiv, Ty.classKey?] at h
    | named n =>
      cases u with
      | object =>
        have hn : Key.of "" = Key.of n := by simpa [Ty.equiv, Ty.classKey?] using h
        rw [hobject, classesOf_named hn]
      | named m =>
        have hn : Key.of m = Key.of n := by simpa [Ty.equiv, Ty.classKey?] using h
        rw [classesOf_named hn]
      | _ => simp [Ty.equiv, Ty.classKey?] at h
    | arrayOf t => simp [Ty.elementType?] at he
    | compound c x y rest => simp [Ty.members] at hm
    | _ => cases u <;> first | exact List.Perm.refl _ | simp [Ty.equiv] at h
  | arrayOf t _ =>
    obtain ⟨u, rfl, -⟩ := Ty.equiv_arrayOf_cases h
    exact List.Perm.refl _
  | compound c x y rest ih =>
    obtain ⟨x', y', rest', rfl, hp⟩ := Ty.equiv_compound_cases h
    cases c with
    | intersection => exact List.Perm.refl _
    | union =>
      rw [classesOf_union, classesOf_union]
      obtain ⟨vs, hperm, hf⟩ := Ty.matched_of_pairOff hp
      refine List.Perm.trans ?_ (hperm.flatMap_right classesOf)
      clear hp hperm h
      generalize x :: y :: rest = ts at hf ih
      induction hf with
      | nil => exact List.Perm.refl _
      | @cons t v ts vs htv _ ih' =>
        rw [List.flatMap_cons, List.flatMap_cons]
        apply List.Perm.append
        · exact ih t List.mem_cons_self htv
        · exact ih' fun s hs => ih s (List.mem_cons_of_mem t hs)

section

variable (hR : Ty.Exchange R) (hk : ∀ x, Option.Rel R (known x) (known' x))

include hR hk

theorem alike_classNames (a : Analysis) (x : Option OperandId) :
    Alike List.Perm G known known' (a.classNames x) (a.classNames x) := by
  refine (alike_known? hk x).bind fun t u htu => ?_
  cases htu with
  | none => exact .answer (List.Perm.refl _)
  | @some t u h =>
    simp only [hR.kind_eq h]
    split
    · split
      · exact .answer (List.Perm.refl _)
      · exact .answer (List.Perm.refl _)
    · exact .answer (classesOf_perm (hR.equiv h))

/-- Clean types, related one by one. -/
def CleanAnswers (R : Ty → Ty → Prop) (ts us : List Ty) : Prop :=
  List.Forall₂ R ts us ∧ (∀ t ∈ ts, t.Clean) ∧ ∀ u ∈ us, u.Clean

omit hR hk in
theorem answers_flatten {tss uss vss : List (List Ty)} (h : List.Forall₂ (CleanAnswers R) tss vss)
    (hp : vss.Perm uss) :
    tss.flatten.length = uss.flatten.length ∧
      (tss.flatten ≠ [] → Ty.Answers R tss.flatten uss.flatten) := by
  have hparts : List.Forall₂ R tss.flatten vss.flatten ∧ (∀ t ∈ tss.flatten, t.Clean) ∧
      ∀ v ∈ vss.flatten, v.Clean := by
    clear hp
    induction h with
    | nil => exact ⟨.nil, by simp, by simp⟩
    | cons h _ ih =>
      simp only [List.flatten_cons, List.mem_append, or_imp, forall_and]
      exact ⟨List.rel_append h.1 ih.1, ⟨h.2.1, ih.2.1⟩, h.2.2, ih.2.2⟩
  obtain ⟨hf, ht, hv⟩ := hparts
  have hperm := hp.flatten
  refine ⟨hf.length_eq.trans hperm.length_eq, fun hne => ⟨hne, Or.inr ⟨⟨_, hf, hperm⟩, ht, ?_⟩⟩⟩
  exact fun u hu => hv u (hperm.symm.subset hu)

/-- Equal types name the same candidates in some order. Where no lookup can fail, what one of them
finds in one order is related to what it finds in the other. -/
theorem alike_memberTypes_order (a : Analysis) (op : Op) (receiver : Slot)
    {lookup : Key → Key → Inquiry (List Ty)} {S T : List Ty → List Ty → Prop}
    (hlookup : ∀ c m, Alike S G known known' (lookup c m) (lookup c m))
    (hplain : ∀ c m, Plain known' (lookup c m))
    (htypes : ∀ tss vss uss, List.Forall₂ S tss vss → vss.Perm uss →
      Alike T G known known' (types tss.flatten) (types uss.flatten)) :
    Alike T G known known' (a.memberTypes op receiver lookup)
      (a.memberTypes op receiver lookup) := by
  refine (alike_ofOption_self _).bind fun v w hv => ?_
  rw [hv]
  refine (alike_operandIn op receiver).bind fun x y hxy => ?_
  rw [hxy]
  refine (alike_classNames hR hk a y).bind fun cs ds hcd => ?_
  have hperm := hcd.flatMap_right a.candidates
  have hempty : (cs.flatMap a.candidates).isEmpty = (ds.flatMap a.candidates).isEmpty := by
    rw [Bool.eq_iff_iff, List.isEmpty_iff_length_eq_zero, List.isEmpty_iff_length_eq_zero,
      hperm.length_eq]
  simp only [hempty]
  split
  · exact .wait
  · refine (alike_requireName w).bind fun s name hs => ?_
    rw [hs]
    -- first the same candidates with the other knowledge, then the candidates in their other order
    have hpoint := alike_mapM_self (f := fun c => lookup c (Key.of name))
      (g := fun c => lookup c (Key.of name)) (cs.flatMap a.candidates)
      fun c _ => hlookup c (Key.of name)
    have horder := alike_mapM_perm (fun c => hplain c (Key.of name)) hperm
    refine (hpoint.comp horder).bind fun tss uss htu => ?_
    obtain ⟨vss, hf, hp⟩ := htu
    exact htypes tss vss uss hf hp

/-- The order of the candidates does not matter as long as their types are clean and none of them
can fail. -/
theorem alike_memberTypes (a : Analysis) (op : Op) (receiver : Slot)
    {lookup : Key → Key → Inquiry (List Ty)}
    (hlookup : ∀ c m, Alike (CleanAnswers R) G known known' (lookup c m) (lookup c m))
    (hplain : ∀ c m, Plain known' (lookup c m)) :
    Alike (Ty.Answers R) G known known' (a.memberTypes op receiver lookup)
      (a.memberTypes op receiver lookup) := by
  refine alike_memberTypes_order hR hk a op receiver hlookup hplain fun tss vss uss hf hp => ?_
  obtain ⟨hl, hanswers⟩ := answers_flatten hf hp
  exact alike_types hl hanswers

/-- A member whose types are declared. -/
theorem alike_memberTypes_declared (a : Analysis) (op : Op) (receiver : Slot)
    {types : Key → Key → List Ty} (hclean : ∀ c m, ∀ t ∈ types c m, t.Clean) :
    Alike (Ty.Answers R) G known known'
      (a.memberTypes op receiver fun c m => answer (types c m))
      (a.memberTypes op receiver fun c m => answer (types c m)) := by
  apply alike_memberTypes hR hk
  · intro c m
    exact .answer ⟨List.forall₂_same.2 fun t ht => hR.clean (hclean c m t ht), hclean c m,
      hclean c m⟩
  · intro c m
    exact Or.inl ⟨_, rfl⟩

theorem alike_constantTypes (a : Analysis) (cls name : Key) :
    Alike (List.Forall₂ R) G known known' (a.constantTypes cls name) (a.constantTypes cls name) := by
  apply alike_mapM_self
  intro s hs
  cases s with
  | value x => exact alike_known hk x
  | signature t => exact .answer (hR.clean (a.clean_of_mem_constantSources hs))

omit hR hk in
theorem plain_constantTypes (a : Analysis) (cls name : Key) :
    Plain known (a.constantTypes cls name) := by
  apply plain_mapM
  intro s _
  cases s with
  | signature t => exact Or.inl ⟨t, rfl⟩
  | value x =>
    cases x with
    | none => exact Or.inr rfl
    | some x =>
      cases h : known x with
      | none =>
        right
        simp only [ConstantSource.type, Inquiry.known, outcome_bind, known?, outcome, h]
      | some t =>
        left
        refine ⟨t, ?_⟩
        simp only [ConstantSource.type, Inquiry.known, outcome_bind, known?, outcome, h]

theorem alike_classConstant (a : Analysis) (op : Op)
    (hclean : ∀ t u, R t u → t.Clean ∧ u.Clean) :
    Alike (Ty.Answers R) G known known' (a.memberTypes op .cls a.constantTypes)
      (a.memberTypes op .cls a.constantTypes) := by
  apply alike_memberTypes hR hk
  · intro c m
    apply (alike_constantTypes hR hk a c m).mono
    exact fun ts us h => ⟨h, Ty.forall_of_forall₂ hclean h⟩
  · exact fun c m => plain_constantTypes a c m

theorem alike_rule (a : Analysis) (op : Op) (hphi : op.action = .phi → ∀ t u, R t u → G t u)
    (hconst : op.action = .classConstFetch → ∀ t u, R t u → t.Clean ∧ u.Clean) :
    Alike (Ty.Answers R) G known known' (a.rule op) (a.rule op) := by
  cases haction : op.action <;> simp only [rule, haction]
  case bitwiseAnd | bitwiseOr | bitwiseXor =>
    apply (alike_typesIn hk op .left .right).map
    intro p q hpq
    rw [bitwise_congr (hR.kind_eq hpq.1) (hR.kind_eq hpq.2)]
    exact Ty.answers_singleton (hR.clean (clean_bitwise _ _))
  case bitwiseNot =>
    apply (alike_typeIn hk op .expr).map
    intro t u htu
    rw [bitwise_congr (hR.kind_eq htu) (hR.kind_eq htu)]
    exact Ty.answers_singleton (hR.clean (clean_bitwise _ _))
  case plus | minus | times | divide =>
    apply (alike_typesIn hk op .left .right).map
    intro p q hpq
    exact Ty.answers_singleton (arithmetic_exchange hR hpq.1 hpq.2)
  case unaryMinus | unaryPlus =>
    apply (alike_typeIn hk op .expr).map
    intro t u htu
    exact Ty.answers_singleton (signed_exchange hR htu)
  case evaluate | includeFile | yieldValue | iteratorKey => exact .wait
  case iteratorValue =>
    apply (alike_typeIn hk op .var).bind
    intro t u htu
    apply (alike_ofOption (hR.element htu)).map
    exact fun _ _ => Ty.answers_singleton
  case newArray =>
    apply (alike_operandsIn a op .values).bind
    intro xs ys hxy
    rw [hxy]
    apply (alike_mapM_self ys fun x _ => alike_known hk x).map
    intro ts us htu
    exact Ty.answers_singleton (arrayWith_exchange hR (hR.combineAll? .union htu))
  case arrayDimFetch =>
    apply (alike_typeIn hk op .var).map
    intro t u htu
    exact Ty.answers_singleton (elementOf_exchange hR htu)
  case assign | assignRef | cloneObject =>
    apply (alike_typeIn hk op .expr).map
    exact fun _ _ => Ty.answers_singleton
  case castObject =>
    apply (alike_typeIn hk op .expr).map
    intro t u htu
    exact Ty.answers_singleton (castObject_exchange hR a.hierarchy htu)
  case staticVar =>
    apply (alike_operandIn op .fallback).bind
    intro x y hxy
    rw [hxy]
    cases y with
    | none => exact alike_const hR (Ty.clean_of_leaf rfl rfl (by simp))
    | some y => exact (alike_known hk (some y)).map fun _ _ => Ty.answers_singleton
  case phi => exact alike_merge hR hk a op (hphi haction)
  case assertion =>
    cases op with
    | assertion head subject test =>
      exact (alike_narrowed hR hk a subject test).map fun _ _ => Ty.answers_singleton
    | _ => exact .fault _
  case constFetch => exact alike_constantFetch hR hk a op
  case parameter =>
    cases op with
    | parameter head name declared fallback comment =>
      exact alike_const hR (a.clean_parameterType name declared fallback comment)
    | _ => exact .fault _
  case newObject => exact alike_newObject hR hk a op
  case funcCall => exact alike_functionCall hR a op
  case nsFuncCall => exact alike_namespacedCall hR a op
  case methodCall => exact alike_memberTypes_declared hR hk a op .var (a.clean_callTypes false)
  case staticCall => exact alike_memberTypes_declared hR hk a op .cls (a.clean_callTypes true)
  case propertyFetch => exact alike_memberTypes_declared hR hk a op .var (a.clean_fetchTypes false)
  case staticPropertyFetch =>
    exact alike_memberTypes_declared hR hk a op .cls (a.clean_fetchTypes true)
  case classConstFetch => exact alike_classConstant hR hk a op (hconst haction)
  all_goals first
    | exact .fault _
    | exact alike_const hR (Ty.clean_of_leaf rfl rfl (by simp))

/-- All operations that write an operand, merged. -/
theorem alike_inquiry (a : Analysis) (x : OperandId)
    (hphi : ∀ op ∈ a.graph.producers x, op.action = .phi → ∀ t u, R t u → G t u)
    (hconst : ∀ op ∈ a.graph.producers x, op.action = .classConstFetch →
      ∀ t u, R t u → t.Clean ∧ u.Clean) :
    Alike R G known known' (a.inquiry x) (a.inquiry x) := by
  have hrules : Alike (List.Forall₂ (Ty.Answers R)) G known known'
      ((a.graph.producers x).mapM fun op => (a.rule op).mapFault (blame op))
      ((a.graph.producers x).mapM fun op => (a.rule op).mapFault (blame op)) := by
    apply alike_mapM_self
    intro op hop
    exact (alike_rule hR hk a op (hphi op hop) (hconst op hop)).mapFault (blame op)
  apply hrules.bind
  intro tss uss h
  cases tss with
  | nil =>
    cases h
    exact .wait
  | cons ts tss =>
    obtain ⟨hn, hn'⟩ := Ty.flatten_ne_nil h (by simp)
    have hl := hR.lubAll h (by simp)
    unfold types
    rw [if_neg (by simpa using hn), if_neg (by simpa using hn')]
    exact .answer hl

end

end TypeRecovery.Analysis
