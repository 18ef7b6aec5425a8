import TypeRecovery.Proofs.FoldedPrograms
import TypeRecovery.Proofs.Searches

/-!
# Letter case and the rules

The rules of a program and those of its folding run in parallel: they ask the same questions, and if
the answers to these differ in letter case only, so do the types they come to. Types from comments
keep their letters in both programs, so a rule of the folded program need not come to a folded type.
The one rule that reads a name letter by letter is the fetch of a global constant, and its name is
the same in both.
-/
namespace TypeRecovery

namespace Ty

theorem kind_eq_of_folded_eq {t u : Ty} (h : t.folded = u.folded) : t.kind = u.kind := by
  rw [← kind_folded, h, kind_folded]

theorem fits_folded_right (h : Hierarchy) (t u : Ty) : fits h t u.folded = fits h t u := by
  rw [← fits_folded h t u.folded, folded_folded, fits_folded]

theorem singleton_of_folded_eq {t u : Ty} (h : t.folded = u.folded) :
    [t].map folded = [u].map folded :=
  congrArg ([·]) h

end Ty

theorem Key.of_eq_of_folded_eq {s t : String} (h : Text.folded s = Text.folded t) :
    Key.of s = Key.of t := by
  rw [← Key.of_folded, h, Key.of_folded]

theorem isEmpty_eq_of_map_eq {α β : Type} {φ : α → β} {xs ys : List α}
    (h : xs.map φ = ys.map φ) : xs.isEmpty = ys.isEmpty := by
  rw [← List.isEmpty_map (f := φ), h, List.isEmpty_map]

/-- Two parts of searches found the same up to `φ`. -/
def Found.Same {α β : Type} (φ : α → β) {before before' : List Key} (r : Found α before)
    (r' : Found α before') : Prop :=
  r.items.map φ = r'.items.map φ ∧ r.visited = r'.visited

namespace Search

variable {α β : Type}

/-- Searches of a program and of its folding find the same up to `φ`, if this is so for what each
class-like declares itself. -/
theorem same_inName_folded {s s' : Search α} {φ : α → β} {i : Index}
    (hown : ∀ c, (s'.own? c.folded).map (List.map φ) = (s.own? c).map (List.map φ))
    (hsig : s'.signature = s.signature) (htraits : s'.inTraits = s.inTraits) (visited : List Key)
    (k : Key) : (s'.inName i.folded visited k).Same φ (s.inName i visited k) := by
  have hnamed {visited : List Key} {k : Key} (hk : k ∉ visited)
      (ih : (s'.inClasses i.folded (k :: visited) ((i.classesNamed k).map ClassLike.folded)).Same φ
        (s.inClasses i (k :: visited) (i.classesNamed k))) :
      (s'.inName i.folded visited k).Same φ (s.inName i visited k) := by
    obtain ⟨hitems, hvisited⟩ := s.inName_of_not_mem i hk
    obtain ⟨hitems', hvisited'⟩ := s'.inName_of_not_mem i.folded hk
    rw [i.classesNamed_folded] at hitems' hvisited'
    rw [Found.Same, hitems, hvisited, hitems', hvisited', hsig, List.map_append, List.map_append,
      ih.1]
    exact ⟨rfl, ih.2⟩
  have hnone {c : ClassLike} (ho : s.own? c = none) : s'.own? c.folded = none := by
    have hc := hown c
    rwa [ho, Option.map_none, Option.map_eq_none_iff] at hc
  have htraitNames (c : ClassLike) :
      c.folded.heritage.traits.map Key.of = c.heritage.traits.map Key.of :=
    c.heritage.traits_folded
  have hparentNames (c : ClassLike) :
      c.folded.heritage.parents.map Key.of = c.heritage.parents.map Key.of :=
    c.heritage.parents_folded
  -- the second search goes along with the first one, so its recursion is that of the first
  refine Search.inName.induct s i
    (fun visited k => (s'.inName i.folded visited k).Same φ (s.inName i visited k))
    (fun visited cs => (s'.inClasses i.folded visited (cs.map ClassLike.folded)).Same φ
      (s.inClasses i visited cs))
    (fun visited c => (s'.inClass i.folded visited c.folded).Same φ (s.inClass i visited c))
    (fun visited ks => (s'.inNames i.folded visited ks).Same φ (s.inNames i visited ks))
    ?_ ?_ ?_ ?_ ?_ ?_ ?_ ?_ ?_ ?_ visited k
  · intro visited k hk
    simp [inName, hk, Found.Same]
  · intro visited k hk hc
    refine hnamed hk ?_
    simp [hc, inClasses, Found.Same]
  · intro visited k hk c cs hc ih
    refine hnamed hk ?_
    rwa [hc]
  · intro visited
    simp [inClasses, Found.Same]
  · intro visited c cs first ihc ihcs _
    rw [inClasses, List.map_cons, inClasses]
    simp only [Found.Same]
    rw [ihc.2, List.map_append, List.map_append, ihc.1]
    exact ⟨congrArg _ ihcs.1, ihcs.2⟩
  · intro visited c items ho
    have hc := hown c
    rw [ho] at hc
    obtain ⟨items', ho', hitems⟩ := Option.map_eq_some_iff.1 hc
    rw [inClass, inClass, ho, ho']
    exact ⟨hitems, rfl⟩
  · intro visited c ho
    simp only [dite_eq_ite]
    intro hempty iht ihp _
    have hempty' := (isEmpty_eq_of_map_eq iht.1).trans hempty
    rw [inClass, inClass, ho, hnone ho]
    simp only [htraits, htraitNames, hparentNames, if_pos hempty, if_pos hempty', Found.Same]
    rw [htraits, htraitNames, iht.2]
    exact ihp
  · intro visited c ho
    simp only [dite_eq_ite]
    intro hempty iht
    have hempty' := fun h => hempty ((isEmpty_eq_of_map_eq iht.1).symm.trans h)
    rw [inClass, inClass, ho, hnone ho]
    simp only [htraits, htraitNames, if_neg hempty, if_neg hempty']
    exact iht
  · intro visited
    simp [inNames, Found.Same]
  · intro visited k ks first ihk ihks _
    rw [inNames, inNames]
    simp only [Found.Same]
    rw [ihk.2, List.map_append, List.map_append, ihk.1]
    exact ⟨congrArg _ ihks.1, ihks.2⟩

theorem find_folded {s s' : Search α} {φ : α → β} {i : Index}
    (hown : ∀ c, (s'.own? c.folded).map (List.map φ) = (s.own? c).map (List.map φ))
    (hsig : s'.signature = s.signature) (htraits : s'.inTraits = s.inTraits) (cls : Key) :
    (s'.find i.folded cls).map φ = (s.find i cls).map φ :=
  (same_inName_folded hown hsig htraits [] cls).1

end Search

namespace Analysis

theorem declared?_map {α β γ : Type} {f f' : List α → List β} {ψ : α → α} {φ : β → γ}
    (h : ∀ xs, (f' (xs.map ψ)).map φ = (f xs).map φ) (xs : List α) :
    (declared? f' (xs.map ψ)).map (List.map φ) = (declared? f xs).map (List.map φ) := by
  rw [declared?, declared?, List.isEmpty_map]
  split
  · rfl
  · exact congrArg some (h xs)

variable (a : Analysis)

theorem refine_folded (comment declared : Ty) :
    (a.folded.refine comment declared.folded).folded = (a.refine comment declared).folded := by
  have hfits : comment.fits a.folded.hierarchy declared.folded = comment.fits a.hierarchy declared :=
    Ty.fits_folded_right a.hierarchy comment declared
  rw [refine, refine, hfits]
  split
  · rfl
  · exact Ty.folded_folded declared

theorem functionType_folded (f : Routine) :
    (functionType f.folded).folded = (functionType f).folded := by
  have hreturns : (f.folded.returns == "") = (f.returns == "") := Text.folded_beq_empty f.returns
  have htype : Ty.ofTextOrMixed f.folded.returns = (Ty.ofTextOrMixed f.returns).folded :=
    Ty.ofTextOrMixed_folded f.returns
  rw [functionType, functionType, hreturns]
  split
  · rfl
  · rw [htype, Ty.folded_folded]

theorem methodType_folded (m : Routine) :
    (a.folded.methodType m.folded).folded = (a.methodType m).folded := by
  have hreturns : (m.folded.returns == "") = (m.returns == "") := Text.folded_beq_empty m.returns
  have htype : Ty.ofTextOrMixed m.folded.returns = (Ty.ofTextOrMixed m.returns).folded :=
    Ty.ofTextOrMixed_folded m.returns
  have hfits (t u : Ty) : t.fits a.folded.hierarchy u.folded = t.fits a.hierarchy u :=
    Ty.fits_folded_right a.hierarchy t u
  have hcomment : m.folded.comment = m.comment := rfl
  simp only [methodType, hreturns, htype, hfits, hcomment]
  split
  · rfl
  · split
    · rfl
    · exact Ty.folded_folded _

theorem propertyType?_folded (p : Property) :
    (a.folded.propertyType? p.folded).map Ty.folded = (a.propertyType? p).map Ty.folded := by
  have hdeclared : (p.folded.declared == "") = (p.declared == "") :=
    Text.folded_beq_empty p.declared
  have htype : Ty.ofTextOrMixed p.folded.declared = (Ty.ofTextOrMixed p.declared).folded :=
    Ty.ofTextOrMixed_folded p.declared
  have hsettings : a.folded.settings = a.settings := rfl
  have hcomment : p.folded.comment = p.comment := rfl
  simp only [propertyType?, hdeclared, htype, hsettings, hcomment]
  cases p.declared == "" <;> cases a.settings.propertyComments
  · exact congrArg some (Ty.folded_folded _)
  · exact congrArg some (a.refine_folded _ _)
  · rfl
  · rfl

theorem methodTypes_folded (cls name : Key) :
    (a.folded.methodTypes cls name).map Ty.folded = (a.methodTypes cls name).map Ty.folded := by
  refine Search.find_folded (fun c => ?_) rfl rfl cls
  simp only
  rw [c.methodsNamed_folded]
  apply declared?_map
  intro ms
  simp only [List.map_map]
  exact List.map_congr_left fun m _ => a.methodType_folded m

theorem propertyTypes_folded (cls name : Key) :
    (a.folded.propertyTypes cls name).map Ty.folded = (a.propertyTypes cls name).map Ty.folded := by
  refine Search.find_folded (fun c => ?_) rfl rfl cls
  simp only
  rw [c.propertiesNamed_folded]
  apply declared?_map
  intro ps
  rw [List.filterMap_map, List.map_filterMap, List.map_filterMap]
  exact List.filterMap_congr fun p _ => a.propertyType?_folded p

theorem constantSources_folded (cls name : Key) :
    a.folded.constantSources cls name = a.constantSources cls name := by
  have hfind : (a.folded.constantSources cls name).map id = (a.constantSources cls name).map id := by
    refine Search.find_folded (fun c => ?_) rfl rfl cls
    simp only
    rw [c.constantsNamed_folded]
    apply declared?_map
    intro ds
    simp only [List.map_map]
    rfl
  rwa [List.map_id, List.map_id] at hfind

theorem callTypes_folded (static : Bool) (cls name : Key) :
    (a.folded.callTypes static cls name).map Ty.folded =
      (a.callTypes static cls name).map Ty.folded := by
  simp only [callTypes, isEmpty_eq_of_map_eq (a.methodTypes_folded cls name)]
  split
  · exact a.methodTypes_folded cls (catchAll static)
  · exact a.methodTypes_folded cls name

theorem fetchTypes_folded (static : Bool) (cls name : Key) :
    (a.folded.fetchTypes static cls name).map Ty.folded =
      (a.fetchTypes static cls name).map Ty.folded := by
  simp only [fetchTypes, isEmpty_eq_of_map_eq (a.propertyTypes_folded cls name)]
  split
  · exact a.propertyTypes_folded cls name
  · split
    · rfl
    · exact a.methodTypes_folded cls _

theorem parameterType_folded (name declared : String) (fallback : Option OperandId)
    (comment : Option String) :
    (a.folded.parameterType name (Text.folded declared) fallback comment).folded =
      (a.parameterType name declared fallback comment).folded := by
  have hnull : fallback.any a.folded.graph.isNull = fallback.any a.graph.isNull :=
    congrArg fallback.any (funext a.graph.isNull_folded)
  simp only [parameterType, Text.folded_beq_empty, Ty.ofTextOrMixed_folded, hnull]
  split
  · rfl
  · rw [← a.refine_folded]
    congr 2
    split
    · exact Ty.combine_folded .union _ .null
    · rfl

end Analysis

namespace Inquiry

variable {α β γ δ : Type} {φ : α → γ} {ψ : β → δ}

/-- The inquiries ask the same questions. If the answers to them have the same folding, they come to
the same up to `φ`, or to guesses with the same folding. -/
inductive Parallel (φ : α → γ) : Inquiry α → Inquiry α → Prop
  | answer {a b : α} (h : φ a = φ b) : Parallel φ (answer a) (answer b)
  | wait : Parallel φ wait wait
  | guess {t u : Ty} (h : t.folded = u.folded) : Parallel φ (guess t) (guess u)
  | fault (f : Fault) : Parallel φ (fault f) (fault f)
  | ask (x : OperandId) {next next' : Option Ty → Inquiry α}
      (h : ∀ t u, t.map Ty.folded = u.map Ty.folded → Parallel φ (next t) (next' u)) :
      Parallel φ (ask x next) (ask x next')

theorem Parallel.bind {i j : Inquiry α} {k l : α → Inquiry β} (h : Parallel φ i j)
    (hkl : ∀ a b, φ a = φ b → Parallel ψ (k a) (l b)) : Parallel ψ (i >>= k) (j >>= l) := by
  induction h with
  | answer h => exact hkl _ _ h
  | wait => exact .wait
  | guess h => exact .guess h
  | fault f => exact .fault f
  | ask x _ ih => exact .ask x ih

theorem Parallel.map {i j : Inquiry α} {f g : α → β} (h : Parallel φ i j)
    (hfg : ∀ a b, φ a = φ b → ψ (f a) = ψ (g b)) :
    Parallel ψ (i >>= fun a => pure (f a)) (j >>= fun b => pure (g b)) :=
  h.bind fun a b hab => .answer (hfg a b hab)

theorem Parallel.mapFault {i j : Inquiry α} (h : Parallel φ i j) (g : Fault → Fault) :
    Parallel φ (i.mapFault g) (j.mapFault g) := by
  induction h with
  | answer h => exact .answer h
  | wait => exact .wait
  | guess h => exact .guess h
  | fault f => exact .fault (g f)
  | ask x _ ih => exact .ask x ih

theorem parallel_ofOption {x y : Option α} (h : x.map φ = y.map φ) :
    Parallel φ (ofOption x) (ofOption y) := by
  cases x <;> cases y <;> simp only [Option.map_none, Option.map_some, reduceCtorEq] at h
  · exact .wait
  · exact .answer (Option.some.inj h)

theorem parallel_known? (x : Option OperandId) :
    Parallel (Option.map Ty.folded) (known? x) (known? x) := by
  cases x with
  | none => exact .answer rfl
  | some x => exact .ask x fun _ _ h => .answer h

theorem parallel_known (x : Option OperandId) : Parallel Ty.folded (known x) (known x) := by
  refine (parallel_known? x).bind fun t u h => ?_
  cases t <;> cases u <;> exact parallel_ofOption h

theorem parallel_mapM {f g : β → Inquiry α} (xs : List β)
    (h : ∀ x ∈ xs, Parallel φ (f x) (g x)) : Parallel (List.map φ) (xs.mapM f) (xs.mapM g) := by
  induction xs with
  | nil =>
    rw [List.mapM_nil, List.mapM_nil]
    exact .answer rfl
  | cons x xs ih =>
    rw [List.mapM_cons, List.mapM_cons]
    refine (h x List.mem_cons_self).bind fun a b hab => ?_
    exact (ih fun y hy => h y (List.mem_cons_of_mem x hy)).map fun as bs habs =>
      congrArg₂ List.cons hab habs

theorem parallel_types {ts us : List Ty} (h : ts.map Ty.folded = us.map Ty.folded) :
    Parallel (List.map Ty.folded) (types ts) (types us) := by
  rw [types, types, isEmpty_eq_of_map_eq h]
  split
  · exact .wait
  · exact .answer h

/-- Inquiries in parallel come to the same sort of outcome. -/
theorem Parallel.alike {known known' : OperandId → Option Ty} {i j : Inquiry α}
    (h : Parallel φ i j) (hk : ∀ x, (known x).map Ty.folded = (known' x).map Ty.folded) :
    Alike (fun a b => φ a = φ b) (fun t u => t.folded = u.folded) known known' i j := by
  induction h with
  | answer h => exact .answer h
  | wait => exact .wait
  | guess h => exact .guess h
  | fault f => exact .fault f
  | ask x _ ih => exact ih _ _ (hk x)

theorem Parallel.asked_eq {known known' : OperandId → Option Ty} {i j : Inquiry α}
    (h : Parallel φ i j) (hk : ∀ x, (known x).map Ty.folded = (known' x).map Ty.folded) :
    i.asked known = j.asked known' := by
  induction h with
  | ask x _ ih => exact congrArg (x :: ·) (ih _ _ (hk x))
  | _ => rfl

end Inquiry

theorem Value.folded_eq_cases {v w : Value} (h : v.folded = w.folded) :
    v = w ∨ ∃ s t, v = text s ∧ w = text t ∧ Text.folded s = Text.folded t := by
  cases v <;> cases w <;> simp_all [folded]

theorem Value.map_folded_eq_cases {v w : Option Value} (h : v.map folded = w.map folded) :
    v = w ∨ ∃ s t, v = some (text s) ∧ w = some (text t) ∧ Text.folded s = Text.folded t := by
  cases v <;> cases w <;> simp only [Option.map_none, Option.map_some, reduceCtorEq] at h
  · exact Or.inl rfl
  · simpa using folded_eq_cases (Option.some.inj h)

theorem Graph.literal?_map_folded (g : Graph) (x : OperandId) :
    (g.folded.literal? x).map Value.folded = (g.literal? x).map Value.folded := by
  rw [literal?_folded]
  cases g.namesConstant x <;> cases g.literal? x <;> simp

theorem Graph.bind_literal?_folded (g : Graph) (x : Option OperandId) :
    (x.bind g.folded.literal?).map Value.folded = (x.bind g.literal?).map Value.folded := by
  cases x with
  | none => rfl
  | some x => exact g.literal?_map_folded x

namespace Analysis

open Inquiry

variable (a : Analysis)

theorem literalIn?_folded (op : Op) (s : Slot) :
    (a.folded.literalIn? op.folded s).map Value.folded =
      (a.literalIn? op s).map Value.folded := by
  rw [literalIn?, literalIn?, Op.slot?_folded]
  split
  · exact a.graph.literal?_map_folded _
  · rfl

/-- The name of a global constant is read letter by letter. -/
theorem literalIn?_folded_of_constFetch {op : Op} (hop : op ∈ a.graph.log)
    (h : op.action = .constFetch) :
    a.folded.literalIn? op.folded .name = a.literalIn? op .name := by
  rw [literalIn?, literalIn?, Op.slot?_folded]
  split
  · rename_i x hx
    have hnames : a.graph.namesConstant x = true := by
      rw [Graph.namesConstant, Array.any_eq_true']
      exact ⟨op, hop, by simp [h, Op.nameOperand?, hx]⟩
    have hgraph : a.folded.graph = a.graph.folded := rfl
    rw [hgraph, Graph.literal?_folded, hnames]
    simp
  · rfl

theorem parallel_requireName_self {γ : Type} (φ : String → γ) (v : Value) :
    Parallel φ (requireName v) (requireName v) := by
  unfold requireName
  split
  · exact .answer rfl
  · exact .fault _

theorem parallel_requireName {v w : Value} (h : v.folded = w.folded) :
    Parallel Text.folded (requireName v) (requireName w) := by
  rcases Value.folded_eq_cases h with rfl | ⟨s, t, rfl, rfl, hst⟩
  · exact parallel_requireName_self _ v
  · exact .answer hst

theorem operandIn_folded (op : Op) (s : Slot) : operandIn op.folded s = operandIn op s := by
  rw [operandIn, Op.slot?_folded, operandIn]

theorem operandsIn_folded (op : Op) (s : Slot) :
    a.folded.operandsIn op.folded s = a.operandsIn op s := by
  rw [operandsIn, Op.slot?_folded, operandsIn]
  split <;> simp [folded, Graph.sortName_folded]

theorem parallel_operandIn (op : Op) (s : Slot) :
    Parallel id (operandIn op.folded s) (operandIn op s) := by
  rw [operandIn_folded, operandIn]
  split
  · exact .answer rfl
  · exact .answer rfl
  · exact .fault _

theorem parallel_operandsIn (op : Op) (s : Slot) :
    Parallel id (a.folded.operandsIn op.folded s) (a.operandsIn op s) := by
  rw [operandsIn_folded, operandsIn]
  split
  · exact .answer rfl
  · exact .answer rfl
  · exact .fault _
  · exact .fault _

theorem parallel_typeIn? (op : Op) (s : Slot) :
    Parallel (Option.map Ty.folded) (typeIn? op.folded s) (typeIn? op s) := by
  refine (parallel_operandIn op s).bind fun x y hxy => ?_
  rw [show x = y from hxy]
  exact parallel_known? y

theorem parallel_typeIn (op : Op) (s : Slot) :
    Parallel Ty.folded (typeIn op.folded s) (typeIn op s) := by
  refine (parallel_operandIn op s).bind fun x y hxy => ?_
  rw [show x = y from hxy]
  exact parallel_known y

theorem parallel_typesIn (op : Op) (s t : Slot) :
    Parallel (Prod.map Ty.folded Ty.folded) (typesIn op.folded s t) (typesIn op s t) := by
  refine (parallel_typeIn? op s).bind fun l l' hl => ?_
  refine (parallel_typeIn? op t).bind fun r r' hr => ?_
  refine (parallel_ofOption hl).bind fun x x' hx => ?_
  exact (parallel_ofOption hr).map fun y y' hy => Prod.ext hx hy

theorem bitwise_folded (l r : Ty) : bitwise l.folded r.folded = (bitwise l r).folded := by
  rw [bitwise, bitwise, Ty.kind_folded, Ty.kind_folded]
  split <;> rfl

theorem arrayWith_folded (t : Option Ty) : arrayWith (t.map Ty.folded) = (arrayWith t).folded := by
  cases t <;> rfl

theorem arithmetic_folded (l r : Ty) :
    arithmetic l.folded r.folded = (arithmetic l r).folded := by
  have htoList (t : Ty) :
      t.folded.elementType?.toList = t.elementType?.toList.map Ty.folded := by
    rw [Ty.elementType?_folded]
    cases t.elementType? <;> rfl
  unfold arithmetic
  rw [Ty.kind_folded, Ty.kind_folded]
  split
  case h_5 =>
    rw [htoList, htoList, ← List.map_append, Ty.unionOf?, Ty.combineAll?_folded, arrayWith_folded]
    rfl
  all_goals rfl

theorem signed_folded (t : Ty) : signed t.folded = (signed t).folded := by
  rw [signed, signed, Ty.kind_folded]
  split <;> rfl

theorem elementOf_folded (t : Ty) : elementOf t.folded = (elementOf t).folded := by
  rw [elementOf, elementOf, Ty.elementType?_folded, Ty.kind_folded]
  cases t.elementType? with
  | some e => rfl
  | none =>
    simp only [Option.map_none]
    split <;> rfl

theorem castObject_folded (h : Hierarchy) (t : Ty) :
    (if t.folded.fits h .object then t.folded else Ty.folded (.named "stdClass")) =
      (if t.fits h .object then t else .named "stdClass").folded := by
  have hfits : t.folded.fits h .object = t.fits h .object := Ty.fits_folded h t .object
  rw [hfits]
  split <;> rfl

theorem parallel_merge (op : Op) :
    Parallel (List.map Ty.folded) (a.folded.merge op.folded) (a.merge op) := by
  have known_types (ts : List (Option Ty)) :
      (ts.filterMap id).map Ty.folded = (ts.map (Option.map Ty.folded)).filterMap id := by
    simp [List.filterMap_map, List.map_filterMap]
  have known_all (ts : List (Option Ty)) :
      ts.all (·.isSome) = (ts.map (Option.map Ty.folded)).all (·.isSome) := by
    simp [List.all_map, Function.comp_def]
  refine (a.parallel_operandsIn op .vars).bind fun xs ys hxy => ?_
  rw [show xs = ys from hxy]
  refine (parallel_mapM ys fun x _ => parallel_known? x).bind fun ts us htu => ?_
  have hunion : (Ty.unionOf? (ts.filterMap id)).map Ty.folded =
      (Ty.unionOf? (us.filterMap id)).map Ty.folded := by
    rw [Ty.unionOf?, Ty.unionOf?, ← Ty.combineAll?_folded, ← Ty.combineAll?_folded, known_types,
      htu, known_types]
  refine (parallel_ofOption hunion).bind fun t u h => ?_
  rw [known_all ts, htu, ← known_all us]
  split
  · exact .answer (Ty.singleton_of_folded_eq h)
  · exact .guess h

theorem parallel_assertedType (test : Assertion) :
    Parallel Ty.folded (a.folded.assertedType test) (a.assertedType test) := by
  have hcombine (c : Combinator) {ts us : List Ty} (h : ts.map Ty.folded = us.map Ty.folded) :
      (Ty.combineAll? c ts).map Ty.folded = (Ty.combineAll? c us).map Ty.folded := by
    rw [← Ty.combineAll?_folded, h, Ty.combineAll?_folded]
  refine assertedType.induct a
    (fun test => Parallel Ty.folded (a.folded.assertedType test) (a.assertedType test))
    (fun tests =>
      Parallel (List.map Ty.folded) (a.folded.assertedTypes tests) (a.assertedTypes tests))
    ?_ ?_ ?_ ?_ ?_ ?_ ?_ test
  · intro x v hv
    have hliteral := a.graph.literal?_map_folded x
    rw [hv] at hliteral
    obtain ⟨w, hw, hwv⟩ := Option.map_eq_some_iff.1 hliteral
    have hgraph : a.folded.graph = a.graph.folded := rfl
    simp only [assertedType, hgraph, hv, hw]
    refine .answer ?_
    rw [← Ty.declaredOrMixed_folded, hwv, Ty.declaredOrMixed_folded]
  · intro x hx
    have hliteral : a.folded.graph.literal? x = none := by
      have h := a.graph.literal?_map_folded x
      rwa [hx, Option.map_none, Option.map_eq_none_iff] at h
    simp only [assertedType, hx, hliteral]
    exact parallel_known (some x)
  · intro c parts ih
    rw [assertedType, assertedType]
    exact ih.bind fun ts us htu => parallel_ofOption (hcombine c htu)
  · intro first rest ihf ihr
    rw [assertedType, assertedType]
    refine ihf.bind fun t u htu => ihr.bind fun ts us htus => ?_
    exact parallel_ofOption (hcombine .intersection (congrArg₂ List.cons htu htus))
  · rw [assertedType, assertedType]
    exact .fault _
  · rw [assertedTypes, assertedTypes]
    exact .answer rfl
  · intro p ps ihp ihps
    rw [assertedTypes, assertedTypes]
    exact ihp.bind fun t u htu => ihps.map fun ts us htus => congrArg₂ List.cons htu htus

theorem parallel_narrowed (subject : Option OperandId) (test : Assertion) :
    Parallel Ty.folded (a.folded.narrowed subject test) (a.narrowed subject test) := by
  induction test using narrowed.induct with
  | case1 first rest ih =>
    rw [narrowed, narrowed]
    refine ih.bind fun t u htu => (parallel_known? subject).map fun s s' hs => ?_
    have hsubject : (s.getD .mixed).folded = (s'.getD .mixed).folded := by
      cases s <;> cases s' <;> simp_all
    rw [← Ty.remove_folded, hsubject, htu, Ty.remove_folded]
  | case2 =>
    rw [narrowed, narrowed]
    exact .wait
  | case3 test hn ho =>
    rw [narrowed, narrowed]
    · exact a.parallel_assertedType test
    all_goals assumption

theorem parallel_constantFetch {op : Op} (hop : op ∈ a.graph.log) (h : op.action = .constFetch) :
    Parallel (List.map Ty.folded) (a.folded.constantFetch op.folded) (a.constantFetch op) := by
  rw [constantFetch, a.literalIn?_folded_of_constFetch hop h, constantFetch]
  refine (parallel_ofOption (φ := id) rfl).bind fun v w hv => ?_
  rw [show v = w from hv]
  refine (parallel_requireName_self id w).bind fun s name hs => ?_
  rw [show s = name from hs]
  split
  · exact .answer rfl
  · exact .answer rfl
  · exact .answer rfl
  · refine (parallel_mapM _ fun c _ => parallel_known c.value).bind fun ts us htu => ?_
    exact parallel_types htu

theorem parallel_newObject (op : Op) :
    Parallel (List.map Ty.folded) (a.folded.newObject op.folded) (a.newObject op) := by
  refine (parallel_operandIn op .cls).bind fun x y hxy => ?_
  rw [show x = y from hxy]
  have hobject {t u : Ty} (h : t.folded = u.folded) :
      (if t.kind = .object then t else .object).folded =
        (if u.kind = .object then u else .object).folded := by
    rw [Ty.kind_eq_of_folded_eq h]
    split
    · exact h
    · rfl
  have hliteral := a.graph.bind_literal?_folded y
  have hclass : (y.bind fun x => (a.folded.graph.operand x).objectClass?) =
      (y.bind fun x => (a.graph.operand x).objectClass?).map Value.folded := by
    cases y with
    | none => rfl
    | some y => exact a.graph.objectClass?_folded y
  have hgraph : a.folded.graph = a.graph.folded := rfl
  rw [hclass, hgraph]
  generalize y.bind a.graph.folded.literal? = v at hliteral
  generalize y.bind a.graph.literal? = w at hliteral
  -- a literal that is no text is the same in both programs, and then the class decides
  rcases Value.map_folded_eq_cases hliteral with rfl | ⟨s, t, rfl, rfl, hst⟩
  · generalize (y.bind fun x => (a.graph.operand x).objectClass?) = cls
    cases cls with
    | some cls =>
      have hcls : (Ty.declaredOrMixed cls.folded).folded = (Ty.declaredOrMixed cls).folded := by
        rw [Ty.declaredOrMixed_folded, Ty.folded_folded]
      rcases v with _ | v
      · exact .answer (Ty.singleton_of_folded_eq hcls)
      · cases v with
        | text name => exact .answer rfl
        | _ => exact .answer (Ty.singleton_of_folded_eq hcls)
    | none =>
      rcases v with _ | v
      on_goal 2 =>
        cases v
        case text name => exact .answer rfl
      all_goals
        refine (parallel_known? y).bind fun t u htu => ?_
        cases t <;> cases u <;> simp only [Option.map_none, Option.map_some, reduceCtorEq] at htu
        · exact .answer rfl
        · exact .answer (Ty.singleton_of_folded_eq (hobject (Option.some.inj htu)))
  · exact .answer (congrArg (fun name => [Ty.named name]) hst)

theorem parallel_packagedFunction {s t : String} (h : Text.folded s = Text.folded t) :
    Parallel (List.map Ty.folded) (a.folded.packagedFunction s) (a.packagedFunction t) := by
  rw [packagedFunction, packagedFunction, Key.of_eq_of_folded_eq h]
  exact (parallel_ofOption rfl).map fun _ _ => Ty.singleton_of_folded_eq

theorem functionTypes_folded (fs : List Routine) :
    ((fs.map Routine.folded).map functionType).map Ty.folded =
      (fs.map functionType).map Ty.folded := by
  simp only [List.map_map]
  exact List.map_congr_left fun f _ => functionType_folded f

theorem parallel_functionCall (op : Op) :
    Parallel (List.map Ty.folded) (a.folded.functionCall op.folded) (a.functionCall op) := by
  refine (parallel_ofOption (a.literalIn?_folded op .name)).bind fun v w hv => ?_
  refine (parallel_requireName hv).bind fun s name hs => ?_
  have hnamed : a.folded.index.functionsNamed (Key.of name) =
      (a.index.functionsNamed (Key.of name)).map Routine.folded := a.index.functionsNamed_folded _
  rw [Key.of_eq_of_folded_eq hs, hnamed]
  cases a.index.functionsNamed (Key.of name) with
  | nil => exact a.parallel_packagedFunction hs
  | cons f fs => exact .answer (functionTypes_folded (f :: fs))

theorem parallel_namespacedCall (op : Op) :
    Parallel (List.map Ty.folded) (a.folded.namespacedCall op.folded) (a.namespacedCall op) := by
  refine (parallel_ofOption (a.literalIn?_folded op .name)).bind fun _ _ _ => ?_
  refine (parallel_ofOption (a.literalIn?_folded op .nsName)).bind fun v w hv => ?_
  refine (parallel_requireName hv).bind fun s name hs => ?_
  have hnamed : a.folded.index.functionsNamed (Key.of name) =
      (a.index.functionsNamed (Key.of name)).map Routine.folded := a.index.functionsNamed_folded _
  rw [Key.of_eq_of_folded_eq hs, hnamed]
  cases a.index.functionsNamed (Key.of name) with
  | nil => exact a.parallel_functionCall op
  | cons f fs => exact .answer (functionTypes_folded (f :: fs))

theorem parallel_classNames (x : Option OperandId) :
    Parallel id (a.folded.classNames x) (a.classNames x) := by
  refine (parallel_known? x).bind fun t u htu => ?_
  cases t <;> cases u <;> simp only [Option.map_none, Option.map_some, reduceCtorEq] at htu
  · exact .answer rfl
  · have h := Option.some.inj htu
    simp only [Ty.kind_eq_of_folded_eq h]
    split
    · have hgraph : a.folded.graph = a.graph.folded := rfl
      have hliteral := a.graph.bind_literal?_folded x
      rw [hgraph]
      generalize x.bind a.graph.folded.literal? = v at hliteral
      generalize x.bind a.graph.literal? = w at hliteral
      rcases Value.map_folded_eq_cases hliteral with rfl | ⟨s, t, rfl, rfl, hst⟩
      · split <;> exact .answer rfl
      · exact .answer (congrArg ([·]) (Key.of_eq_of_folded_eq hst))
    · refine .answer ?_
      rw [← Ty.classesOf_folded, h, Ty.classesOf_folded]

theorem parallel_memberTypes (op : Op) (receiver : Slot)
    {lookup lookup' : Key → Key → Inquiry (List Ty)}
    (hlookup : ∀ c m, Parallel (List.map Ty.folded) (lookup' c m) (lookup c m)) :
    Parallel (List.map Ty.folded) (a.folded.memberTypes op.folded receiver lookup')
      (a.memberTypes op receiver lookup) := by
  refine (parallel_ofOption (a.literalIn?_folded op .name)).bind fun v w hv => ?_
  refine (parallel_operandIn op receiver).bind fun x y hxy => ?_
  rw [show x = y from hxy]
  refine (a.parallel_classNames y).bind fun cs ds hcd => ?_
  have hcandidates : cs.flatMap a.folded.candidates = ds.flatMap a.candidates :=
    congrArg (List.flatMap a.candidates) hcd
  simp only [hcandidates]
  split
  · exact .wait
  · refine (parallel_requireName hv).bind fun s t hst => ?_
    rw [Key.of_eq_of_folded_eq hst]
    refine (parallel_mapM _ fun c _ => hlookup c (Key.of t)).bind fun tss uss htu => ?_
    apply parallel_types
    rw [List.map_flatten, htu, ← List.map_flatten]

theorem parallel_constantTypes (cls name : Key) :
    Parallel (List.map Ty.folded) (a.folded.constantTypes cls name) (a.constantTypes cls name) := by
  rw [constantTypes, constantSources_folded, constantTypes]
  apply parallel_mapM
  intro s _
  cases s with
  | value x => exact parallel_known x
  | signature t => exact .answer rfl

theorem parallel_rule {op : Op} (hop : op ∈ a.graph.log) :
    Parallel (List.map Ty.folded) (a.folded.rule op.folded) (a.rule op) := by
  cases haction : op.action <;> simp only [rule, Op.action_folded, haction]
  case bitwiseAnd | bitwiseOr | bitwiseXor =>
    apply (parallel_typesIn op .left .right).map
    rintro ⟨l, r⟩ ⟨l', r'⟩ hpq
    obtain ⟨hl, hr⟩ := Prod.mk.inj hpq
    apply Ty.singleton_of_folded_eq
    rw [← bitwise_folded, hl, hr, bitwise_folded]
  case bitwiseNot =>
    apply (parallel_typeIn op .expr).map
    intro t u htu
    apply Ty.singleton_of_folded_eq
    rw [← bitwise_folded, htu, bitwise_folded]
  case plus | minus | times | divide =>
    apply (parallel_typesIn op .left .right).map
    rintro ⟨l, r⟩ ⟨l', r'⟩ hpq
    obtain ⟨hl, hr⟩ := Prod.mk.inj hpq
    apply Ty.singleton_of_folded_eq
    rw [← arithmetic_folded, hl, hr, arithmetic_folded]
  case unaryMinus | unaryPlus =>
    apply (parallel_typeIn op .expr).map
    intro t u htu
    apply Ty.singleton_of_folded_eq
    rw [← signed_folded, htu, signed_folded]
  case evaluate | includeFile | yieldValue | iteratorKey => exact .wait
  case iteratorValue =>
    apply (parallel_typeIn op .var).bind
    intro t u htu
    have helement : t.elementType?.map Ty.folded = u.elementType?.map Ty.folded := by
      rw [← Ty.elementType?_folded, htu, Ty.elementType?_folded]
    exact (parallel_ofOption helement).map fun _ _ => Ty.singleton_of_folded_eq
  case newArray =>
    apply (a.parallel_operandsIn op .values).bind
    intro xs ys hxy
    rw [show xs = ys from hxy]
    apply (parallel_mapM ys fun x _ => parallel_known x).map
    intro ts us htu
    apply Ty.singleton_of_folded_eq
    rw [← arrayWith_folded, Ty.unionOf?, ← Ty.combineAll?_folded, htu, Ty.combineAll?_folded,
      arrayWith_folded, Ty.unionOf?]
  case arrayDimFetch =>
    apply (parallel_typeIn op .var).map
    intro t u htu
    apply Ty.singleton_of_folded_eq
    rw [← elementOf_folded, htu, elementOf_folded]
  case assign | assignRef | cloneObject =>
    exact (parallel_typeIn op .expr).map fun _ _ => Ty.singleton_of_folded_eq
  case castObject =>
    apply (parallel_typeIn op .expr).map
    intro t u htu
    apply Ty.singleton_of_folded_eq
    have hhierarchy : a.folded.hierarchy = a.hierarchy := rfl
    rw [hhierarchy, ← castObject_folded, htu, castObject_folded]
  case staticVar =>
    apply (parallel_operandIn op .fallback).bind
    intro x y hxy
    rw [show x = y from hxy]
    cases y with
    | none => exact .answer rfl
    | some y => exact (parallel_known (some y)).map fun _ _ => Ty.singleton_of_folded_eq
  case phi => exact a.parallel_merge op
  case assertion =>
    cases op with
    | assertion head subject test =>
      exact (a.parallel_narrowed subject test).map fun _ _ => Ty.singleton_of_folded_eq
    | classLike head name heritage body => cases heritage <;> exact .fault _
    | _ => exact .fault _
  case constFetch => exact a.parallel_constantFetch hop haction
  case parameter =>
    cases op with
    | parameter head name declared fallback comment =>
      exact .answer (Ty.singleton_of_folded_eq
        (a.parameterType_folded name declared fallback comment))
    | classLike head name heritage body => cases heritage <;> exact .fault _
    | _ => exact .fault _
  case newObject => exact a.parallel_newObject op
  case funcCall => exact a.parallel_functionCall op
  case nsFuncCall => exact a.parallel_namespacedCall op
  case methodCall =>
    exact a.parallel_memberTypes op .var fun c m => .answer (a.callTypes_folded false c m)
  case staticCall =>
    exact a.parallel_memberTypes op .cls fun c m => .answer (a.callTypes_folded true c m)
  case propertyFetch =>
    exact a.parallel_memberTypes op .var fun c m => .answer (a.fetchTypes_folded false c m)
  case staticPropertyFetch =>
    exact a.parallel_memberTypes op .cls fun c m => .answer (a.fetchTypes_folded true c m)
  case classConstFetch => exact a.parallel_memberTypes op .cls a.parallel_constantTypes
  all_goals first
    | exact .answer rfl
    | (rw [Op.head_folded]; exact .fault _)

/-- All operations that write an operand, merged. -/
theorem parallel_inquiry (x : OperandId) :
    Parallel Ty.folded (a.folded.inquiry x) (a.inquiry x) := by
  have hproducers : a.folded.graph.producers x = (a.graph.producers x).map Op.folded :=
    a.graph.producers_folded x
  rw [inquiry, hproducers, List.mapM_map, inquiry]
  have hrule (op : Op) (hop : op ∈ a.graph.producers x) :
      Parallel (List.map Ty.folded) ((a.folded.rule op.folded).mapFault (blame op.folded))
        ((a.rule op).mapFault (blame op)) := by
    have hblame : blame op.folded = blame op := by
      funext f
      cases f <;> simp [blame]
    rw [hblame]
    refine (a.parallel_rule ?_).mapFault (blame op)
    exact Array.mem_toList_iff.1 (List.mem_of_mem_filter hop)
  refine (parallel_mapM _ hrule).bind fun tss uss htu => (parallel_types ?_).map fun ts us h => ?_
  · rw [List.map_flatten, htu, ← List.map_flatten]
  · rw [← Ty.lubAll_folded, h, Ty.lubAll_folded]

end Analysis

end TypeRecovery
