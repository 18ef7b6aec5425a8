import Mathlib.Logic.Relation
import TypeRecovery.Proofs.Rounds

/-!
# On what an operand depends

What a rule comes to depends on the operands it may ask about and on nothing else. An operand that is
written by one operation which only passes values on has the union of their types.
-/
namespace TypeRecovery

/-- Two kinds of knowledge that agree on all questions that both are asked lead along one path. -/
theorem Inquiry.path_congr {α : Type} {known known' : OperandId → Option Ty} {i : Inquiry α}
    (h : ∀ x ∈ i.asked known, x ∈ i.asked known' → known x = known' x) :
    i.outcome known = i.outcome known' ∧ i.asked known = i.asked known' := by
  induction i with
  | ask x next ih =>
    have hx : known x = known' x := h x List.mem_cons_self List.mem_cons_self
    simp only [outcome, asked, ← hx, List.cons.injEq, true_and]
    refine ih (known x) fun y hy hy' => h y (List.mem_cons_of_mem x hy) ?_
    rw [asked, ← hx]
    exact List.mem_cons_of_mem x hy'
  | _ => exact ⟨rfl, rfl⟩

theorem Inquiry.outcome_congr {α : Type} {known known' : OperandId → Option Ty} {i : Inquiry α}
    (h : ∀ x ∈ i.asked known, known x = known' x) : i.outcome known = i.outcome known' :=
  (path_congr fun x hx _ => h x hx).1

theorem Inquiry.asked_mapFault {α : Type} (known : OperandId → Option Ty) (g : Fault → Fault)
    (i : Inquiry α) : (i.mapFault g).asked known = i.asked known := by
  induction i with
  | ask x next ih => exact congrArg (x :: ·) (ih (known x))
  | _ => rfl

/-- The same graph with other types of operands. -/
structure Graph.Retyped (g g' : Graph) : Prop where
  funcs : g'.funcs = g.funcs
  log : g'.log = g.log
  scripts : g'.scripts = g.scripts
  origin : ∀ x, (g'.operand x).origin = (g.operand x).origin

namespace Graph.Retyped

variable {g g' : Graph}

theorem refl (g : Graph) : g.Retyped g := ⟨rfl, rfl, rfl, fun _ => rfl⟩

theorem trans {g'' : Graph} (h : g.Retyped g') (h' : g'.Retyped g'') : g.Retyped g'' :=
  ⟨h'.funcs.trans h.funcs, h'.log.trans h.log, h'.scripts.trans h.scripts,
    fun x => (h'.origin x).trans (h.origin x)⟩

theorem literal?_eq (h : g.Retyped g') (x : OperandId) :
    (g'.operand x).literal? = (g.operand x).literal? := by
  rw [Operand.literal?, Operand.literal?, h.origin]

theorem objectClass?_eq (h : g.Retyped g') (x : OperandId) :
    (g'.operand x).objectClass? = (g.operand x).objectClass? := by
  rw [Operand.objectClass?, Operand.objectClass?, h.origin]

theorem sortName_eq (h : g.Retyped g') (x : OperandId) :
    (g'.operand x).sortName = (g.operand x).sortName := by
  rw [Operand.sortName, Operand.sortName, h.origin]

theorem producers_eq (h : g.Retyped g') (x : OperandId) : g'.producers x = g.producers x := by
  rw [Graph.producers, Graph.producers, h.log]

theorem literals_eq (h : g.Retyped g') : g'.literal? = g.literal? := funext h.literal?_eq

theorem isNull_eq (h : g.Retyped g') : g'.isNull = g.isNull := by
  have hfetches : g'.fetchesNull = g.fetchesNull := by
    funext op
    simp only [Graph.fetchesNull, h.literals_eq]
  funext x
  simp only [Graph.isNull, h.literals_eq, h.producers_eq, hfetches]

end Graph.Retyped

namespace Analysis

open Inquiry

variable {a : Analysis}

/-- The same program with other types of its operands, with its operands in another order and with
another bound on the rounds. -/
def recast (a : Analysis) (g : Graph) (xs : List OperandId) (m : Nat) : Analysis :=
  { a with graph := g, operands := xs, settings := { a.settings with maxRounds := m } }

section

variable {g : Graph} (h : a.graph.Retyped g) (xs : List OperandId) (m : Nat)

include h

theorem assertedType_recast (test : Assertion) :
    (a.recast g xs m).assertedType test = a.assertedType test := by
  have hliterals : (a.recast g xs m).graph.literal? = a.graph.literal? := h.literals_eq
  refine assertedType.induct a
    (fun test => (a.recast g xs m).assertedType test = a.assertedType test)
    (fun tests => (a.recast g xs m).assertedTypes tests = a.assertedTypes tests)
    ?_ ?_ ?_ ?_ ?_ ?_ ?_ test
  · intro x v hv
    rw [assertedType, assertedType, hliterals]
  · intro x hx
    rw [assertedType, assertedType, hliterals]
  · intro c parts ih
    rw [assertedType, assertedType, ih]
  · intro first rest ihf ihr
    rw [assertedType, assertedType, ihf, ihr]
  · rw [assertedType, assertedType]
  · rw [assertedTypes, assertedTypes]
  · intro p ps ihp ihps
    rw [assertedTypes, assertedTypes, ihp, ihps]

theorem narrowed_recast (subject : Option OperandId) (test : Assertion) :
    (a.recast g xs m).narrowed subject test = a.narrowed subject test := by
  induction test using narrowed.induct with
  | case1 first rest ih => rw [narrowed, narrowed, ih]
  | case2 => rw [narrowed, narrowed]
  | case3 test hn ho =>
    unfold narrowed
    simp only [assertedType_recast h]

theorem literalIn?_recast (op : Op) (s : Slot) :
    (a.recast g xs m).literalIn? op s = a.literalIn? op s := by
  have hliterals : (a.recast g xs m).graph.literal? = a.graph.literal? := h.literals_eq
  rw [literalIn?, literalIn?, hliterals]

theorem operandsIn_recast (op : Op) (s : Slot) :
    (a.recast g xs m).operandsIn op s = a.operandsIn op s := by
  have hsort (x : OperandId) : ((a.recast g xs m).graph.operand x).sortName =
      (a.graph.operand x).sortName := h.sortName_eq x
  simp only [operandsIn, hsort]

theorem memberTypes_recast (op : Op) (receiver : Slot) (lookup : Key → Key → Inquiry (List Ty)) :
    (a.recast g xs m).memberTypes op receiver lookup = a.memberTypes op receiver lookup := by
  have hliterals : (a.recast g xs m).graph.literal? = a.graph.literal? := h.literals_eq
  simp only [memberTypes, literalIn?_recast h, classNames, hliterals]
  rfl

theorem rule_recast (op : Op) : (a.recast g xs m).rule op = a.rule op := by
  have hliterals : (a.recast g xs m).graph.literal? = a.graph.literal? := h.literals_eq
  have hnull : (a.recast g xs m).graph.isNull = a.graph.isNull := h.isNull_eq
  have hclass (x : OperandId) : ((a.recast g xs m).graph.operand x).objectClass? =
      (a.graph.operand x).objectClass? := h.objectClass?_eq x
  have hparameter : (a.recast g xs m).parameterType = a.parameterType := by
    funext name declared fallback comment
    simp only [parameterType, hnull]
    rfl
  have hobject : (a.recast g xs m).newObject op = a.newObject op := by
    simp only [newObject, hliterals, hclass]
  unfold rule
  simp only [narrowed_recast h, merge, operandsIn_recast h, constantFetch, functionCall,
    namespacedCall, literalIn?_recast h, memberTypes_recast h, hparameter, hobject]
  rfl

/-- Rules look neither at the types that operands come with, nor at the order of the operands, nor
at the bound on the rounds. -/
theorem inquiry_recast (x : OperandId) : (a.recast g xs m).inquiry x = a.inquiry x := by
  have hproducers : (a.recast g xs m).graph.producers x = a.graph.producers x := h.producers_eq x
  simp only [inquiry, rule_recast h, hproducers]

end

/-- The same program with its operands in another order and another bound on the rounds. -/
def scheduled (a : Analysis) (xs : List OperandId) (m : Nat) : Analysis := a.recast a.graph xs m

theorem rule_scheduled (xs : List OperandId) (m : Nat) (op : Op) :
    (a.scheduled xs m).rule op = a.rule op :=
  rule_recast (.refl a.graph) xs m op

/-- Rules know neither the order of the operands nor the bound on the rounds. -/
theorem inquiry_scheduled (xs : List OperandId) (m : Nat) (x : OperandId) :
    (a.scheduled xs m).inquiry x = a.inquiry x :=
  inquiry_recast (.refl a.graph) xs m x

/-- The rules for `x` may ask about `y`. -/
def Depends (a : Analysis) (x y : OperandId) : Prop := ∃ known, y ∈ (a.inquiry x).asked known

/-- The order in which the rules for an operand find types does not matter: the types that come with
operands are clean, or no rule asks for class constants. -/
def OrderFree (a : Analysis) (x : OperandId) : Prop :=
  a.PresetsClean ∨ ∀ op ∈ a.graph.producers x, op.action ≠ .classConstFetch

/-- What is known of the operands that the rules for `x` may ask about. -/
noncomputable def relevant (a : Analysis) (x : OperandId) (known : OperandId → Option Ty)
    (y : OperandId) : Option Ty :=
  open Classical in if a.Depends x y then known y else none

theorem outcome_relevant (x : OperandId) (known : OperandId → Option Ty) :
    (a.inquiry x).outcome (a.relevant x known) = (a.inquiry x).outcome known := by
  apply Eq.symm
  apply outcome_congr
  intro y hy
  rw [relevant, if_pos ⟨known, hy⟩]

/-- The rules for an operand come to the same where the same is known of all operands that they may
ask about. -/
theorem alike_inquiry_of_depends {x : OperandId} (hx : a.OrderFree x) {f g : Findings}
    (hf : a.PresetsClean → KnownClean f) (hg : a.PresetsClean → KnownClean g)
    (hsame : ∀ y, a.Depends x y →
      Option.Rel (fun t u => Ty.equiv t u = true) (f.known? y) (g.known? y)) :
    Alike (fun t u => Ty.equiv t u = true) (fun t u => Ty.equiv t u = true) f.known? g.known?
      (a.inquiry x) (a.inquiry x) := by
  unfold Alike
  rw [← outcome_relevant x f.known?, ← outcome_relevant x g.known?]
  have hk : ∀ y, Option.Rel (fun t u => Ty.equiv t u = true) (a.relevant x f.known? y)
      (a.relevant x g.known? y) := by
    intro y
    unfold relevant
    split
    · rename_i hy
      exact hsame y hy
    · exact .none
  rcases hx with hp | hc
  · have hk' : ∀ y, Option.Rel Ty.CleanEquiv (a.relevant x f.known? y)
        (a.relevant x g.known? y) := by
      have hclean {h : Findings} (hh : KnownClean h) (y : OperandId) (t : Ty)
          (ht : a.relevant x h.known? y = some t) : t.Clean := by
        unfold relevant at ht
        split at ht
        · exact hh y t ht
        · cases ht
      intro y
      have hy := hk y
      have hfy := hclean (hf hp) y
      have hgy := hclean (hg hp) y
      generalize a.relevant x f.known? y = t at hy hfy ⊢
      generalize a.relevant x g.known? y = u at hy hgy ⊢
      cases hy with
      | none => exact .none
      | some h => exact .some ⟨h, hfy _ rfl, hgy _ rfl⟩
    apply (alike_inquiry Ty.exchange_cleanEquiv hk' a x (fun _ _ _ _ _ h => h.1)
      fun _ _ _ _ _ h => h.2).mono
    exact fun _ _ h => h.1
  · exact alike_inquiry Ty.exchange_equiv hk a x (fun _ _ _ _ _ h => h)
      fun op hop haction => absurd haction (hc op hop)

theorem outcome_mapM_known? (known : OperandId → Option Ty) (xs : List (Option OperandId)) :
    (xs.mapM known?).outcome known = .answer (xs.map (·.bind known)) := by
  apply outcome_mapM
  rw [List.forall₂_map_right_iff, List.forall₂_same]
  exact fun x _ => outcome_known? x

theorem outcome_merge {known : OperandId → Option Ty} {op : Op} {xs : List (Option OperandId)}
    (h : op.slot? .vars = some (.many xs)) :
    (a.merge op).outcome known =
      match Ty.unionOf? (xs.filterMap (·.bind known)) with
      | none => .wait
      | some u => if xs.all fun x => (x.bind known).isSome then .answer [u] else .guess u := by
  have hoperands : (a.operandsIn op .vars).outcome known = .answer xs := by
    simp only [operandsIn, h]
    rfl
  simp only [merge, outcome_bind, hoperands, outcome_mapM_known?, List.filterMap_map, List.all_map]
  rw [show (id ∘ fun x : Option OperandId => x.bind known) = fun x => x.bind known from rfl]
  cases Ty.unionOf? (xs.filterMap (·.bind known)) with
  | none => rfl
  | some u =>
    simp only [ofOption, outcome]
    split <;> simp_all [outcome, Function.comp_def]

theorem rule_phi {op : Op} (h : op.action = .phi) : a.rule op = a.merge op := by
  unfold rule
  simp only [h]

theorem outcome_inquiry {known : OperandId → Option Ty} {x : OperandId} {tss : List (List Ty)}
    (h : List.Forall₂ (fun op ts => (a.rule op).outcome known = .answer ts)
      (a.graph.producers x) tss) (hne : tss.flatten ≠ []) :
    (a.inquiry x).outcome known = .answer (Ty.lubAll tss.flatten) := by
  have hrules : ((a.graph.producers x).mapM fun op =>
      (a.rule op).mapFault (blame op)).outcome known = .answer tss := by
    apply outcome_mapM
    apply h.imp
    intro op ts hop
    rw [outcome_mapFault, hop]
  simp only [inquiry, outcome_bind, hrules, types, if_neg (mt List.isEmpty_iff.1 hne)]
  rfl

/-- The operands whose values an operation passes on, if it does nothing else. -/
def passedOn? (op : Op) : Option (List (Option OperandId)) :=
  match op.action with
  | .phi => match op.slot? .vars with
    | some (.many xs) => some xs
    | _ => none
  | .assign | .assignRef | .cloneObject => match op.slot? .expr with
    | some (.one x) => some [x]
    | _ => none
  | .staticVar => match op.slot? .fallback with
    | some (.one (some x)) => some [some x]
    | _ => none
  | _ => none

/-- A merge, or the type of one operand. -/
theorem rule_of_passedOn {op : Op} {ys : List (Option OperandId)} (h : passedOn? op = some ys) :
    op.action = .phi ∧ op.slot? .vars = some (.many ys) ∨
      ∃ x, ys = [x] ∧ a.rule op = do return [← Inquiry.known x] := by
  unfold passedOn? at h
  unfold rule
  split at h
  · rename_i haction
    left
    split at h
    · rename_i xs hxs
      rw [Option.some.inj h] at hxs
      exact ⟨haction, hxs⟩
    · cases h
  case h_5 =>
    rename_i haction
    right
    split at h
    · rename_i x hx
      exact ⟨some x, (Option.some.inj h).symm, by simp only [haction, operandIn, hx]; rfl⟩
    · cases h
  case h_6 => cases h
  all_goals
    rename_i haction
    right
    split at h
    · rename_i x hx
      exact ⟨x, (Option.some.inj h).symm, by simp only [haction, typeIn, operandIn, hx]; rfl⟩
    · cases h

theorem outcome_known {known : OperandId → Option Ty} (x : Option OperandId) :
    (Inquiry.known x).outcome known = match x.bind known with
      | none => .wait
      | some t => .answer t := by
  rw [Inquiry.known, outcome_bind, outcome_known?]
  cases x.bind known <;> rfl

theorem outcome_rule_of_passedOn {known : OperandId → Option Ty} {op : Op}
    {ys : List (Option OperandId)} (h : passedOn? op = some ys) :
    Ty.unionOf? (ys.filterMap (·.bind known)) = none ∧ (a.rule op).outcome known = .wait ∨
      ∃ u, Ty.unionOf? (ys.filterMap (·.bind known)) = some u ∧
        ((a.rule op).outcome known = .answer [u] ∨ (a.rule op).outcome known = .guess u) := by
  rcases rule_of_passedOn (a := a) h with ⟨haction, hslot⟩ | ⟨x, rfl, hrule⟩
  · rw [rule_phi haction, outcome_merge hslot]
    cases Ty.unionOf? (ys.filterMap (·.bind known)) with
    | none => exact Or.inl ⟨rfl, rfl⟩
    | some u =>
      refine Or.inr ⟨u, rfl, ?_⟩
      simp only
      split
      · exact Or.inl rfl
      · exact Or.inr rfl
  · rw [hrule, outcome_bind, outcome_known]
    cases hx : x.bind known with
    | none => exact Or.inl ⟨by simp [hx, Ty.unionOf?, Ty.combineAll?], rfl⟩
    | some t => exact Or.inr ⟨t, by simp [hx, Ty.unionOf?, Ty.combineAll?], Or.inl rfl⟩

theorem asked_mapM_known? (known : OperandId → Option Ty) (xs : List (Option OperandId)) :
    (xs.mapM known?).asked known = xs.filterMap id := by
  induction xs with
  | nil => rfl
  | cons x xs ih =>
    rw [List.mapM_cons, asked_bind, outcome_known?]
    simp only
    rw [asked_bind, ih]
    cases x <;> cases (xs.mapM known?).outcome known <;> simp [known?, asked, pure]

theorem asked_of_passedOn (known : OperandId → Option Ty) {op : Op}
    {ys : List (Option OperandId)} (h : passedOn? op = some ys) :
    (a.rule op).asked known = ys.filterMap id := by
  rcases rule_of_passedOn (a := a) h with ⟨haction, hslot⟩ | ⟨x, rfl, hrule⟩
  · have hoperands : a.operandsIn op .vars = answer ys := by
      simp only [operandsIn, hslot]
    rw [rule_phi haction, merge, hoperands]
    show ((ys.mapM known?) >>= _).asked known = _
    rw [asked_bind, asked_mapM_known?, outcome_mapM_known?]
    simp only [asked_bind]
    -- the union of what was heard asks nothing more
    cases Ty.unionOf? ((ys.map (·.bind known)).filterMap id) with
    | none => simp [ofOption, asked, outcome]
    | some u =>
      simp only [ofOption, asked, outcome]
      split <;> simp [asked]
  · rw [hrule, asked_bind, Inquiry.known, asked_bind, outcome_bind, outcome_known?]
    cases x with
    | none => rfl
    | some x => cases hx : known x <;> simp [known?, asked, outcome, hx, pure]

/-- An operand that is written by one operation has the type that this operation gives it. -/
theorem outcome_inquiry_of_producer {x : OperandId} {op : Op} (hp : a.graph.producers x = [op])
    (known : OperandId → Option Ty) :
    (a.inquiry x).outcome known = match (a.rule op).outcome known with
      | .answer ts => ((types ts) >>= fun ts => pure (Ty.lubAll ts)).outcome known
      | .wait => .wait
      | .guess t => .guess t
      | .fault f => .fault (blame op f) := by
  simp only [inquiry, hp, List.mapM_cons, List.mapM_nil, outcome_bind, outcome_mapFault]
  cases (a.rule op).outcome known <;> simp [Inquiry.outcome, pure]

theorem asked_inquiry_of_producer {x : OperandId} {op : Op} (hp : a.graph.producers x = [op])
    (known : OperandId → Option Ty) : (a.inquiry x).asked known = (a.rule op).asked known := by
  have hrest (ts : List Ty) : (types ts >>= fun ts => pure (Ty.lubAll ts)).asked known = [] := by
    unfold types
    split <;> rfl
  rw [inquiry, hp, List.mapM_cons, List.mapM_nil, asked_bind, asked_bind, asked_mapFault,
    outcome_bind, outcome_mapFault]
  cases (a.rule op).outcome known with
  | answer ts =>
    show ((a.rule op).asked known ++ []) ++
      (types [ts].flatten >>= fun ts => pure (Ty.lubAll ts)).asked known = _
    rw [hrest, List.append_nil, List.append_nil]
  | _ => simp

/-- The only operation that writes `x` passes on the values of `ys`. -/
def PassesOn (a : Analysis) (x : OperandId) (ys : List (Option OperandId)) : Prop :=
  ∃ op, a.graph.producers x = [op] ∧ passedOn? op = some ys

theorem PassesOn.outcome {x : OperandId} {ys : List (Option OperandId)} (h : a.PassesOn x ys)
    (known : OperandId → Option Ty) :
    Ty.unionOf? (ys.filterMap (·.bind known)) = none ∧ (a.inquiry x).outcome known = .wait ∨
      ∃ u, Ty.unionOf? (ys.filterMap (·.bind known)) = some u ∧
        ((a.inquiry x).outcome known = .answer u ∨ (a.inquiry x).outcome known = .guess u) := by
  obtain ⟨op, hp, hop⟩ := h
  rw [outcome_inquiry_of_producer hp]
  rcases outcome_rule_of_passedOn (a := a) hop with ⟨hu, ho⟩ | ⟨u, hu, ho | ho⟩
  · exact Or.inl ⟨hu, by rw [ho]⟩
  · exact Or.inr ⟨u, hu, Or.inl (by rw [ho]; rfl)⟩
  · exact Or.inr ⟨u, hu, Or.inr (by rw [ho])⟩

theorem PassesOn.depends_iff {x y : OperandId} {ys : List (Option OperandId)}
    (h : a.PassesOn x ys) : a.Depends x y ↔ some y ∈ ys := by
  obtain ⟨op, hp, hop⟩ := h
  simp only [Depends, asked_inquiry_of_producer hp, asked_of_passedOn _ hop]
  simp

theorem PassesOn.attempted {x : OperandId} {ys : List (Option OperandId)} (h : a.PassesOn x ys)
    {f : Findings} {v : Finding} (hv : a.Attempted f x v) :
    Ty.unionOf? (ys.filterMap (·.bind f.known?)) = none ∧ v = f.about x ∨
      ∃ u, Ty.unionOf? (ys.filterMap (·.bind f.known?)) = some u ∧
        (v = .guess u ∨ v = .settled u) := by
  unfold Attempted at hv
  rcases h.outcome f.known? with ⟨hu, ho⟩ | ⟨u, hu, ho | ho⟩
  · rw [ho] at hv
    exact Or.inl ⟨hu, hv⟩
  · rw [ho] at hv
    refine Or.inr ⟨u, hu, ?_⟩
    simp only at hv
    split at hv
    · exact Or.inl hv
    · exact Or.inr hv
  · rw [ho] at hv
    exact Or.inr ⟨u, hu, Or.inl hv⟩

/-- The operand depends on no merge. -/
def GuessFree (a : Analysis) (x : OperandId) : Prop :=
  ∀ y, Relation.ReflTransGen a.Depends x y → ∀ op ∈ a.graph.producers y, op.action ≠ .phi

theorem GuessFree.depends {x y : OperandId} (h : a.GuessFree x) (hy : a.Depends x y) :
    a.GuessFree y :=
  fun z hz => h z (.head hy hz)

theorem guessFree_of_producers_eq_nil {x : OperandId} (h : a.graph.producers x = []) :
    a.GuessFree x := by
  intro y hy
  cases hy.cases_head with
  | inl hxy =>
    subst hxy
    simp [h]
  | inr hdep =>
    obtain ⟨z, ⟨known, hz⟩, -⟩ := hdep
    rw [inquiry, h] at hz
    cases hz

end Analysis

end TypeRecovery
