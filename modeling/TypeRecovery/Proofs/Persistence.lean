import TypeRecovery.Proofs.Waiting

/-!
# Results that stay when more becomes known

A patient operation misses an operand that is not known yet, and what it comes to once it does not
wait any more is final: with more knowledge it gives the same answer or the same fault. Only three
kinds of operations are not patient: merges guess, an assertion that excludes types takes any subject
that it does not know, and a new object whose class is only known by its type is any object before.
-/
namespace TypeRecovery

/-- Whatever `known` tells, `more` tells too. -/
def Retains (known more : OperandId → Option Ty) : Prop := ∀ y s, known y = some s → more y = some s

namespace Inquiry

variable {α β γ : Type}

/-- Once the inquiry does not wait any more, it comes to the same whatever else becomes known. -/
def Persists (i : Inquiry α) : Prop :=
  ∀ known more, Retains known more → i.outcome known = .wait ∨ i.outcome more = i.outcome known

theorem persists_of_const {i : Inquiry α} {o : Outcome α} (h : ∀ known, i.outcome known = o) :
    i.Persists := by
  intro known more _
  rw [h known, h more]
  exact Or.inr rfl

theorem persists_answer (b : α) : (answer b).Persists := persists_of_const fun _ => rfl

theorem persists_wait : (wait : Inquiry α).Persists := persists_of_const fun _ => rfl

theorem persists_fault (f : Fault) : (fault f : Inquiry α).Persists := persists_of_const fun _ => rfl

theorem Persists.bind {i : Inquiry α} {k : α → Inquiry β} (hi : i.Persists)
    (hk : ∀ b, (k b).Persists) : (i >>= k).Persists := by
  intro known more hmore
  rw [outcome_bind, outcome_bind]
  rcases hi known more hmore with hwait | hsame
  · rw [hwait]
    exact Or.inl rfl
  · rw [hsame]
    cases i.outcome known with
    | answer b => exact hk b known more hmore
    | _ => exact Or.inr rfl

theorem Persists.map {i : Inquiry α} (hi : i.Persists) (f : α → β) :
    (i >>= fun b => pure (f b)).Persists :=
  hi.bind fun _ => persists_answer _

theorem persists_ofOption (b : Option α) : (ofOption b).Persists := by
  cases b with
  | none => exact persists_wait
  | some b => exact persists_answer b

/-- A question whose missing answer makes the inquiry wait. -/
theorem persists_known?_bind {x : Option OperandId} {k : Option Ty → Inquiry α}
    (hsome : ∀ t, (k (some t)).Persists) (hnone : ∀ known, (k none).outcome known = .wait) :
    (known? x >>= k).Persists := by
  intro known more hmore
  rw [outcome_bind, outcome_known?, outcome_bind, outcome_known?]
  cases hx : x.bind known with
  | none => exact Or.inl (hnone known)
  | some t =>
    obtain ⟨y, rfl, hy⟩ := Option.bind_eq_some_iff.1 hx
    rw [Option.bind_some, hmore y t hy]
    exact hsome t known more hmore

theorem persists_known (x : Option OperandId) : (known x).Persists :=
  persists_known?_bind persists_answer fun _ => rfl

theorem persists_mapM {f : γ → Inquiry α} {xs : List γ} (h : ∀ x ∈ xs, (f x).Persists) :
    (xs.mapM f).Persists := by
  induction xs with
  | nil =>
    rw [List.mapM_nil]
    exact persists_answer []
  | cons x xs ih =>
    rw [List.mapM_cons]
    apply (h x List.mem_cons_self).bind
    intro b
    exact (ih fun y hy => h y (List.mem_cons_of_mem x hy)).map _

theorem persists_types (ts : List Ty) : (types ts).Persists := by
  unfold types
  split
  · exact persists_wait
  · exact persists_answer ts

theorem Persists.mapFault {i : Inquiry α} (h : i.Persists) (g : Fault → Fault) :
    (i.mapFault g).Persists := by
  intro known more hmore
  rw [outcome_mapFault, outcome_mapFault]
  rcases h known more hmore with hwait | hsame
  · rw [hwait]
    exact Or.inl rfl
  · rw [hsame]
    exact Or.inr rfl

end Inquiry

namespace Analysis

open Inquiry

variable {a : Analysis}

theorem operandIn_cases (op : Op) (s : Slot) :
    (∃ x, operandIn op s = answer x) ∨ ∃ f, operandIn op s = fault f := by
  unfold operandIn
  split
  · exact Or.inl ⟨none, rfl⟩
  · exact Or.inl ⟨_, rfl⟩
  · exact Or.inr ⟨_, rfl⟩

theorem persists_operandIn (op : Op) (s : Slot) : (operandIn op s).Persists := by
  rcases operandIn_cases op s with ⟨x, hx⟩ | ⟨f, hf⟩
  · rw [hx]
    exact persists_answer x
  · rw [hf]
    exact persists_fault f

theorem persists_operandsIn (op : Op) (s : Slot) : (a.operandsIn op s).Persists := by
  unfold operandsIn
  split
  · exact persists_answer []
  · exact persists_answer _
  · exact persists_fault _
  · exact persists_fault _

theorem persists_requireName (v : Value) : (requireName v).Persists := by
  unfold requireName
  split
  · exact persists_answer _
  · exact persists_fault _

theorem persists_typeIn (op : Op) (s : Slot) : (typeIn op s).Persists :=
  (persists_operandIn op s).bind persists_known

/-- Whether the right slot is faulty shows before the left operand is missed. -/
theorem persists_typesIn (op : Op) (s t : Slot) : (typesIn op s t).Persists := by
  unfold typesIn typeIn?
  simp only [bind_assoc]
  apply (persists_operandIn op s).bind
  intro x
  rcases operandIn_cases op t with ⟨y, hy⟩ | ⟨f, hf⟩
  · simp only [hy, answer_bind]
    apply persists_known?_bind
    · intro left
      apply persists_known?_bind
      · intro right
        exact persists_answer _
      · intro known
        rfl
    · intro known
      rw [outcome_bind, outcome_known?]
      rfl
  · apply persists_of_const (o := .fault f)
    intro known
    rw [outcome_bind, outcome_known?, hf]
    rfl

theorem persists_assertedType (test : Assertion) : (a.assertedType test).Persists := by
  refine assertedType.induct a (fun test => (a.assertedType test).Persists)
    (fun tests => (a.assertedTypes tests).Persists) ?_ ?_ ?_ ?_ ?_ ?_ ?_ test
  · intro x v hv
    simp only [assertedType, hv]
    exact persists_answer _
  · intro x hx
    simp only [assertedType, hx]
    exact persists_known (some x)
  · intro c parts ih
    rw [assertedType]
    exact ih.bind fun ts => persists_ofOption _
  · intro first rest ihf ihr
    rw [assertedType]
    exact ihf.bind fun t => ihr.bind fun ts => persists_ofOption _
  · rw [assertedType]
    exact persists_fault _
  · rw [assertedTypes]
    exact persists_answer []
  · intro p ps ihp ihps
    rw [assertedTypes]
    exact ihp.bind fun t => ihps.map _

theorem persists_narrowed (subject : Option OperandId) {test : Assertion}
    (h : ∀ first rest, test ≠ .negation first rest) : (a.narrowed subject test).Persists := by
  cases test with
  | negation first rest => exact absurd rfl (h first rest)
  | other =>
    rw [narrowed]
    exact persists_wait
  | isType x =>
    rw [narrowed]
    · exact persists_assertedType _
    · simp
    · simp
  | nested c parts =>
    rw [narrowed]
    · exact persists_assertedType _
    · simp
    · simp

theorem persists_constantFetch (op : Op) : (a.constantFetch op).Persists := by
  apply (persists_ofOption _).bind
  intro v
  apply (persists_requireName v).bind
  intro name
  split
  · exact persists_answer _
  · exact persists_answer _
  · exact persists_answer _
  · exact (persists_mapM fun c _ => persists_known c.value).bind persists_types

/-- The class of a new object is not asked for when the operand itself tells it. -/
theorem persists_newObject {op : Op}
    (h : ∀ y, op.slot? .cls = some (.one (some y)) →
      (∃ name, a.graph.literal? y = some (.text name)) ∨
        (a.graph.operand y).objectClass? ≠ none) : (a.newObject op).Persists := by
  unfold newObject operandIn
  split
  · exact persists_answer _
  · rename_i x hx
    rw [answer_bind]
    split
    · exact persists_answer _
    · exact persists_answer _
    · rename_i hliteral hclass
      cases x with
      | none => exact persists_answer _
      | some y =>
        rcases h y hx with ⟨name, hname⟩ | hy
        · exact absurd hname (hliteral name)
        · obtain ⟨cls, hcls⟩ := Option.ne_none_iff_exists'.1 hy
          exact absurd hcls (hclass cls)
  · exact persists_fault _

theorem persists_functionCall (op : Op) : (a.functionCall op).Persists := by
  apply (persists_ofOption _).bind
  intro v
  apply (persists_requireName v).bind
  intro name
  split
  · exact (persists_ofOption _).map _
  · exact persists_answer _

theorem persists_namespacedCall (op : Op) : (a.namespacedCall op).Persists := by
  apply (persists_ofOption _).bind
  intro _
  apply (persists_ofOption _).bind
  intro v
  apply (persists_requireName v).bind
  intro name
  split
  · exact persists_functionCall op
  · exact persists_answer _

/-- Without a type of the receiver there are no classes to search. -/
theorem persists_memberTypes (op : Op) (receiver : Slot) {lookup : Key → Key → Inquiry (List Ty)}
    (h : ∀ c m, (lookup c m).Persists) : (a.memberTypes op receiver lookup).Persists := by
  unfold memberTypes classNames
  simp only [bind_assoc]
  apply (persists_ofOption _).bind
  intro v
  apply (persists_operandIn op receiver).bind
  intro x
  apply persists_known?_bind
  · intro t
    apply Persists.bind
    · simp only
      split
      · split <;> exact persists_answer _
      · exact persists_answer _
    · intro classes
      split
      · exact persists_wait
      · apply (persists_requireName v).bind
        intro name
        exact (persists_mapM fun c _ => h c (Key.of name)).bind fun tss => persists_types _
  · intro known
    rfl

theorem persists_constantTypes (c m : Key) : (a.constantTypes c m).Persists := by
  apply persists_mapM
  intro source _
  cases source with
  | value x => exact persists_known x
  | signature t => exact persists_answer t

/-- The operation answers only when it knows all that may still change its answer. -/
structure Patient (a : Analysis) (op : Op) : Prop where
  merge : op.action ≠ .phi
  negation : ∀ head subject first rest, op ≠ .assertion head subject (.negation first rest)
  newObject : op.action = .newObject → ∀ y, op.slot? .cls = some (.one (some y)) →
    (∃ name, a.graph.literal? y = some (.text name)) ∨ (a.graph.operand y).objectClass? ≠ none

/-- Operands that name a class by themselves have a type at the start. -/
theorem Patient.not_hasty {op : Op} (h : a.Patient op) : ¬Hasty a.Open op := by
  intro hasty
  cases hasty with
  | @newObject _ y ha hs hy =>
    have hstart := hy.start
    simp only [start?] at hstart
    split at hstart
    · cases hstart
    rcases h.newObject ha y hs with ⟨name, hname⟩ | hclass
    · rw [Graph.literal?] at hname
      cases hc : (a.graph.operand y).objectClass? <;>
        simp [hname, hc, Ty.ofValue, Except.toOption] at hstart
    · obtain ⟨cls, hcls⟩ := Option.ne_none_iff_exists'.1 hclass
      simp [hcls] at hstart
  | excludes _ => exact h.negation _ _ _ _ rfl

theorem Patient.persists_rule {op : Op} (h : a.Patient op) : (a.rule op).Persists := by
  cases haction : op.action <;> simp only [rule, haction]
  case bitwiseAnd | bitwiseOr | bitwiseXor | plus | minus | times | divide =>
    exact (persists_typesIn op .left .right).map _
  case bitwiseNot | unaryMinus | unaryPlus | assign | assignRef | cloneObject | castObject =>
    exact (persists_typeIn op .expr).map _
  case arrayDimFetch => exact (persists_typeIn op .var).map _
  case evaluate | includeFile | yieldValue | iteratorKey => exact persists_wait
  case iteratorValue => exact (persists_typeIn op .var).bind fun t => (persists_ofOption _).map _
  case newArray =>
    apply (persists_operandsIn op .values).bind
    intro xs
    exact (persists_mapM fun x _ => persists_known x).map _
  case staticVar =>
    apply (persists_operandIn op .fallback).bind
    intro x
    cases x with
    | none => exact persists_answer _
    | some x => exact (persists_known (some x)).map _
  case phi => exact absurd haction h.merge
  case assertion =>
    cases op with
    | assertion head subject test =>
      apply (persists_narrowed subject ?_).map
      rintro first rest rfl
      exact h.negation head subject first rest rfl
    | _ => exact persists_fault _
  case constFetch => exact persists_constantFetch op
  case parameter =>
    cases op with
    | parameter head name declared fallback comment => exact persists_answer _
    | _ => exact persists_fault _
  case newObject => exact persists_newObject (h.newObject haction)
  case funcCall => exact persists_functionCall op
  case nsFuncCall => exact persists_namespacedCall op
  case methodCall | propertyFetch => exact persists_memberTypes op .var fun _ _ => persists_answer _
  case staticCall | staticPropertyFetch =>
    exact persists_memberTypes op .cls fun _ _ => persists_answer _
  case classConstFetch => exact persists_memberTypes op .cls persists_constantTypes
  all_goals first
    | exact persists_fault _
    | exact persists_answer _

theorem persists_inquiry {x : OperandId} (h : ∀ op ∈ a.graph.producers x, a.Patient op) :
    (a.inquiry x).Persists := by
  apply (persists_mapM fun op hop => (h op hop).persists_rule.mapFault (blame op)).bind
  intro tss
  exact (persists_types _).map _

end Analysis

end TypeRecovery
