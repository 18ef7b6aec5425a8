import TypeRecovery.Proofs.Endings

/-!
# Rules that wait for what they ask

A rule that asks about an operand waits until it is known, and only merges guess. Two rules do not
wait: a new object is any object while its class is not known, and an assertion takes what it
excludes from all values while nothing is known of its subject. Their answers are final though more
may become known.
-/
namespace TypeRecovery

namespace Inquiry

variable {α β γ : Type} {O : OperandId → Prop} {G : Prop}

/-- The inquiry answers only when all operands of `O` that it asks about are known, and guesses only
under `G`. -/
structure Heeds (O : OperandId → Prop) (G : Prop) (i : Inquiry α) : Prop where
  answers : ∀ known b, i.outcome known = .answer b → ∀ y ∈ i.asked known, O y → known y ≠ none
  guesses : ∀ known t, i.outcome known = .guess t → G

theorem heeds_answer (b : α) : (answer b).Heeds O G where
  answers := by simp [asked]
  guesses := by simp [outcome]

theorem heeds_wait : (wait : Inquiry α).Heeds O G where
  answers := by simp [asked]
  guesses := by simp [outcome]

theorem heeds_fault (f : Fault) : (fault f : Inquiry α).Heeds O G where
  answers := by simp [asked]
  guesses := by simp [outcome]

/-- A question whose missing answer leads to no result. -/
theorem heeds_ask {x : OperandId} {next : Option Ty → Inquiry α} (h : ∀ t, (next t).Heeds O G)
    (hnone : O x → ∀ known b, (next none).outcome known ≠ .answer b) :
    (ask x next).Heeds O G where
  answers := by
    intro known b hb y hy hO
    rcases List.mem_cons.1 hy with rfl | hy
    · intro hnot
      simp only [outcome, hnot] at hb
      exact hnone hO known b hb
    · exact (h (known x)).answers known b hb y hy hO
  guesses := fun known => (h (known x)).guesses known

theorem Heeds.bind {i : Inquiry α} {k : α → Inquiry β} (hi : i.Heeds O G)
    (hk : ∀ b, (k b).Heeds O G) : (i >>= k).Heeds O G where
  answers := by
    intro known c hc y hy hO
    rw [outcome_bind] at hc
    rw [asked_bind] at hy
    cases hb : i.outcome known with
    | answer b =>
      rw [hb] at hc hy
      rcases List.mem_append.1 hy with hy | hy
      · exact hi.answers known b hb y hy hO
      · exact (hk b).answers known c hc y hy hO
    | _ => simp [hb] at hc
  guesses := by
    intro known t ht
    rw [outcome_bind] at ht
    cases hb : i.outcome known with
    | answer b =>
      rw [hb] at ht
      exact (hk b).guesses known t ht
    | guess u => exact hi.guesses known u hb
    | _ => simp [hb] at ht

theorem answer_bind (b : α) (k : α → Inquiry β) : (answer b >>= k) = k b := rfl

theorem Heeds.map {i : Inquiry α} (hi : i.Heeds O G) (f : α → β) :
    (i >>= fun b => pure (f b)).Heeds O G :=
  hi.bind fun _ => heeds_answer _

theorem heeds_ofOption (b : Option α) : (ofOption b).Heeds O G := by
  cases b with
  | none => exact heeds_wait
  | some b => exact heeds_answer b

theorem heeds_known?_bind {x : Option OperandId} {k : Option Ty → Inquiry α}
    (h : ∀ t, (k t).Heeds O G)
    (hnone : ∀ y, x = some y → O y → ∀ known b, (k none).outcome known ≠ .answer b) :
    (known? x >>= k).Heeds O G := by
  cases x with
  | none => exact h none
  | some y => exact heeds_ask h (hnone y rfl)

theorem heeds_known (x : Option OperandId) : (known x).Heeds O G := by
  apply heeds_known?_bind
  · intro t
    cases t with
    | none => exact heeds_wait
    | some t => exact heeds_answer t
  · rintro _ _ _ known b ⟨⟩

theorem heeds_mapM {f : γ → Inquiry α} {xs : List γ} (h : ∀ x ∈ xs, (f x).Heeds O G) :
    (xs.mapM f).Heeds O G := by
  induction xs with
  | nil =>
    rw [List.mapM_nil]
    exact heeds_answer []
  | cons x xs ih =>
    rw [List.mapM_cons]
    refine (h x List.mem_cons_self).bind fun b => ?_
    exact (ih fun y hy => h y (List.mem_cons_of_mem x hy)).map _

theorem heeds_types (ts : List Ty) : (types ts).Heeds O G := by
  unfold types
  split
  · exact heeds_wait
  · exact heeds_answer ts

theorem Heeds.mapFault {i : Inquiry α} (h : i.Heeds O G) (g : Fault → Fault) :
    (i.mapFault g).Heeds O G where
  answers := by
    intro known b hb
    rw [outcome_mapFault] at hb
    rw [asked_mapFault]
    apply h.answers known b
    cases ho : i.outcome known <;> simp [ho] at hb ⊢
    exact hb
  guesses := by
    intro known t ht
    rw [outcome_mapFault] at ht
    apply h.guesses known t
    cases ho : i.outcome known <;> simp [ho] at ht ⊢
    exact ht

theorem Heeds.mono {G' : Prop} {i : Inquiry α} (h : i.Heeds O G) (hG : G → G') : i.Heeds O G' :=
  ⟨h.answers, fun known t ht => hG (h.guesses known t ht)⟩

end Inquiry

namespace Analysis

open Inquiry

variable {a : Analysis} {O : OperandId → Prop} {G : Prop}

theorem heeds_operandIn (op : Op) (s : Slot) : (operandIn op s).Heeds O G := by
  unfold operandIn
  split
  · exact heeds_answer none
  · exact heeds_answer _
  · exact heeds_fault _

theorem heeds_operandsIn (op : Op) (s : Slot) : (a.operandsIn op s).Heeds O G := by
  unfold operandsIn
  split
  · exact heeds_answer []
  · exact heeds_answer _
  · exact heeds_fault _
  · exact heeds_fault _

theorem heeds_requireName (v : Value) : (requireName v).Heeds O G := by
  unfold requireName
  split
  · exact heeds_answer _
  · exact heeds_fault _

theorem heeds_typeIn (op : Op) (s : Slot) : (typeIn op s).Heeds O G :=
  (heeds_operandIn op s).bind heeds_known

theorem heeds_typesIn (op : Op) (s t : Slot) : (typesIn op s t).Heeds O G := by
  unfold typesIn typeIn?
  simp only [bind_assoc]
  refine (heeds_operandIn op s).bind fun x => heeds_known?_bind (fun left => ?_) ?_
  · refine (heeds_operandIn op t).bind fun y => heeds_known?_bind (fun right => ?_) ?_
    · exact (heeds_ofOption left).bind fun _ => (heeds_ofOption right).map _
    · intro _ _ _ known b
      cases left with
      | none => simp [outcome_bind, ofOption, outcome]
      | some t => rintro ⟨⟩
  · -- a missing left operand is missed after the right one has been asked for
    intro _ _ _ known b
    rw [outcome_bind]
    cases (operandIn op t).outcome known with
    | answer y => simp [outcome_bind, outcome_known?, ofOption, outcome]
    | _ => simp

theorem heeds_merge (op : Op) (hG : G) : (a.merge op).Heeds O G := by
  refine (heeds_operandsIn op .vars).bind fun xs => ⟨?_, fun _ _ _ => hG⟩
  intro known b hb y hy _
  rw [outcome_bind, outcome_mapM_known?] at hb
  rw [asked_bind, outcome_mapM_known?, asked_mapM_known?] at hy
  simp only [outcome_bind, asked_bind] at hb hy
  cases hu : Ty.unionOf? ((xs.map (·.bind known)).filterMap id) with
  | none =>
    rw [hu] at hb
    cases hb
  | some u =>
    simp only [hu, ofOption, outcome, asked] at hb hy
    split at hb
    · rename_i hall
      rw [if_pos hall] at hy
      have hmem : some y ∈ xs := by simpa [asked] using hy
      have := List.all_eq_true.1 hall (known y) (List.mem_map.2 ⟨some y, hmem, rfl⟩)
      exact Option.isSome_iff_ne_none.1 this
    · cases hb

theorem heeds_assertedType (test : Assertion) : (a.assertedType test).Heeds O G := by
  refine assertedType.induct a (fun test => (a.assertedType test).Heeds O G)
    (fun tests => (a.assertedTypes tests).Heeds O G) ?_ ?_ ?_ ?_ ?_ ?_ ?_ test
  · intro x v hv
    simp only [assertedType, hv]
    exact heeds_answer _
  · intro x hx
    simp only [assertedType, hx]
    exact heeds_known (some x)
  · intro c parts ih
    rw [assertedType]
    exact ih.bind fun ts => heeds_ofOption _
  · intro first rest ihf ihr
    rw [assertedType]
    exact ihf.bind fun t => ihr.bind fun ts => heeds_ofOption _
  · rw [assertedType]
    exact heeds_fault _
  · rw [assertedTypes]
    exact heeds_answer []
  · intro p ps ihp ihps
    rw [assertedTypes]
    exact ihp.bind fun t => ihps.map _

/-- Only the subject of a negation is not waited for. -/
theorem heeds_narrowed {subject : Option OperandId} {test : Assertion}
    (h : ∀ y first rest, subject = some y → test = .negation first rest → ¬O y) :
    (a.narrowed subject test).Heeds O G := by
  induction test using narrowed.induct with
  | case1 first rest ih =>
    have hsubject : ∀ y, subject = some y → ¬O y := fun y hy => h y first rest hy rfl
    rw [narrowed]
    refine (ih fun y _ _ hy _ => hsubject y hy).bind fun excluded => ?_
    exact heeds_known?_bind (fun _ => heeds_answer _) fun y hy hO => absurd hO (hsubject y hy)
  | case2 =>
    rw [narrowed]
    exact heeds_wait
  | case3 test hn ho =>
    rw [narrowed]
    · exact heeds_assertedType test
    · exact hn
    · exact ho

theorem heeds_constantFetch (op : Op) : (a.constantFetch op).Heeds O G := by
  refine (heeds_ofOption _).bind fun v => (heeds_requireName v).bind fun name => ?_
  split
  · exact heeds_answer _
  · exact heeds_answer _
  · exact heeds_answer _
  · exact (heeds_mapM fun c _ => heeds_known c.value).bind heeds_types

/-- Only the class of a new object is not waited for. -/
theorem heeds_newObject {op : Op}
    (h : ∀ y, op.slot? .cls = some (.one (some y)) → ¬O y) : (a.newObject op).Heeds O G := by
  unfold newObject operandIn
  split
  · exact heeds_answer _
  · rename_i x hx
    rw [answer_bind]
    split
    · exact heeds_answer _
    · exact heeds_answer _
    · refine heeds_known?_bind (fun t => ?_) fun y hy hO => absurd hO (h y (hy ▸ hx))
      cases t <;> exact heeds_answer _
  · exact heeds_fault _

theorem heeds_functionCall (op : Op) : (a.functionCall op).Heeds O G := by
  refine (heeds_ofOption _).bind fun v => (heeds_requireName v).bind fun name => ?_
  split
  · exact (heeds_ofOption _).map _
  · exact heeds_answer _

theorem heeds_namespacedCall (op : Op) : (a.namespacedCall op).Heeds O G := by
  refine (heeds_ofOption _).bind fun _ => (heeds_ofOption _).bind fun v => ?_
  refine (heeds_requireName v).bind fun name => ?_
  split
  · exact heeds_functionCall op
  · exact heeds_answer _

/-- Without a type there are no classes, and without classes no members. -/
theorem heeds_memberTypes (op : Op) (receiver : Slot) {lookup : Key → Key → Inquiry (List Ty)}
    (h : ∀ c m, (lookup c m).Heeds O G) : (a.memberTypes op receiver lookup).Heeds O G := by
  unfold memberTypes classNames
  simp only [bind_assoc]
  refine (heeds_ofOption _).bind fun v => (heeds_operandIn op receiver).bind fun x => ?_
  apply heeds_known?_bind
  · intro t
    have hclasses (classes : List Key) :
        (if (classes.flatMap a.candidates).isEmpty then wait
          else requireName v >>= fun name => ((classes.flatMap a.candidates).mapM fun c =>
            lookup c (Key.of name)) >>= fun tss => types tss.flatten).Heeds O G := by
      split
      · exact heeds_wait
      · refine (heeds_requireName v).bind fun name => ?_
        exact (heeds_mapM fun c _ => h c (Key.of name)).bind fun tss => heeds_types _
    refine Heeds.bind ?_ hclasses
    cases t with
    | none => exact heeds_answer []
    | some t =>
      simp only
      split
      · split <;> exact heeds_answer _
      · exact heeds_answer _
  · rintro _ _ _ known b ⟨⟩

/-- The operation does not wait for some operand of `O`. -/
inductive Hasty (O : OperandId → Prop) : Op → Prop
  | newObject {op : Op} {y : OperandId} (ha : op.action = .newObject)
      (hs : op.slot? .cls = some (.one (some y))) (hy : O y) : Hasty O op
  | excludes {head : Head} {y : OperandId} {first : Assertion} {rest : List Assertion} (hy : O y) :
      Hasty O (.assertion head (some y) (.negation first rest))

theorem heeds_rule {op : Op} (h : ¬Hasty O op) : (a.rule op).Heeds O (op.action = .phi) := by
  cases haction : op.action <;> simp only [rule, haction]
  case bitwiseAnd | bitwiseOr | bitwiseXor | plus | minus | times | divide =>
    exact (heeds_typesIn op .left .right).map _
  case bitwiseNot | unaryMinus | unaryPlus | assign | assignRef | cloneObject | castObject =>
    exact (heeds_typeIn op .expr).map _
  case arrayDimFetch => exact (heeds_typeIn op .var).map _
  case evaluate | includeFile | yieldValue | iteratorKey => exact heeds_wait
  case iteratorValue => exact (heeds_typeIn op .var).bind fun t => (heeds_ofOption _).map _
  case newArray =>
    exact (heeds_operandsIn op .values).bind fun xs => (heeds_mapM fun x _ => heeds_known x).map _
  case staticVar =>
    refine (heeds_operandIn op .fallback).bind fun x => ?_
    cases x with
    | none => exact heeds_answer _
    | some x => exact (heeds_known (some x)).map _
  case phi => exact heeds_merge op trivial
  case assertion =>
    cases op with
    | assertion head subject test =>
      refine (heeds_narrowed ?_).map _
      rintro y first rest rfl rfl hy
      exact h (.excludes hy)
    | _ => exact heeds_fault _
  case constFetch => exact heeds_constantFetch op
  case parameter =>
    cases op with
    | parameter head name declared fallback comment => exact heeds_answer _
    | _ => exact heeds_fault _
  case newObject => exact heeds_newObject fun y hs hy => h (.newObject haction hs hy)
  case funcCall => exact heeds_functionCall op
  case nsFuncCall => exact heeds_namespacedCall op
  case methodCall | propertyFetch => exact heeds_memberTypes op .var fun _ _ => heeds_answer _
  case staticCall | staticPropertyFetch => exact heeds_memberTypes op .cls fun _ _ => heeds_answer _
  case classConstFetch =>
    refine heeds_memberTypes op .cls fun c m => heeds_mapM fun s _ => ?_
    cases s with
    | value x => exact heeds_known x
    | signature t => exact heeds_answer t
  all_goals first
    | exact heeds_fault _
    | exact heeds_answer _

theorem heeds_inquiry {x : OperandId} (h : ∀ op ∈ a.graph.producers x, ¬Hasty O op) :
    (a.inquiry x).Heeds O (∃ op ∈ a.graph.producers x, op.action = .phi) := by
  refine (heeds_mapM fun op hop => ?_).bind fun tss => (heeds_types _).map _
  exact ((heeds_rule (h op hop)).mono fun hphi => ⟨op, hop, hphi⟩).mapFault (blame op)

/-- Without a merge there is no guess to begin with. -/
theorem outcome_inquiry_ne_guess {x : OperandId}
    (h : ∀ op ∈ a.graph.producers x, op.action ≠ .phi) (known : OperandId → Option Ty) (t : Ty) :
    (a.inquiry x).outcome known ≠ .guess t := by
  intro ht
  have hheeds := heeds_inquiry (a := a) (x := x) (O := fun _ => False) fun op _ hasty => by
    cases hasty <;> assumption
  obtain ⟨op, hop, hphi⟩ := hheeds.guesses known t ht
  exact h op hop hphi

/-- Nothing is guessed in a part of the program that has no merges and asks only about itself. -/
theorem Meets.not_guess_of_closed {S : OperandId → Prop}
    (hmerge : ∀ x ∈ a.operands, S x → ∀ op ∈ a.graph.producers x, op.action ≠ .phi)
    (hclosed : ∀ x y, S x → a.Depends x y → S y) {f : Findings} (h : a.Meets f) {x : OperandId}
    {t : Ty} (hx : S x) : f.about x ≠ .guess t := by
  induction h generalizing x t with
  | seed h =>
    rcases (seed_spec h).about x with hn | ⟨u, hu, -⟩
    · simp [hn]
    · simp [hu]
  | @attempt f g y _ hf hk hy hg ih =>
    have hspec := attempt_spec hg hy
    by_cases hxy : x = y
    · subst hxy
      intro hgx
      have hattempted := hspec.attempted
      rw [hgx] at hattempted
      unfold Attempted at hattempted
      split at hattempted
      · split at hattempted
        · -- the guess that is heard would be one of the same part
          rename_i hhears
          obtain ⟨z, hz, hguess⟩ := List.any_eq_true.1 hhears
          cases hfz : f.about z with
          | guess u => exact ih (hclosed x z hx ⟨_, hz⟩) hfz
          | _ => simp [hfz, Finding.isGuess] at hguess
        · cases hattempted
      · exact ih hx hattempted.symm
      · rename_i hu
        exact outcome_inquiry_ne_guess (hmerge x ((hf.mem_keys x).1 hk) hx) _ _ hu
      · exact hattempted
    · rw [hspec.others x hxy]
      exact ih hx
  | count _ ih => exact ih hx

theorem Meets.not_guess {f : Findings} (h : a.Meets f) {x : OperandId} {t : Ty}
    (hx : a.GuessFree x) : f.about x ≠ .guess t :=
  h.not_guess_of_closed (fun y _ hy => hy y .refl) (fun _ _ hy hz => hy.depends hz) hx

end Analysis

end TypeRecovery
