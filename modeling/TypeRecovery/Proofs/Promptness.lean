import TypeRecovery.Proofs.Derivation
import TypeRecovery.Proofs.Rest

/-!
# Rules that go on coming to types

Rules are prompt when they do not fall back to waiting once they have come to a type. Then what is
known of an operand at the end is what its rules come to at the end. Operations that pass values on
are prompt, and so is arithmetic. A rule that looks into its operands need not be: the elements of an
array can be told until the guess for the array has other parts too.
-/
namespace TypeRecovery.Analysis

open Inquiry

variable {a : Analysis}

/-- The rules that have come to a type for `x` do not wait when more is known. -/
def Prompt (a : Analysis) (x : OperandId) : Prop :=
  ∀ known known', (∀ y, a.Depends x y → known y ≠ none → known' y ≠ none) →
    ((a.inquiry x).outcome known).type? ≠ none → (a.inquiry x).outcome known' ≠ .wait

/-- At the end, prompt rules come to the type that is known, or wait and nothing is known. -/
theorem Prompt.known?_of_ends {g : Findings} (hg : a.Ends g) {x : OperandId} (h : a.Prompt x)
    (hx : a.Open x) (hwaits : ∀ op ∈ a.graph.producers x, ¬Hasty a.Open op) :
    ∃ f, a.Meets f ∧
      (∀ y, Option.Rel (fun t u => t.equiv u = true) (f.known? y) (g.known? y)) ∧
      ((a.inquiry x).outcome f.known?).type? = g.known? x := by
  cases hgx : g.about x with
  | settled t =>
    obtain ⟨-, hstart | ⟨-, f, hf, hanswer, hasked⟩⟩ := hg.meets.origin hgx
    · rw [hx.start] at hstart
      cases hstart
    have hknown : ∀ y ∈ (a.inquiry x).asked f.known?, f.known? y = g.known? y := by
      intro y hy
      rcases hasked y hy with hnone | ⟨s, hs, hgy⟩
      · have hout := not_mem_of_heeds (heeds_inquiry hwaits) hf hanswer hy hnone
        rw [hnone, Findings.known?, hg.meets.about_of_not_mem hout]
        rfl
      · rw [hs, known?_of_eq (Or.inr hgy)]
    refine ⟨g, hg.meets, fun y => (Finding.Same.refl (g.about y)).known?, ?_⟩
    rw [← outcome_congr hknown, hanswer, known?_of_eq (Or.inr hgx)]
    rfl
  | _ =>
    obtain ⟨f, hf, hsame, hattempted⟩ := hg.attempted hx.mem (by rw [hgx]; rfl)
    refine ⟨f, hf, fun y => (hsame y).known?, ?_⟩
    by_cases hwait : (a.inquiry x).outcome f.known? = .wait
    · rw [hwait]
      cases hv : g.about x with
      | nothing =>
        rw [Findings.known?, hv]
        rfl
      | settled t => cases hgx.symm.trans hv
      | guess t =>
        -- the guess was made with less knowledge, and prompt rules would repeat it
        obtain ⟨known, hless, u, hu⟩ := hg.meets.backed x t hv
        have htype : ((a.inquiry x).outcome known).type? ≠ none := by
          rcases hu with hu | hu <;> simp [hu, Outcome.type?]
        refine absurd hwait (h known f.known? (fun y _ hy hnone => hless y hy ?_) htype)
        have hrel := (hsame y).known?
        rw [← Findings.known?, hnone] at hrel
        exact eq_none_of_rel_none hrel
    · obtain ⟨t, ht, hv⟩ := type?_of_attempted hattempted hwait
      rw [ht, ← hv]
      rfl

theorem PassesOn.type?_outcome {x : OperandId} {ys : List (Option OperandId)} (h : a.PassesOn x ys)
    (known : OperandId → Option Ty) :
    ((a.inquiry x).outcome known).type? = passedType? known ys := by
  rcases h.outcome known with ⟨hu, ho⟩ | ⟨u, hu, ho | ho⟩
  all_goals
    rw [ho, passedType?, hu]
    rfl

theorem PassesOn.prompt {x : OperandId} {ys : List (Option OperandId)} (h : a.PassesOn x ys) :
    a.Prompt x := by
  intro known known' hmore hrule hwait
  have hnone : passedType? known' ys = none := by
    rw [← h.type?_outcome, hwait]
    rfl
  rw [h.type?_outcome] at hrule
  rw [passedType?, Ty.unionOf?] at hrule hnone
  rw [Ne, Ty.combineAll?_eq_none] at hrule
  rw [Ty.combineAll?_eq_none] at hnone
  -- some value was known, and is still
  obtain ⟨s, hs⟩ := List.exists_mem_of_ne_nil _ hrule
  obtain ⟨y, hy, hs⟩ := mem_filterMap_bind.1 hs
  obtain ⟨s', hs'⟩ := Option.ne_none_iff_exists'.1 (hmore y (h.depends_iff.2 hy) (by simp [hs]))
  have hmem := mem_filterMap_bind.2 ⟨y, hy, hs'⟩
  rw [hnone] at hmem
  cases hmem

theorem PassesOn.waits {x : OperandId} {ys : List (Option OperandId)} (h : a.PassesOn x ys) :
    ∀ op ∈ a.graph.producers x, ¬Hasty a.Open op := by
  obtain ⟨op, hp, hop⟩ := h
  rw [hp, List.forall_mem_singleton]
  rintro (⟨haction, -, -⟩ | ⟨hy⟩)
  · simp [passedOn?, haction] at hop
  · cases hop

/-- A merge that guesses passes values on. -/
theorem passesOn_of_guess {x : OperandId} {op : Op} {known : OperandId → Option Ty} {t : Ty}
    (hp : a.graph.producers x = [op]) (hphi : op.action = .phi)
    (h : (a.inquiry x).outcome known = .guess t) : ∃ ys, a.PassesOn x ys := by
  rw [outcome_inquiry_of_producer hp, rule_phi hphi] at h
  cases hslot : op.slot? .vars with
  | none =>
    simp only [merge, operandsIn, hslot] at h
    cases h
  | some arg =>
    cases arg with
    | one x =>
      cases x <;>
      · simp only [merge, operandsIn, hslot] at h
        cases h
    | many ys => exact ⟨ys, op, hp, by simp [passedOn?, hphi, hslot]⟩

/-- The only operation that writes `x` is arithmetic on `l` and `r`. -/
def Computes (a : Analysis) (x l r : OperandId) : Prop :=
  ∃ op, a.graph.producers x = [op] ∧ op.action ∈ [.plus, .minus, .times, .divide] ∧
    op.slot? .left = some (.one (some l)) ∧ op.slot? .right = some (.one (some r))

theorem rule_arithmetic {op : Op} {l r : OperandId}
    (ha : op.action ∈ [.plus, .minus, .times, .divide])
    (hl : op.slot? .left = some (.one (some l))) (hr : op.slot? .right = some (.one (some r))) :
    a.rule op = known? (some l) >>= fun left => known? (some r) >>= fun right =>
      ofOption left >>= fun t => ofOption right >>= fun u => pure [arithmetic t u] := by
  simp only [List.mem_cons, List.not_mem_nil, or_false] at ha
  have htypes : a.rule op = typesIn op .left .right >>= fun p => pure [arithmetic p.1 p.2] := by
    rcases ha with ha | ha | ha | ha <;>
    · simp only [rule, ha]
  simp only [htypes, typesIn, typeIn?, operandIn, hl, hr, bind_assoc, answer_bind]
  rfl

theorem Computes.outcome {x l r : OperandId} (h : a.Computes x l r)
    (known : OperandId → Option Ty) :
    (a.inquiry x).outcome known = match known l, known r with
      | some t, some u => .answer (arithmetic t u)
      | _, _ => .wait := by
  obtain ⟨op, hp, ha, hl, hr⟩ := h
  rw [outcome_inquiry_of_producer hp, rule_arithmetic ha hl hr]
  simp only [outcome_bind, outcome_known?, Option.bind_some]
  cases known l <;> cases known r <;> rfl

theorem Computes.depends_iff {x l r y : OperandId} (h : a.Computes x l r) :
    a.Depends x y ↔ y = l ∨ y = r := by
  obtain ⟨op, hp, ha, hl, hr⟩ := h
  have hasked (known : OperandId → Option Ty) : (a.rule op).asked known = [l, r] := by
    rw [rule_arithmetic ha hl hr]
    simp only [asked_bind, outcome_known?, Option.bind_some]
    cases known l <;> cases known r <;> rfl
  simp [Depends, asked_inquiry_of_producer hp, hasked]

theorem Computes.prompt {x l r : OperandId} (h : a.Computes x l r) : a.Prompt x := by
  intro known known' hmore htype
  rw [h.outcome] at htype ⊢
  cases hkl : known l with
  | none => simp [hkl, Outcome.type?] at htype
  | some t =>
    cases hkr : known r with
    | none => simp [hkl, hkr, Outcome.type?] at htype
    | some u =>
      have hl : known' l ≠ none := hmore l (h.depends_iff.2 (Or.inl rfl)) (by simp [hkl])
      have hr : known' r ≠ none := hmore r (h.depends_iff.2 (Or.inr rfl)) (by simp [hkr])
      obtain ⟨t', ht'⟩ := Option.ne_none_iff_exists'.1 hl
      obtain ⟨u', hu'⟩ := Option.ne_none_iff_exists'.1 hr
      simp [ht', hu']

end TypeRecovery.Analysis
