import TypeRecovery.Proofs.Derivation
import TypeRecovery.Proofs.MergeFree
import TypeRecovery.Proofs.Persistence

/-!
# The least typing

When all operations are patient, recovery computes the least solution of the rules. An operand gets a
type exactly if there is a derivation: the operand comes with the type, or all operations that write
it answer from types that have derivations, and the type is the join of the answers. Nothing is ever
guessed, so every round but the last one settles an operand, and as many rounds as there are operands
are enough. A derivation knows nothing of rounds, so neither the order in which operands are tried
nor the bound on the rounds makes a difference. Nor does it make one whether a derivation may leave
operands of the program out.
-/
namespace TypeRecovery

theorem Inquiry.forall₂_of_outcome_mapM {α γ : Type} {known : OperandId → Option Ty}
    {f : γ → Inquiry α} {xs : List γ} {bs : List α} (h : (xs.mapM f).outcome known = .answer bs) :
    List.Forall₂ (fun x b => (f x).outcome known = .answer b) xs bs := by
  induction xs generalizing bs with
  | nil =>
    rw [List.mapM_nil] at h
    obtain rfl := Outcome.answer.inj h
    exact .nil
  | cons x xs ih =>
    simp only [List.mapM_cons, outcome_bind] at h
    cases hx : (f x).outcome known with
    | answer b =>
      cases hxs : (xs.mapM f).outcome known with
      | answer bs' =>
        simp only [hx, hxs] at h
        obtain rfl := Outcome.answer.inj h
        exact .cons hx (ih hxs)
      | _ => simp [hx, hxs] at h
    | _ => simp [hx] at h

namespace Analysis

open Inquiry

variable {a : Analysis} {known more : OperandId → Option Ty} {x : OperandId} {t u : Ty}

/-- A type of `x` when the types of others are as `known` tells: the operand comes with it, or it is
the join of what all operations that write the operand answer. -/
inductive Gives (a : Analysis) (known : OperandId → Option Ty) (x : OperandId) : Ty → Prop
  | seeded {t : Ty} (hx : x ∈ a.operands) (h : a.start? x = some t) : Gives a known x t
  | rules {tss : List (List Ty)} (hx : a.Open x)
      (hanswers : List.Forall₂ (fun op ts => (a.rule op).outcome known = .answer ts)
        (a.graph.producers x) tss)
      (hne : tss.flatten ≠ []) : Gives a known x (Ty.lubAll tss.flatten)

/-- The operand has a derivation of the type, from types of other operands that have derivations. There
are finitely many operands, so derivations are finite. -/
inductive Deduced (a : Analysis) : OperandId → Ty → Prop
  | intro {known : OperandId → Option Ty} {x : OperandId} {t : Ty}
      (hknown : ∀ y s, known y = some s → Deduced a y s) (h : a.Gives known x t) : Deduced a x t

/-- All operations that write operands of the program are patient. -/
def AllPatient (a : Analysis) : Prop := ∀ x ∈ a.operands, ∀ op ∈ a.graph.producers x, a.Patient op

theorem AllPatient.mergeFree (hp : a.AllPatient) : a.MergeFree :=
  fun x hx op hop => (hp x hx op hop).merge

/-- What all operations answer together is what the rules for the operand come to. -/
theorem gives_iff : a.Gives known x t ↔ x ∈ a.operands ∧ a.start? x = some t ∨
    a.Open x ∧ (a.inquiry x).outcome known = .answer t := by
  constructor
  · intro h
    cases h with
    | seeded hx h => exact Or.inl ⟨hx, h⟩
    | rules hx hanswers hne => exact Or.inr ⟨hx, outcome_inquiry hanswers hne⟩
  · rintro (⟨hx, h⟩ | ⟨hx, h⟩)
    · exact .seeded hx h
    simp only [inquiry, outcome_bind] at h
    cases hrules : ((a.graph.producers x).mapM fun op =>
        (a.rule op).mapFault (blame op)).outcome known with
    | answer tss =>
      simp only [hrules, types] at h
      by_cases hne : tss.flatten.isEmpty = true
      · simp [hne, outcome] at h
      · rw [if_neg hne] at h
        obtain rfl : Ty.lubAll tss.flatten = t := Outcome.answer.inj h
        refine .rules hx ?_ (mt List.isEmpty_iff.2 hne)
        apply (forall₂_of_outcome_mapM hrules).imp
        intro op ts hop
        rw [outcome_mapFault] at hop
        cases ho : (a.rule op).outcome known <;> simp [ho] at hop
        rw [hop]
    | _ => simp [hrules] at h

theorem Gives.outcome (h : a.Gives known x t) (hx : a.Open x) :
    (a.inquiry x).outcome known = .answer t := by
  rcases gives_iff.1 h with ⟨-, hs⟩ | ⟨-, ho⟩
  · simp [hx.start] at hs
  · exact ho

theorem Gives.unique (h : a.Gives known x t) (h' : a.Gives known x u) : t = u := by
  rcases gives_iff.1 h with ⟨-, hs⟩ | ⟨hx, ho⟩
  · rcases gives_iff.1 h' with ⟨-, hs'⟩ | ⟨hx, -⟩
    · exact Option.some.inj (hs.symm.trans hs')
    · simp [hx.start] at hs
  · exact Outcome.answer.inj (ho.symm.trans (h'.outcome hx))

theorem Deduced.start (hx : x ∈ a.operands) (h : a.start? x = some t) : a.Deduced x t :=
  @Deduced.intro a (fun _ => none) x t (by simp) (.seeded hx h)

/-- A derivation in which no operand of the program is missing is a derivation. -/
theorem Derived.deduced (h : a.Derived x t) : a.Deduced x t := by
  induction h with
  | start hx hs => exact .start hx hs
  | @rule x t known hx h _ _ ih =>
    -- of what is known, only what the rules ask about has been derived
    let heard (y : OperandId) := if y ∈ (a.inquiry x).asked known then known y else none
    have hsame : (a.inquiry x).outcome known = (a.inquiry x).outcome heard :=
      outcome_congr fun y hy => (if_pos hy).symm
    refine @Deduced.intro a heard x t ?_ (gives_iff.2 (Or.inr ⟨hx, hsame ▸ h⟩))
    intro y s hs
    by_cases hy : y ∈ (a.inquiry x).asked known
    · exact ih y hy s ((if_pos hy).symm.trans hs)
    · exact absurd ((if_neg hy).symm.trans hs) (by simp)

section Patience

variable (hp : a.AllPatient)

include hp

/-- What is given stays given when more becomes known. -/
theorem Gives.retain (h : a.Gives known x t) (hmore : Retains known more) : a.Gives more x t := by
  rw [gives_iff] at h ⊢
  rcases h with hs | ⟨hx, ho⟩
  · exact Or.inl hs
  · rcases persists_inquiry (hp x hx.mem) known more hmore with hwait | hsame
    · rw [ho] at hwait
      cases hwait
    · exact Or.inr ⟨hx, hsame.trans ho⟩

/-- Patient rules keep the answer when they hear the types that operands come with, and then no
operand of the program is missing. -/
theorem Deduced.derived (h : a.Deduced x t) : a.Derived x t := by
  induction h with
  | @intro known x t _ hgives ih =>
    rcases gives_iff.1 hgives with ⟨hx, hs⟩ | ⟨hx, -⟩
    · exact .start hx hs
    let more (y : OperandId) := (known y).or (if y ∈ a.operands then a.start? y else none)
    have hmore : Retains known more := fun y s hs => by simp only [more, hs, Option.some_or]
    have hanswer := (hgives.retain hp hmore).outcome hx
    refine .rule hx hanswer ?_ ?_
    · intro y _ s hs
      rcases Option.or_eq_some_iff.1 hs with hs | ⟨-, hs⟩
      · exact ih y s hs
      · obtain ⟨hy, hs⟩ := Option.ite_none_right_eq_some.1 hs
        exact .start hy hs
    · intro y hy hnone hmem
      have hstart := (Option.or_eq_none_iff.1 hnone).2
      rw [if_pos hmem] at hstart
      have hheeds := heeds_inquiry fun op hop => (hp x hx.mem op hop).not_hasty
      exact hheeds.answers more t hanswer y hy ⟨hmem, hstart⟩ hnone

theorem deduced_iff_derived : a.Deduced x t ↔ a.Derived x t :=
  ⟨Deduced.derived hp, Derived.deduced⟩

theorem Meets.known?_eq_some_iff {f : Findings} (hf : a.Meets f) :
    f.known? x = some t ↔ f.about x = .settled t := by
  rw [Findings.known?]
  cases hx : f.about x with
  | guess u => exact absurd hx (hf.ne_guess hp.mergeFree x u)
  | _ => simp [Finding.known?]

theorem Meets.settled?_eq {f : Findings} (hf : a.Meets f) : f.settled? = f.known? := by
  ext x
  rw [Findings.settled?, Findings.known?]
  cases hx : f.about x with
  | guess u => exact absurd hx (hf.ne_guess hp.mergeFree x u)
  | _ => rfl

/-- The rules that gave a type give it from all that is known later. -/
theorem Meets.gives {f : Findings} (hf : a.Meets f) (h : f.known? x = some t) :
    a.Gives f.known? x t := by
  induction hf generalizing x t with
  | seed hs =>
    obtain ⟨hx, ht⟩ :=
      (seeded_of_seed hs).start?_of_settled (((Meets.seed hs).known?_eq_some_iff hp).1 h)
    exact .seeded hx ht
  | @attempt f g z _ hf hk hz hg ih =>
    have hspec := attempt_spec hg hz
    have hmore : Retains f.known? g.known? := by
      intro y s hy
      rw [(Meets.attempt hf hk hz hg).known?_eq_some_iff hp]
      exact hspec.settled hz ((hf.known?_eq_some_iff hp).1 hy)
    apply Gives.retain hp ?_ hmore
    by_cases hxz : x = z
    · subst hxz
      have hattempted := hspec.attempted
      rw [((Meets.attempt hf hk hz hg).known?_eq_some_iff hp).1 h] at hattempted
      have hopen : a.Open x := ⟨(hf.mem_keys x).1 hk, hf.start?_of_pending hk hz⟩
      exact gives_iff.2 (Or.inr ⟨hopen, (answeredBy_of_attempted hattempted hz).1⟩)
    · rw [Findings.known?, hspec.others x hxz] at h
      exact ih h
  | count _ ih => exact ih h

theorem Meets.deduced {f : Findings} (hf : a.Meets f) (h : f.known? x = some t) :
    a.Deduced x t := by
  apply hf.known_induction (P := a.Deduced) ?_ ?_ h
  · exact fun x t hx hs => .start hx hs
  · intro f _ x t _ _ hx _ ih htype
    refine .intro ih (gives_iff.2 (Or.inr ⟨hx, ?_⟩))
    cases ho : (a.inquiry x).outcome f.known? with
    | answer u =>
      rw [ho] at htype
      rw [Option.some.inj htype]
    | guess u =>
      exact absurd ho (outcome_inquiry_ne_guess (fun op hop => (hp x hx.mem op hop).merge) _ u)
    | _ => simp [ho, Outcome.type?] at htype

end Patience

/-- Nothing more can be settled: the rules for all operands that are left wait. -/
structure AtRest (a : Analysis) (f : Findings) : Prop where
  meets : a.Meets f
  waits : ∀ x ∈ a.operands, (f.about x).isSettled = false → (a.inquiry x).outcome f.known? = .wait

section Patience

variable (hp : a.AllPatient)

include hp

theorem Ends.atRest {g : Findings} (h : a.Ends g) : a.AtRest g := by
  refine ⟨h.meets, ?_⟩
  intro x hx hpending
  obtain ⟨f, hf, hsame, hattempted⟩ := h.attempted hx hpending
  have hknown : f.known? = g.known? := by
    ext y
    have hy := hsame y
    rw [Findings.known?, Findings.known?]
    generalize hfy : f.about y = v at hy
    generalize g.about y = w at hy
    cases hy with
    | guess _ => exact absurd hfy (hf.ne_guess hp.mergeFree y _)
    | _ => rfl
  have hnothing := h.meets.about_of_not_settled hp.mergeFree hpending
  rw [hnothing, Attempted, hknown] at hattempted
  cases ho : (a.inquiry x).outcome g.known? with
  | wait => rfl
  | answer u =>
    rw [ho] at hattempted
    simp only at hattempted
    split at hattempted <;> cases hattempted
  | guess u => simp [ho] at hattempted
  | fault e => simp [ho] at hattempted

theorem AtRest.known?_of_gives {g : Findings} (h : a.AtRest g) (hx : a.Gives g.known? x t) :
    g.known? x = some t := by
  cases hgx : g.about x with
  | settled u =>
    have hu := (h.meets.known?_eq_some_iff hp).2 hgx
    rw [hu, (h.meets.gives hp hu).unique hx]
  | guess u => exact absurd hgx (h.meets.ne_guess hp.mergeFree x u)
  | nothing =>
    rcases gives_iff.1 hx with ⟨hmem, hs⟩ | ⟨hopen, ho⟩
    · rw [h.meets.about_of_start hmem hs] at hgx
      cases hgx
    · have hwait := h.waits x hopen.mem (by rw [hgx]; rfl)
      rw [ho] at hwait
      cases hwait

theorem AtRest.gives_iff {g : Findings} (h : a.AtRest g) :
    g.known? x = some t ↔ a.Gives g.known? x t :=
  ⟨h.meets.gives hp, h.known?_of_gives hp⟩

/-- At rest, the types that are known are those that have a derivation. -/
theorem AtRest.deduced_iff {g : Findings} (h : a.AtRest g) :
    g.known? x = some t ↔ a.Deduced x t := by
  refine ⟨h.meets.deduced hp, ?_⟩
  intro hx
  induction hx with
  | intro _ hgives ih => exact h.known?_of_gives hp (hgives.retain hp ih)

/-- What has a derivation belongs to every typing that is closed under the rules. -/
theorem Deduced.le {σ : OperandId → Option Ty} (hσ : ∀ x t, a.Gives σ x t → σ x = some t)
    (h : a.Deduced x t) : σ x = some t := by
  induction h with
  | intro _ hgives ih => exact hσ _ _ (hgives.retain hp ih)

/-- With enough rounds a run comes to rest. -/
theorem atRest_of_run {r : Recovery} (hr : Recovery.run a = .ok r)
    (hm : a.operands.length ≤ a.settings.maxRounds) :
    r.converged = true ∧ ∃ g, a.AtRest g ∧ r.findings.settled? = g.known? ∧
      ∀ x, r.typeOf x = (g.known? x).getD .unknown := by
  obtain ⟨f₀, hs, hsolve⟩ := solve_of_run hr
  have hpending := pending_le_operands hs
  have hconverged := converged_of_solve hp.mergeFree hs (.seed hs) (by omega) hsolve
  obtain ⟨g, hg, hfindings⟩ := ends_of_solve (.seed hs) hsolve hconverged
  have hsettled : r.findings.settled? = g.known? := by
    rw [← hg.meets.settled?_eq hp]
    ext x
    rw [Findings.settled?, Findings.settled?, hfindings]
    cases hx : g.about x with
    | guess u => exact absurd hx (hg.meets.ne_guess hp.mergeFree x u)
    | _ => rfl
  refine ⟨hconverged, g, hg.atRest hp, hsettled, ?_⟩
  intro x
  rw [Recovery.typeOf, analysis_of_run hr]
  split
  · rw [Findings.final, hsettled]
  · rename_i hx
    rw [Findings.known?, hg.meets.about_of_not_mem hx]
    rfl

/-- Rules do not fail at rest, not even those for operands that are settled. -/
theorem AtRest.outcome_ne_fault {g : Findings} (h : a.AtRest g) (hx : a.Open x) (e : Fault) :
    (a.inquiry x).outcome g.known? ≠ .fault e := by
  cases hgx : g.about x with
  | settled u =>
    have hgives := h.meets.gives hp ((h.meets.known?_eq_some_iff hp).2 hgx)
    simp [hgives.outcome hx]
  | _ => simp [h.waits x hx.mem (by rw [hgx]; rfl)]

end Patience

section Scheduled

variable {xs : List OperandId} {m : Nat} (hxs : xs.Perm a.operands)

include hxs

theorem gives_scheduled : (a.scheduled xs m).Gives known x t ↔ a.Gives known x t := by
  constructor
  · intro h
    cases h with
    | seeded hx h => exact .seeded (hxs.mem_iff.1 hx) h
    | rules hx hanswers hne =>
      simp only [rule_scheduled] at hanswers
      exact .rules ⟨hxs.mem_iff.1 hx.mem, hx.start⟩ hanswers hne
  · intro h
    cases h with
    | seeded hx h => exact .seeded (hxs.mem_iff.2 hx) h
    | rules hx hanswers hne =>
      refine .rules ⟨hxs.mem_iff.2 hx.mem, hx.start⟩ ?_ hne
      simp only [rule_scheduled]
      exact hanswers

theorem deduced_scheduled : (a.scheduled xs m).Deduced x t ↔ a.Deduced x t := by
  constructor
  · intro h
    induction h with
    | intro _ h ih => exact .intro ih ((gives_scheduled hxs).1 h)
  · intro h
    induction h with
    | intro _ h ih => exact .intro ih ((gives_scheduled hxs).2 h)

theorem AllPatient.scheduled (hp : a.AllPatient) : (a.scheduled xs m).AllPatient := by
  intro x hx op hop
  have hpatient := hp x (hxs.mem_iff.1 hx) op hop
  exact ⟨hpatient.merge, hpatient.negation, hpatient.newObject⟩

/-- A rule that fails in some order would fail at rest in every other. -/
theorem AtRest.failsafe_scheduled (hp : a.AllPatient) {g : Findings} (hg : a.AtRest g) :
    (a.scheduled xs m).Failsafe := by
  intro f x e hf hx he
  rw [inquiry_scheduled] at he
  have hopen : a.Open x := ⟨hxs.mem_iff.1 hx.mem, hx.start⟩
  have hmore : Retains f.known? g.known? := by
    intro y s hy
    rw [hg.deduced_iff hp, ← deduced_scheduled hxs]
    exact hf.deduced (hp.scheduled hxs) hy
  rcases persists_inquiry (hp x hopen.mem) _ _ hmore with hwait | hsame
  · rw [he] at hwait
    cases hwait
  · exact hg.outcome_ne_fault hp hopen e (hsame.trans he)

end Scheduled

/-- With patient operations and a round for each operand, a run that does not fail gives the least
solution of the rules. An operand gets a type exactly if it has a derivation; the types are given by
the rules from themselves, and belong to every other typing that is closed under the rules. Any other
order of the operands, with any bound that is large enough, gives the same types. -/
theorem run_least_typing (hp : a.AllPatient) {r : Recovery} (hr : Recovery.run a = .ok r)
    (hm : a.operands.length ≤ a.settings.maxRounds) :
    r.converged = true ∧
      (∀ x, r.typeOf x = (r.findings.settled? x).getD .unknown) ∧
      (∀ x t, r.findings.settled? x = some t ↔ a.Deduced x t) ∧
      (∀ x t, r.findings.settled? x = some t ↔ a.Gives r.findings.settled? x t) ∧
      (∀ σ, (∀ x t, a.Gives σ x t → σ x = some t) → Retains r.findings.settled? σ) ∧
      ∀ xs m, xs.Perm a.operands → a.operands.length ≤ m →
        ∃ r', Recovery.run (a.scheduled xs m) = .ok r' ∧ ∀ x, r'.typeOf x = r.typeOf x := by
  obtain ⟨hconverged, g, hg, hsettled, htype⟩ := atRest_of_run hp hr hm
  rw [hsettled]
  refine ⟨hconverged, htype, fun x t => hg.deduced_iff hp, fun x t => hg.gives_iff hp, ?_, ?_⟩
  · intro σ hσ x t hx
    exact ((hg.deduced_iff hp).1 hx).le hp hσ
  · intro xs m hxs hlength
    obtain ⟨f₀, hs, -⟩ := solve_of_run hr
    obtain ⟨f₁, hs'⟩ := exists_seeding hs fun y => hxs.mem_iff.1
    obtain ⟨r', hr'⟩ := (hg.failsafe_scheduled (m := m) hxs hp).exists_run hs'
    have hbound : (a.scheduled xs m).operands.length ≤ m := by
      rw [← hxs.length_eq] at hlength
      exact hlength
    obtain ⟨-, g', hg', -, htype'⟩ := atRest_of_run (hp.scheduled hxs) hr' hbound
    refine ⟨r', hr', ?_⟩
    intro x
    have hsame : g'.known? x = g.known? x := by
      ext t
      rw [hg'.deduced_iff (hp.scheduled hxs), deduced_scheduled hxs, hg.deduced_iff hp]
    rw [htype, htype', hsame]

/-- A chain and a ring of assignments. The operands in order: an integer, a copy of it, the sum of
both, two operands that are assigned to each other, one that is written by the sum and by a cast, a
new object and the name of its class. The chain is tried from its end, so each round settles one of
its links. -/
def ringOps : List Op :=
  [.plain { result := some ⟨1⟩ } .assign [(.expr, .one (some ⟨0⟩))],
   .plain { result := some ⟨2⟩ } .plus [(.left, .one (some ⟨1⟩)), (.right, .one (some ⟨0⟩))],
   .plain { result := some ⟨3⟩ } .assign [(.expr, .one (some ⟨4⟩))],
   .plain { result := some ⟨4⟩ } .assign [(.expr, .one (some ⟨3⟩))],
   .plain { result := some ⟨5⟩ } .assign [(.expr, .one (some ⟨2⟩))],
   .plain { result := some ⟨5⟩ } .castString [(.expr, .one (some ⟨0⟩))],
   .plain { result := some ⟨6⟩ } .newObject [(.cls, .one (some ⟨7⟩))]]

def ringAnalysis : Analysis :=
  blockAnalysis #[⟨.literal (.int 1), .unknown⟩, ⟨.temporary, .unknown⟩, ⟨.temporary, .unknown⟩,
      ⟨.temporary, .unknown⟩, ⟨.temporary, .unknown⟩, ⟨.temporary, .unknown⟩,
      ⟨.temporary, .unknown⟩, ⟨.literal (.text "A"), .unknown⟩] ringOps
    [⟨5⟩, ⟨2⟩, ⟨1⟩, ⟨0⟩, ⟨4⟩, ⟨3⟩, ⟨6⟩, ⟨7⟩]

def ringFindings (one two five six : Finding) : Findings :=
  { table := ⟨[(⟨5⟩, five), (⟨2⟩, two), (⟨1⟩, one), (⟨0⟩, .settled .int), (⟨4⟩, .nothing),
      (⟨3⟩, .nothing), (⟨6⟩, six), (⟨7⟩, .settled .string)]⟩ }

def ringType : Ty := .compound .union .int .string []

def ringEnd : Findings :=
  ringFindings (.settled .int) (.settled .int) (.settled ringType) (.settled (.named "A"))

theorem ring_run : Recovery.run ringAnalysis = .ok ⟨ringAnalysis, ringEnd.promote, 4, true⟩ := by
  have h₀ : ringAnalysis.Reaches 0 (ringFindings .nothing .nothing .nothing .nothing) := .seed rfl
  have h₁ : ringAnalysis.Reaches 1
      (ringFindings (.settled .int) .nothing .nothing (.settled (.named "A"))) :=
    .round h₀ (by decide) rfl (by decide)
  have h₂ : ringAnalysis.Reaches 2
      (ringFindings (.settled .int) (.settled .int) .nothing (.settled (.named "A"))) :=
    .round h₁ (by decide) rfl (by decide)
  have h₃ : ringAnalysis.Reaches 3 ringEnd := .round h₂ (by decide) rfl (by decide)
  exact run_of_stalls h₃ (g := ringEnd) ⟨by decide, rfl, rfl⟩ (by decide)

theorem ring_allPatient : ringAnalysis.AllPatient := by
  intro x _ op hop
  have hop : op ∈ ringOps := List.mem_of_mem_filter hop
  have hactions : ∀ op ∈ ringOps, op.action ≠ .phi ∧ op.action ≠ .assertion := by decide
  obtain ⟨hphi, hassertion⟩ := hactions op hop
  refine ⟨hphi, ?_, ?_⟩
  · rintro head subject first rest rfl
    exact hassertion rfl
  · intro hnew y hy
    have hslot : ∀ op ∈ ringOps, op.action = .newObject →
        op.slot? .cls = some (.one (some ⟨7⟩)) := by
      simp [ringOps, Op.action, Op.slot?]
    rw [hslot op hop hnew] at hy
    cases hy
    exact Or.inl ⟨"A", rfl⟩

/-- The operand with two writers has the join of their types, the ring has no derivation, and the
order from front to back gives the same. -/
theorem run_least_typing_ring :
    ringAnalysis.AllPatient ∧ ringAnalysis.operands.length ≤ ringAnalysis.settings.maxRounds ∧
      ∃ r, Recovery.run ringAnalysis = .ok r ∧ ringAnalysis.Deduced ⟨5⟩ ringType ∧
        (∀ t, ¬ringAnalysis.Deduced ⟨3⟩ t) ∧
        ∃ r', Recovery.run (ringAnalysis.scheduled ringAnalysis.operands.reverse 8) = .ok r' ∧
          ∀ x, r'.typeOf x = r.typeOf x := by
  have hlength : ringAnalysis.operands.length ≤ ringAnalysis.settings.maxRounds := by decide
  obtain ⟨-, -, hdeduced, -, -, horder⟩ := run_least_typing ring_allPatient ring_run hlength
  refine ⟨ring_allPatient, hlength, _, ring_run, (hdeduced ⟨5⟩ ringType).1 rfl, ?_, ?_⟩
  · intro t ht
    cases (hdeduced ⟨3⟩ t).2 ht
  · exact horder _ 8 (List.reverse_perm _) (by decide)

end Analysis

end TypeRecovery
