import TypeRecovery.Proofs.Endings
import TypeRecovery.Proofs.Traversals

/-!
# A second run

The types that a run finds are written into the program, and a second run starts from them. It finds
each operand as the first run left it: what was settled or guessed at the end is settled now, and the
rest is unknown. The rules of an operand that stayed unknown were waiting in the last round, with
guesses equal to those at the end, and so they wait again. So the second run ends with the types it
started from.
-/
namespace TypeRecovery

namespace Analysis

open Inquiry

variable {a : Analysis}

/-- Some types in which nothing is unknown. -/
def KnownAnswers (ts : List Ty) : Prop := ts ≠ [] ∧ ∀ t ∈ ts, t.Known

theorem knownAnswers_flatten {tss : List (List Ty)} (hne : tss ≠ [])
    (h : ∀ ts ∈ tss, KnownAnswers ts) : KnownAnswers tss.flatten := by
  constructor
  · obtain ⟨ts, hts⟩ := List.exists_mem_of_ne_nil tss hne
    intro hflat
    exact (h ts hts).1 (List.flatten_eq_nil_iff.1 hflat ts hts)
  · intro t ht
    obtain ⟨ts, hts, htt⟩ := List.mem_flatten.1 ht
    exact (h ts hts).2 t htt

section

variable {known known' : OperandId → Option Ty}
  (hk : ∀ x, Option.Rel (Ty.EquivWith Ty.Known) (known x) (known' x))

include hk

/-- The values of class constants may come in different orders, and what is known of them may be
nested, so that their merges differ. Still both sides wait or both answer. -/
theorem alike_classConstant_known (a : Analysis) (op : Op) :
    Alike (fun ts us => KnownAnswers ts ∧ KnownAnswers us) (Ty.EquivWith Ty.Known) known known'
      (a.memberTypes op .cls a.constantTypes) (a.memberTypes op .cls a.constantTypes) := by
  refine alike_memberTypes_order Ty.preserved_known.exchange hk a op .cls
    (alike_constantTypes Ty.preserved_known.exchange hk a) (plain_constantTypes a) ?_
  intro tss vss uss hf hp
  have hrel : List.Forall₂ (Ty.EquivWith Ty.Known) tss.flatten vss.flatten := List.rel_flatten hf
  have hperm := hp.flatten
  have hl : tss.flatten.length = uss.flatten.length := hrel.length_eq.trans hperm.length_eq
  obtain ⟨ht, hv⟩ := Ty.forall_of_forall₂ (fun _ _ h => h.2) hrel
  have hu : ∀ u ∈ uss.flatten, u.Known := fun u hu => hv u (hperm.symm.subset hu)
  generalize tss.flatten = ts at hl ht
  generalize uss.flatten = us at hl hu
  cases ts with
  | nil =>
    rw [List.length_nil, eq_comm, List.length_eq_zero_iff] at hl
    rw [hl]
    exact .wait
  | cons t ts =>
    cases us with
    | nil => simp at hl
    | cons u us => exact .answer ⟨⟨by simp, ht⟩, by simp, hu⟩

theorem alike_rule_known (a : Analysis) (op : Op) :
    Alike (fun ts us => KnownAnswers ts ∧ KnownAnswers us) (Ty.EquivWith Ty.Known) known known'
      (a.rule op) (a.rule op) := by
  by_cases hconst : op.action = .classConstFetch
  · simp only [rule, hconst]
    exact alike_classConstant_known hk a op
  · have halike := alike_rule (G := Ty.EquivWith Ty.Known) Ty.preserved_known.exchange hk a op
      (fun _ _ _ h => h) fun h => absurd h hconst
    apply halike.mono
    intro ts us h
    obtain ⟨ht, hu⟩ := Ty.preserved_known.of_answers h
    exact ⟨⟨h.ne_nil, ht⟩, h.right_ne_nil, hu⟩

/-- Where equal types are known of all operands and nothing in them is unknown, the rules wait on
both sides or on none, and nothing in the types that they come to is unknown. -/
theorem alike_inquiry_known (a : Analysis) (x : OperandId) :
    Alike (fun t u => t.Known ∧ u.Known) (Ty.EquivWith Ty.Known) known known'
      (a.inquiry x) (a.inquiry x) := by
  have hrules := alike_mapM_self (a.graph.producers x) fun op _ =>
    (alike_rule_known hk a op).mapFault (blame op)
  apply hrules.bind
  intro tss uss h
  obtain ⟨ht, hu⟩ := Ty.forall_of_forall₂ (fun _ _ h => h) h
  cases h with
  | nil => exact .wait
  | cons =>
    have ht := knownAnswers_flatten (by simp) ht
    have hu := knownAnswers_flatten (by simp) hu
    unfold types
    rw [if_neg (by simpa using ht.1), if_neg (by simpa using hu.1)]
    exact .answer ⟨Ty.known_lubAll ht.1 ht.2, Ty.known_lubAll hu.1 hu.2⟩

theorem outcome_inquiry_wait (x : OperandId) (h : (a.inquiry x).outcome known = .wait) :
    (a.inquiry x).outcome known' = .wait := by
  have halike := alike_inquiry_known hk a x
  unfold Alike at halike
  rw [h] at halike
  generalize (a.inquiry x).outcome known' = o at halike ⊢
  cases halike
  rfl

end

/-- In the types that come with operands, nothing is unknown. -/
def PresetsKnown (a : Analysis) : Prop :=
  ∀ x ∈ a.operands, (a.graph.operand x).type.isUnknown = false → (a.graph.operand x).type.Known

/-- All types that are known are known through and through. -/
def AllKnown (f : Findings) : Prop := ∀ x t, f.known? x = some t → t.Known

theorem rel_of_allKnown {f g : Findings} (hf : AllKnown f) (hg : AllKnown g)
    (h : ∀ x, Finding.Same (f.about x) (g.about x)) (x : OperandId) :
    Option.Rel (Ty.EquivWith Ty.Known) (f.known? x) (g.known? x) := by
  have hx := (h x).known?
  have hfx := hf x
  have hgx := hg x
  rw [Findings.known?] at hfx hgx ⊢
  rw [Findings.known?]
  generalize (f.about x).known? = o at *
  generalize (g.about x).known? = o' at *
  cases hx with
  | some htu => exact .some ⟨htu, hfx _ rfl, hgx _ rfl⟩
  | none => exact .none

theorem known_of_type? {f : Findings} (hf : AllKnown f) {x : OperandId} {t : Ty}
    (h : ((a.inquiry x).outcome f.known?).type? = some t) : t.Known := by
  have halike := alike_inquiry_known (rel_of_allKnown hf hf fun _ => .refl _) a x
  unfold Alike at halike
  generalize (a.inquiry x).outcome f.known? = o at halike h
  cases halike with
  | answer hu => exact Option.some.inj h ▸ hu.1
  | guess hu => exact Option.some.inj h ▸ hu.2.1
  | wait => cases h
  | fault => cases h

theorem Meets.allKnown (hp : a.PresetsKnown) {f : Findings} (hf : a.Meets f) : AllKnown f := by
  intro x t h
  refine Meets.known_induction (P := fun _ t => t.Known) ?_ ?_ hf h
  · intro x t hx hs
    rcases start?_cases hs with ⟨rfl, hu⟩ | hc
    · exact hp x hx hu
    · exact hc.known
  · intro f g x t _ _ _ _ hf ht
    exact known_of_type? hf ht

end Analysis

namespace Graph

/-- All operands that the program uses are there. -/
def Complete (g : Graph) : Prop := ∀ x ∈ g.usedOperands, x.index < g.operands.size

theorem operand_setType (g : Graph) (x y : OperandId) (t : Ty) :
    (g.setType x t).operand y =
      if x = y ∧ y.index < g.operands.size then { g.operand y with type := t }
      else g.operand y := by
  obtain ⟨i⟩ := x
  obtain ⟨j⟩ := y
  simp only [operand, setType, Array.getElem?_modify, OperandId.mk.injEq]
  by_cases hij : i = j
  · subst hij
    by_cases hi : i < g.operands.size <;> simp [hi]
  · simp [hij]

theorem retyped_setType (g : Graph) (x : OperandId) (t : Ty) : g.Retyped (g.setType x t) := by
  refine ⟨rfl, rfl, rfl, fun y => ?_⟩
  rw [operand_setType]
  split <;> rfl

theorem retyped_foldl (g : Graph) (types : List (OperandId × Ty)) :
    g.Retyped (types.foldl (fun g (x, t) => g.setType x t) g) := by
  induction types generalizing g with
  | nil => exact .refl g
  | cons e types ih => exact (retyped_setType g e.1 e.2).trans (ih _)

theorem Retyped.reshaped {g g' : Graph} (h : g.Retyped g') : Reshaped id g g' where
  func? _ := rfl
  body op := (List.map_id op.body).symm
  ops f := by simp [func?, h.funcs]
  scripts := h.scripts

theorem Retyped.visited_eq {g g' : Graph} (h : g.Retyped g') : g'.visited = g.visited := by
  rw [h.reshaped.visited, List.map_id]

theorem Retyped.usedOperands_eq {g g' : Graph} (h : g.Retyped g') :
    g'.usedOperands = g.usedOperands :=
  h.reshaped.usedOperands (fun _ => rfl) fun _ => rfl

theorem Retyped.build_eq {g g' : Graph} (h : g.Retyped g') (ops : List Op) :
    Index.build g' ops = Index.build g ops := by
  have hroutine : g'.routine = g.routine := by
    funext head f
    simp only [Graph.routine, func, func?, h.funcs]
  have hmethods : g'.methods = g.methods := by
    funext body
    simp only [Graph.methods, hroutine]
  have hclass : Index.classLikeOf g' = Index.classLikeOf g := by
    funext op
    simp only [Index.classLikeOf, hmethods]
  have hfunction : Index.functionOf g' = Index.functionOf g := by
    funext op
    simp only [Index.functionOf, hroutine]
  simp only [Index.build, hclass, hfunction]

end Graph

/-- The types that are written are found again. -/
theorem Recovery.type_graph (r : Recovery) {x : OperandId} (hx : x ∈ r.analysis.operands)
    (hsize : x.index < r.analysis.graph.operands.size) :
    (r.graph.operand x).type = r.typeOf x := by
  have hfold (xs : List OperandId) (g : Graph) (hg : x.index < g.operands.size)
      (hx : x ∈ xs ∨ (g.operand x).type = r.findings.final x) :
      (((xs.map fun x => (x, r.findings.final x)).foldl (fun g (x, t) => g.setType x t)
        g).operand x).type = r.findings.final x := by
    induction xs generalizing g with
    | nil => simpa using hx
    | cons y xs ih =>
      refine ih (g.setType y (r.findings.final y)) (by simpa [Graph.setType] using hg) ?_
      by_cases hyx : y = x
      · right
        rw [Graph.operand_setType, if_pos ⟨hyx, hg⟩, hyx]
      · rw [Graph.operand_setType, if_neg (fun h => hyx h.1)]
        exact hx.imp_left fun h => (List.mem_cons.1 h).resolve_left (Ne.symm hyx)
  rw [Recovery.typeOf, if_pos hx]
  exact hfold r.analysis.operands r.analysis.graph hsize (Or.inl hx)

theorem Recovery.types_eq_map (r : Recovery) :
    r.types = r.analysis.operands.map fun x => (x, r.typeOf x) := by
  apply List.map_congr_left
  intro x hx
  rw [typeOf, if_pos hx]

theorem Recovery.retyped_graph (r : Recovery) : r.analysis.graph.Retyped r.graph :=
  Graph.retyped_foldl _ _

namespace Analysis

open Inquiry

variable {a : Analysis}

theorem graph_of {g : Graph} {settings : Settings} {signatures : Signatures}
    (h : Analysis.of g settings signatures = .ok a) :
    a.graph = g ∧ a.operands = g.usedOperands := by
  unfold Analysis.of at h
  cases hi : Index.build g g.visited with
  | error e => simp [hi, bind, Except.bind] at h
  | ok i =>
    simp only [hi, bind, Except.bind, pure, Except.pure, Except.ok.injEq] at h
    rw [← h]
    exact ⟨rfl, rfl⟩

/-- The analysis of the program with other types of its operands. -/
theorem of_retyped {g g' : Graph} {settings : Settings} {signatures : Signatures}
    (h : Analysis.of g settings signatures = .ok a) (hg : g.Retyped g') :
    Analysis.of g' settings signatures = .ok { a with graph := g' } := by
  unfold Analysis.of at h ⊢
  rw [hg.build_eq, hg.visited_eq, hg.usedOperands_eq]
  cases hi : Index.build g g.visited with
  | error e => simp [hi, bind, Except.bind] at h
  | ok i =>
    simp only [hi, bind, Except.bind, pure, Except.pure, Except.ok.injEq] at h ⊢
    rw [← h]

theorem attemptAll_of_wait {f : Findings} {xs : List OperandId}
    (h : ∀ x ∈ xs, (a.inquiry x).outcome f.known? = .wait) : a.attemptAll f xs = .ok (f, 0) := by
  unfold attemptAll
  induction xs with
  | nil => rfl
  | cons x xs ih =>
    have hx : a.attempt f x = .ok (f, false) := by
      simp only [attempt, h x List.mem_cons_self]
    rw [List.foldlM_cons]
    simp only [hx, bind, Except.bind]
    exact ih fun y hy => h y (List.mem_cons_of_mem x hy)

/-- What the rules of an operand came to in the end if it is still unknown: they wait. -/
theorem Ends.wait_of_unknown (hp : a.PresetsKnown) {g : Findings} (h : a.Ends g) {x : OperandId}
    (hx : x ∈ a.operands) (hu : g.known? x = none) :
    (a.inquiry x).outcome g.known? = .wait := by
  have hnothing : g.about x = .nothing := by
    rw [Findings.known?] at hu
    cases hg : g.about x with
    | nothing => rfl
    | guess t => simp [hg, Finding.known?] at hu
    | settled t => simp [hg, Finding.known?] at hu
  obtain ⟨f, hf, hsame, hattempted⟩ := h.attempted hx (by rw [hnothing]; rfl)
  have hwait : (a.inquiry x).outcome f.known? = .wait := by
    by_contra hne
    obtain ⟨t, -, ht⟩ := type?_of_attempted hattempted hne
    rw [hnothing] at ht
    cases ht
  exact outcome_inquiry_wait (rel_of_allKnown (hf.allKnown hp) (h.meets.allKnown hp) hsame) x hwait

section

variable {g : Graph} (hg : a.graph.Retyped g) {x : OperandId}
  (hu : (a.graph.operand x).type.isUnknown = true) (hu' : (g.operand x).type.isUnknown = true)

include hg hu hu'

/-- An operand without a type of its own starts in the same way. -/
theorem start?_retyped : { a with graph := g }.start? x = a.start? x := by
  simp only [start?, hu, hu', hg.objectClass?_eq, hg.literal?_eq, Bool.not_true,
    Bool.false_eq_true, if_false]

theorem seedOne_retyped (f : Findings) : { a with graph := g }.seedOne f x = a.seedOne f x := by
  simp only [seedOne, hu, hu', hg.objectClass?_eq, hg.literal?_eq, Bool.not_true,
    Bool.false_eq_true, if_false]

end

theorem start?_eq_none_of_unknown {f : Findings} (hf : a.Meets f) {x : OperandId}
    (hx : x ∈ a.operands) (hu : f.known? x = none) :
    a.start? x = none ∧ (a.graph.operand x).type.isUnknown = true := by
  have hs : a.start? x = none := by
    cases hs : a.start? x with
    | none => rfl
    | some s =>
      rw [Findings.known?, hf.about_of_start hx hs] at hu
      cases hu
  refine ⟨hs, ?_⟩
  unfold start? at hs
  simp only at hs
  by_contra hne
  rw [if_pos (by simpa using hne)] at hs
  cases hs

/-- The second run finds each operand as the first one left it. -/
theorem seed_again (hp : a.PresetsKnown) {g : Graph} (hg : a.graph.Retyped g) {f₀ f : Findings}
    (hs : a.seed = .ok f₀) (hf : a.Meets f)
    (htypes : ∀ x ∈ a.operands, (g.operand x).type = (f.known? x).getD .unknown) :
    ∃ f', { a with graph := g }.seed = .ok f' ∧
      ∀ x, f'.about x = (f.known? x).elim .nothing .settled := by
  have hstart : ∀ x ∈ a.operands, { a with graph := g }.start? x = f.known? x := by
    intro x hx
    have ht := htypes x hx
    cases hk : f.known? x with
    | some t =>
      rw [hk, Option.getD_some] at ht
      simp [start?, ht, (hf.allKnown hp x t hk).isUnknown_eq]
    | none =>
      rw [hk, Option.getD_none] at ht
      obtain ⟨hnone, hu⟩ := start?_eq_none_of_unknown hf hx hk
      rw [start?_retyped hg hu (by rw [ht]; rfl), hnone]
  have henter : ∀ x ∈ a.operands, ∀ f₁, ∃ f₂, { a with graph := g }.seedOne f₁ x = .ok f₂ := by
    intro x hx f₁
    by_cases hu' : (g.operand x).type.isUnknown = true
    · have hk : f.known? x = none := by
        cases hk : f.known? x with
        | none => rfl
        | some t =>
          rw [htypes x hx, hk, Option.getD_some, (hf.allKnown hp x t hk).isUnknown_eq] at hu'
          cases hu'
      rw [seedOne_retyped hg (start?_eq_none_of_unknown hf hx hk).2 hu']
      exact exists_seedOne_of_mem hs hx f₁
    · exact ⟨_, if_pos (by simpa using hu')⟩
  obtain ⟨f', hf'⟩ := exists_foldlM_seedOne henter .empty
  refine ⟨f', hf', fun x => ?_⟩
  rw [(seeded_of_seed hf').about]
  split
  · rename_i hx
    rw [hstart x hx]
  · rename_i hx
    rw [Findings.known?, hf.about_of_not_mem hx]
    rfl

/-- A run that converged within no rounds at all left nothing open. -/
theorem pos_maxRounds_of_open {r : Recovery} (hr : Recovery.run a = .ok r)
    (hc : r.converged = true) {x : OperandId} (hx : x ∈ a.operands) (hs : a.start? x = none) :
    0 < a.settings.maxRounds := by
  obtain ⟨f₀, hseed, hsolve⟩ := solve_of_run hr
  by_contra hzero
  obtain hm : a.settings.maxRounds = 0 := by omega
  rw [hm, solve] at hsolve
  have hdone : f₀.pending.isEmpty = r.converged :=
    congrArg Ending.converged (Except.ok.inj hsolve)
  have hseeded := seeded_of_seed hseed
  have hmem : x ∈ f₀.pending := by
    rw [Findings.mem_pending (seed_spec hseed).nodup, hseeded.keys, hseeded.about, if_pos hx, hs]
    exact ⟨hx, rfl⟩
  rw [hc, List.isEmpty_iff] at hdone
  rw [hdone] at hmem
  cases hmem

/-- The rounds of the second run: none where nothing is open, and one that settles nothing
otherwise. -/
theorem run_of_wait {f : Findings} (hs : a.seed = .ok f)
    (hwait : ∀ x ∈ f.pending, (a.inquiry x).outcome f.known? = .wait)
    (hm : f.pending ≠ [] → 0 < a.settings.maxRounds) :
    ∃ f' n, Recovery.run a = .ok ⟨a, f', n, true⟩ ∧ n ≤ 1 ∧ ∀ x, f'.about x = f.about x := by
  by_cases hp : f.pending = []
  · exact ⟨f, _, run_of_done (.seed hs) hp (Nat.zero_le _), Nat.zero_le _, fun _ => rfl⟩
  · have hstalls : a.Stalls f f := ⟨hp, attemptAll_of_wait hwait, (seed_spec hs).changes⟩
    refine ⟨_, _, run_of_stalls (.seed hs) hstalls (hm hp), Nat.le_refl _, fun x => ?_⟩
    rw [Findings.about_promote, Findings.about_takeChanges]
    -- nothing is guessed at the start
    rcases (seed_spec hs).about x with hx | ⟨t, hx, -⟩ <;> rw [hx] <;> rfl

/-- A run over the program with the types that a run found in it ends at once, with the same types.
It does not matter whether the program is analysed again. -/
theorem run_graph_of_converged {g : Graph} {settings : Settings} {signatures : Signatures}
    {r : Recovery} (ha : Analysis.of g settings signatures = .ok a) (hg : g.Complete)
    (hp : a.PresetsKnown) (hr : Recovery.run a = .ok r) (hc : r.converged = true) :
    Analysis.of r.graph settings signatures = .ok { a with graph := r.graph } ∧
      ∃ r', Recovery.run { a with graph := r.graph } = .ok r' ∧ r'.converged = true ∧
        r'.rounds ≤ 1 ∧ r'.types = r.types ∧ ∀ x, r'.typeOf x = r.typeOf x := by
  obtain ⟨hgraph, hoperands⟩ := graph_of ha
  have hanalysis := analysis_of_run hr
  have hretyped : a.graph.Retyped r.graph := hanalysis ▸ r.retyped_graph
  refine ⟨of_retyped ha (hgraph ▸ hretyped), ?_⟩
  obtain ⟨f, hends, htype⟩ := ends_of_run hr hc
  obtain ⟨f₀, hs, -⟩ := solve_of_run hr
  have htypes : ∀ x ∈ a.operands, (r.graph.operand x).type = (f.known? x).getD .unknown := by
    intro x hx
    rw [← htype]
    apply r.type_graph
    · rwa [hanalysis]
    · rw [hanalysis, hgraph]
      exact hg x (hoperands ▸ hx)
  obtain ⟨f', hs', habout⟩ := seed_again hp hretyped hs hends.meets htypes
  have hknown (x : OperandId) : f'.known? x = f.known? x := by
    rw [Findings.known?, habout]
    cases f.known? x <;> rfl
  have hunknown : ∀ x ∈ f'.pending, x ∈ a.operands ∧ f.known? x = none := by
    intro x hx
    rw [Findings.mem_pending (seed_spec hs').nodup, (seeded_of_seed hs').keys, habout] at hx
    refine ⟨hx.1, ?_⟩
    cases hk : f.known? x with
    | none => rfl
    | some t => simp [hk, Finding.isSettled] at hx
  have hwait : ∀ x ∈ f'.pending,
      ({ a with graph := r.graph }.inquiry x).outcome f'.known? = .wait := by
    intro x hx
    obtain ⟨hmem, hu⟩ := hunknown x hx
    rw [funext hknown]
    have hinquiry := inquiry_recast hretyped a.operands a.settings.maxRounds x
    exact (congrArg (·.outcome f.known?) hinquiry).trans (hends.wait_of_unknown hp hmem hu)
  have hrounds : f'.pending ≠ [] → 0 < a.settings.maxRounds := by
    intro hne
    obtain ⟨x, hx⟩ := List.exists_mem_of_ne_nil _ hne
    obtain ⟨hmem, hu⟩ := hunknown x hx
    exact pos_maxRounds_of_open hr hc hmem (start?_eq_none_of_unknown hends.meets hmem hu).1
  obtain ⟨f'', n, hrun, hn, hfinal⟩ := run_of_wait hs' hwait hrounds
  have hsame (x : OperandId) :
      Recovery.typeOf ⟨{ a with graph := r.graph }, f'', n, true⟩ x = r.typeOf x := by
    rw [htype, Recovery.typeOf, Findings.final, Findings.settled?, hfinal, habout]
    split
    · cases f.known? x <;> rfl
    · rename_i hx
      rw [Findings.known?, hends.meets.about_of_not_mem hx]
      rfl
  refine ⟨_, hrun, rfl, hn, ?_, hsame⟩
  rw [Recovery.types_eq_map, Recovery.types_eq_map, hanalysis]
  exact List.map_congr_left fun x _ => by rw [hsame]

/-- The operands of the program in which a guess goes stale, all in place. In the second run no rule
answers for the elements of the array, whose guess is in the program now. -/
def freshOperands : Array Operand :=
  #[⟨.temporary, .arrayOf .int⟩, ⟨.temporary, .unknown⟩, ⟨.temporary, .unknown⟩,
    ⟨.temporary, .unknown⟩, ⟨.temporary, .unknown⟩, ⟨.temporary, .unknown⟩]

def freshAnalysis : Analysis :=
  blockAnalysis freshOperands staleOps [⟨0⟩, ⟨1⟩, ⟨2⟩, ⟨3⟩, ⟨4⟩, ⟨5⟩]

theorem fresh_run :
    Recovery.run freshAnalysis = .ok ⟨freshAnalysis, staleEnd.promote, 3, true⟩ := by
  have h₀ : freshAnalysis.Reaches 0 (staleFindings .nothing .nothing .nothing .nothing) := .seed rfl
  have h₁ : freshAnalysis.Reaches 1
      (staleFindings .nothing (.guess (.arrayOf .int)) (.guess .int) (.settled .int)) :=
    .round (g := { staleFindings .nothing (.guess (.arrayOf .int)) (.guess .int) (.settled .int) with
      changes := 2 }) h₀ (by decide) rfl (by decide)
  have h₂ : freshAnalysis.Reaches 2 staleEnd :=
    .round (g := { staleEnd with changes := 2 }) h₁ (by decide) rfl (by decide)
  exact run_of_stalls h₂ (g := staleEnd) ⟨by decide, rfl, rfl⟩ (by decide)

/-- The second run keeps the guess that no rule confirms, and what was unknown stays unknown. -/
theorem run_graph_of_converged_fresh :
    Analysis.of (blockGraph freshOperands staleOps) {} .empty = .ok freshAnalysis ∧
      (blockGraph freshOperands staleOps).Complete ∧ freshAnalysis.PresetsKnown ∧
      ∃ r r', Recovery.run freshAnalysis = .ok r ∧ r.converged = true ∧
        Recovery.run { freshAnalysis with graph := r.graph } = .ok r' ∧ r'.converged = true ∧
        r'.typeOf ⟨3⟩ = .int ∧ r'.typeOf ⟨5⟩ = .unknown := by
  have hof : Analysis.of (blockGraph freshOperands staleOps) {} .empty = .ok freshAnalysis := by cbv
  have hcomplete : (blockGraph freshOperands staleOps).Complete := by
    have hused : (blockGraph freshOperands staleOps).usedOperands = freshAnalysis.operands :=
      (graph_of hof).2.symm
    rw [Graph.Complete, hused]
    decide
  have hpresets : freshAnalysis.PresetsKnown := by
    intro x hx hu
    have hzero : ∀ x ∈ freshAnalysis.operands,
        (freshAnalysis.graph.operand x).type.isUnknown = false → x = ⟨0⟩ := by decide
    rw [hzero x hx hu]
    simp [freshAnalysis, blockAnalysis, blockGraph, freshOperands, Graph.operand, Ty.Known,
      Ty.Everywhere]
  obtain ⟨-, r', hrun, hc, -, -, htypes⟩ :=
    run_graph_of_converged hof hcomplete hpresets fresh_run rfl
  exact ⟨hof, hcomplete, hpresets, _, r', fresh_run, rfl, hrun, hc, htypes ⟨3⟩, htypes ⟨5⟩⟩

end Analysis

end TypeRecovery
