import TypeRecovery.Proofs.Bounds
import TypeRecovery.Proofs.ClassHierarchy
import TypeRecovery.Proofs.Endings
import TypeRecovery.Proofs.RoundTrip
import TypeRecovery.Proofs.Searches

/-!
# Calls cover every method they may reach

A call of a method goes to some class below a class of its receiver. When recovery has converged,
the type of the call has room for the result of every definition of the method in any such class. This
holds although the receiver may only be guessed while the call is typed: a guess that still changes
sets off another round, and what is settled is settled from receivers that no longer change.
-/
namespace TypeRecovery

namespace Ty

variable {h : Hierarchy}

/-- The least upper bound of clean types is an upper bound. -/
theorem fits_lubAll {ts : List Ty} (hts : ∀ t ∈ ts, t.Clean) {t : Ty} (ht : t ∈ ts) :
    fits h t (lubAll ts) = true := by
  refine fits_of_covered ?_
  refine Covered.trans (.of_subset fun m hm => ?_)
    (gathers_lubAll (List.ne_nil_of_mem ht) hts).covers
  exact List.mem_flatMap.2 ⟨t, ht, hm⟩

end Ty

namespace Analysis

open Inquiry Relation

variable {a : Analysis}

/-- A class that declares a method answers a call of it by itself if no signatures are given. -/
theorem callTypes_of_own {static : Bool} {k member : Key} {c : ClassLike} {m : Routine}
    {ms : List Routine} (hs : a.signatures = .empty) (hc : a.index.classesNamed k = [c])
    (hm : c.methodsNamed member = m :: ms) :
    a.callTypes static k member = (m :: ms).map a.methodType := by
  have hfound : a.methodTypes k member = (m :: ms).map a.methodType := by
    have hown : declared? (·.map a.methodType) (c.methodsNamed member) =
        some ((m :: ms).map a.methodType) := by rw [hm]; rfl
    rw [methodTypes, Search.find_of_own hc hown, hs]
    simp
  rw [callTypes, hfound]
  rfl

/-- A method without a comment has the class that it declares. -/
theorem methodType_of_spellable {m : Routine} (hcomment : m.comment = none) (hne : m.returns ≠ "")
    (h : Declaration.Spellable m.returns) (htrim : Text.trim m.returns.toList = m.returns.toList) :
    a.methodType m = .named m.returns := by
  have hmixed : DocComment.declaredType .result none = .mixed := rfl
  have hfits : Ty.fits a.hierarchy .mixed (.named m.returns) = false := rfl
  rw [methodType, hcomment, hmixed, Ty.ofTextOrMixed_of_spellable h htrim]
  simp [hne, hfits]

/-- A class answers a call with every definition of the method in it. -/
theorem mem_callTypes (hi : Index.build a.graph a.visited = .ok a.index) {head mhead : Head}
    {name : String} {heritage : Heritage} {body : List Op} {f : FuncId} {member : Key}
    (hclass : .classLike head name heritage body ∈ a.visited) (hm : .method mhead f ∈ body)
    (hname : Key.of (a.graph.func f).name = member) (static : Bool) :
    a.methodType (a.graph.routine mhead f) ∈ a.callTypes static (Key.of name) member := by
  obtain ⟨c, hc⟩ : ∃ c, Index.classLikeOf a.graph (.classLike head name heritage body) = .ok c :=
    ⟨_, rfl⟩
  have hcname : c.name = name := by
    obtain rfl := Except.ok.inj hc
    rfl
  have hmember := (Index.mem_classLikes hi).2 ⟨head, name, heritage, body, hclass, hc⟩
  have hroutine : a.graph.routine mhead f ∈ c.methodsNamed member :=
    (Index.mem_methodsNamed hc).2 ⟨mhead, f, hm, rfl, hname⟩
  rw [← hcname]
  have hmem : a.methodType (a.graph.routine mhead f) ∈ a.methodTypes (Key.of c.name) member := by
    refine Search.mem_find ((Index.mem_classesNamed hi).2 ⟨hmember, rfl⟩) ?_
      (List.mem_map_of_mem hroutine)
    simp only [declared?, List.isEmpty_iff, List.ne_nil_of_mem hroutine, if_false]
  unfold callTypes
  simp only [List.isEmpty_iff, List.ne_nil_of_mem hmem, if_false]
  exact hmem

/-- The classes that the receiver of a call may have when `t` is known of it. -/
def receivers (a : Analysis) (y : OperandId) : Option Ty → List Key
  | none => []
  | some t =>
    if t.kind = .string then
      match a.graph.literal? y with
      | some (.text name) => [Key.of name]
      | _ => []
    else classesOf t

/-- A call of the method `m` of the operand `y`. -/
structure Calls (a : Analysis) (op : Op) (y : OperandId) (m : String) : Prop where
  action : op.action = .methodCall
  name : a.literalIn? op .name = some (.text m)
  receiver : op.slot? .var = some (.one (some y))

theorem outcome_classNames (known : OperandId → Option Ty) (y : OperandId) :
    (a.classNames (some y)).outcome known = .answer (a.receivers y (known y)) := by
  rw [classNames, outcome_bind, outcome_known?]
  simp only [Option.bind_some]
  cases known y with
  | none => rfl
  | some t =>
    by_cases hk : t.kind = .string
    · simp only [receivers, hk, if_true]
      cases a.graph.literal? y with
      | none => rfl
      | some v => cases v <;> rfl
    · simp only [receivers, hk, if_false]
      rfl

theorem Calls.rule_eq {op : Op} {y : OperandId} {m : String} (h : a.Calls op y m) :
    a.rule op = a.classNames (some y) >>= fun classes =>
      if (classes.flatMap a.candidates).isEmpty then wait
      else ((classes.flatMap a.candidates).mapM fun c =>
        answer (a.callTypes false c (Key.of m))) >>= fun tss => types tss.flatten := by
  have hrule : a.rule op = a.memberTypes op .var fun c m => answer (a.callTypes false c m) := by
    unfold rule
    simp only [h.action]
  rw [hrule, memberTypes, h.name, operandIn, h.receiver]
  rfl

/-- The types that a call finds when `t` is known of its receiver. -/
def dispatched (a : Analysis) (y : OperandId) (m : String) (t : Option Ty) : List Ty :=
  ((a.receivers y t).flatMap a.candidates).flatMap fun c => a.callTypes false c (Key.of m)

theorem Calls.outcome {op : Op} {y : OperandId} {m : String} (h : a.Calls op y m)
    (known : OperandId → Option Ty) :
    (a.rule op).outcome known = (types (a.dispatched y m (known y))).outcome known := by
  have hmapM (cs : List Key) :
      (cs.mapM fun c => answer (a.callTypes false c (Key.of m))).outcome known =
        .answer (cs.map fun c => a.callTypes false c (Key.of m)) := by
    apply outcome_mapM
    rw [List.forall₂_map_right_iff, List.forall₂_same]
    exact fun _ _ => rfl
  rw [h.rule_eq, outcome_bind, outcome_classNames]
  simp only [dispatched]
  split
  · rename_i hempty
    rw [List.isEmpty_iff.1 hempty]
    rfl
  · rw [outcome_bind, hmapM]
    simp only [List.flatMap_def]

theorem Calls.mem_asked {op : Op} {y : OperandId} {m : String} (h : a.Calls op y m)
    (known : OperandId → Option Ty) : y ∈ (a.rule op).asked known := by
  rw [h.rule_eq, asked_bind, classNames, asked_bind]
  simp [known?, asked]

theorem Calls.outcome_inquiry {op : Op} {x y : OperandId} {m : String} (h : a.Calls op y m)
    (hp : a.graph.producers x = [op]) (known : OperandId → Option Ty) :
    (a.inquiry x).outcome known =
      if a.dispatched y m (known y) = [] then .wait
      else .answer (Ty.lubAll (a.dispatched y m (known y))) := by
  rw [outcome_inquiry_of_producer hp, h.outcome, types]
  by_cases hempty : a.dispatched y m (known y) = []
  · simp [hempty, Inquiry.outcome]
  · simp only [List.isEmpty_iff, hempty, if_false, Inquiry.outcome, types]
    rfl

theorem clean_dispatched (y : OperandId) (m : String) (t : Option Ty) :
    ∀ u ∈ a.dispatched y m t, u.Clean := by
  intro u hu
  obtain ⟨c, -, hu⟩ := List.mem_flatMap.1 hu
  exact a.clean_callTypes false c (Key.of m) u hu

theorem mem_classesOf {C : String} {t : Ty} (hC : .named C ∈ t.parts .union) (hne : C ≠ "") :
    Key.of C ∈ classesOf t := by
  have hself : Key.of C ∈ classesOf (.named C) := by simp [classesOf, hne]
  cases t with
  | compound c x y rest =>
    cases c with
    | union =>
      rw [classesOf_union]
      exact List.mem_flatMap.2 ⟨_, hC, hself⟩
    | intersection => simp [Ty.parts] at hC
  | _ =>
    rw [← List.mem_singleton.1 hC]
    exact hself

theorem receivers_of_mem {k : Key} {t : Ty} (hk : k ∈ classesOf t) (y : OperandId) :
    a.receivers y (some t) = classesOf t := by
  have hkind : t.kind ≠ .string := by
    rintro hs
    cases t with
    | compound c x y rest => cases c <;> cases hs
    | string => cases hk
    | _ => cases hs
  rw [receivers, if_neg hkind]

variable {s : Signatures}

/-- A definition in a class below a class of the receiver is among what a call finds. -/
theorem Reads.mem_dispatched (ha : a.Reads s) (hs : s.Grounded) {C : Key} {t : Ty}
    (hC : C ∈ classesOf t) {head mhead : Head} {name : String} {heritage : Heritage}
    {body : List Op} {f : FuncId} {m : String}
    (hD : .classLike head name heritage body ∈ a.visited)
    (hchain : ReflTransGen a.Extends (Key.of name) C) (hm : .method mhead f ∈ body)
    (hf : Key.of (a.graph.func f).name = Key.of m) (y : OperandId) :
    a.methodType (a.graph.routine mhead f) ∈ a.dispatched y m (some t) := by
  have habove : C ∈ a.hierarchy.ancestors (Key.of name) := by
    rw [ha.mem_ancestors hs]
    rcases reflTransGen_iff_eq_or_transGen.1 hchain with heq | hchain
    · exact Or.inl ⟨heq.symm, Or.inl ⟨head, name, heritage, body, hD, rfl⟩⟩
    · exact Or.inr hchain
  have hcandidate : Key.of name ∈ a.candidates C := by
    rw [candidates, Key.sort, List.mem_mergeSort]
    exact (ha.mem_descendants hs).2 habove
  rw [dispatched, receivers_of_mem hC]
  refine List.mem_flatMap.2 ⟨Key.of name, List.mem_flatMap.2 ⟨C, hC, hcandidate⟩, ?_⟩
  exact mem_callTypes ha.index hD hm hf false

/-- At the end, the type of a call is what it finds for a type equal to that of the receiver. -/
theorem Calls.known?_of_ends {g : Findings} (hends : a.Ends g) {x y : OperandId} {op : Op}
    {m : String} (hx : x ∈ a.operands) (hopen : a.start? x = none)
    (hp : a.graph.producers x = [op]) (hcall : a.Calls op y m) {t : Ty} (ht : g.known? y = some t)
    (hfound : ∀ t' : Ty, t'.equiv t = true → a.dispatched y m (some t') ≠ []) :
    ∃ t' : Ty, t'.equiv t = true ∧ g.known? x = some (Ty.lubAll (a.dispatched y m (some t'))) := by
  cases hg : g.about x with
  | settled u =>
    -- the receiver was settled before the call, and has not changed
    obtain ⟨-, hstart | ⟨-, f₀, -, hanswer, hasked⟩⟩ := hends.meets.origin hg
    · rw [hopen] at hstart
      cases hstart
    rw [hcall.outcome_inquiry hp] at hanswer
    rw [asked_inquiry_of_producer hp] at hasked
    rcases hasked y (hcall.mem_asked _) with hnone | ⟨s, hs, hgs⟩
    · rw [hnone] at hanswer
      cases hanswer
    · obtain rfl : s = t := by simpa [Findings.known?, hgs, Finding.known?] using ht
      rw [hs, if_neg (hfound s (Ty.equiv_refl s))] at hanswer
      obtain rfl : _ = u := by simpa using hanswer
      exact ⟨s, Ty.equiv_refl s, by rw [Findings.known?, hg]; rfl⟩
  | _ =>
    obtain ⟨f, -, hsame, hattempted⟩ := hends.attempted hx (by rw [hg]; rfl)
    obtain ⟨t', ht', hequiv⟩ : ∃ t', f.known? y = some t' ∧ t'.equiv t = true := by
      have hrel := (hsame y).known?
      rw [← Findings.known?, ← Findings.known?, ht] at hrel
      exact exists_of_rel_some hrel
    refine ⟨t', hequiv, ?_⟩
    simp only [Attempted, hcall.outcome_inquiry hp, ht', if_neg (hfound t' hequiv)] at hattempted
    rw [Findings.known?, hattempted]
    split <;> rfl

/-- A call of a method covers what the method returns in every class from which a chain of edges
leads to a class of the receiver. -/
theorem methodType_fits_call {g : Graph} {settings : Settings} {r : Recovery} (hs : s.Built)
    (ha : Analysis.of g settings s = .ok a) (hr : Recovery.run a = .ok r)
    (hconverged : r.converged = true) {x y : OperandId} {op : Op} {m C : String}
    (hx : x ∈ a.operands) (hopen : a.start? x = none) (hp : a.graph.producers x = [op])
    (hcall : a.Calls op y m) (hC : .named C ∈ (r.typeOf y).parts .union) (hne : C ≠ "")
    {head mhead : Head} {name : String} {heritage : Heritage} {body : List Op} {f : FuncId}
    (hD : .classLike head name heritage body ∈ a.visited)
    (hchain : ReflTransGen a.Extends (Key.of name) (Key.of C)) (hm : .method mhead f ∈ body)
    (hf : Key.of (a.graph.func f).name = Key.of m) :
    Ty.fits a.hierarchy (a.methodType (a.graph.routine mhead f)) (r.typeOf x) = true := by
  obtain ⟨g, hends, htype⟩ := ends_of_run hr hconverged
  obtain ⟨t, ht⟩ : ∃ t, g.known? y = some t := by
    cases hy : g.known? y with
    | none => simp [htype, hy, Ty.parts] at hC
    | some t => exact ⟨t, rfl⟩
  rw [htype, ht, Option.getD_some] at hC
  have hmem (t' : Ty) (ht' : t'.equiv t = true) :
      a.methodType (a.graph.routine mhead f) ∈ a.dispatched y m (some t') := by
    have hclass := (classesOf_perm ht').mem_iff.2 (mem_classesOf hC hne)
    exact (reads_of ha).mem_dispatched hs.grounded hclass hD hchain hm hf y
  obtain ⟨t', ht', hknown⟩ := hcall.known?_of_ends hends hx hopen hp ht
    fun t' ht' => List.ne_nil_of_mem (hmem t' ht')
  rw [htype, hknown, Option.getD_some]
  exact Ty.fits_lubAll (clean_dispatched y m _) (hmem t' ht')

def overrideBase : Op := .classLike {} "Base" (.ofClass none [] []) [.method {} ⟨1⟩]

def overrideSub : Op := .classLike {} "Sub" (.ofClass (some "base") [] []) [.method {} ⟨2⟩]

/-- The receiver is the merge of an object of the base class with something of which nothing is
known, so the call is typed from a guess. -/
def overrideMerge : Op :=
  .plain { result := some ⟨2⟩ } .phi [(.vars, .many [some ⟨0⟩, some ⟨1⟩])]

def overrideCall : Op :=
  .plain { result := some ⟨4⟩ } .methodCall [(.var, .one (some ⟨2⟩)), (.name, .one (some ⟨3⟩))]

def overrideOps : List Op := [overrideBase, overrideSub, overrideMerge, overrideCall]

def overrideGraph : Graph :=
  { operands := #[⟨.temporary, .named "Base"⟩, ⟨.temporary, .unknown⟩, ⟨.temporary, .unknown⟩,
      ⟨.literal (.text "m"), .unknown⟩]
    funcs := #[{ name := "main", blocks := [overrideOps] }, { name := "m", returns := "A" },
      { name := "M", returns := "B" }]
    log := overrideOps.toArray
    scripts := [{ file := "main", main := ⟨0⟩ }] }

def overrideClasses : List ClassLike :=
  [⟨"Base", .ofClass none [] [], ⟨[(Key.of "m", [⟨"m", "A", none⟩])]⟩, .empty, .empty⟩,
    ⟨"Sub", .ofClass (some "base") [] [], ⟨[(Key.of "m", [⟨"M", "B", none⟩])]⟩, .empty, .empty⟩]

def overrideAnalysis : Analysis :=
  { graph := overrideGraph
    settings := {}
    signatures := .empty
    visited :=
      [overrideBase, .method {} ⟨1⟩, overrideSub, .method {} ⟨2⟩, overrideMerge, overrideCall]
    operands := [⟨0⟩, ⟨1⟩, ⟨2⟩, ⟨3⟩, ⟨4⟩]
    index := ⟨overrideClasses, .group (fun c => Key.of c.name) overrideClasses, .empty, .empty⟩
    hierarchy := Analysis.extend .empty overrideClasses }

def overrideFindings (receiver call : Finding) : Findings :=
  { table := ⟨[(⟨0⟩, .settled (.named "Base")), (⟨1⟩, .nothing), (⟨2⟩, receiver),
      (⟨3⟩, .settled .string), (⟨4⟩, call)]⟩ }

def overrideEnd : Findings :=
  overrideFindings (.guess (.named "Base")) (.guess (.compound .union (.named "A") (.named "B") []))

theorem override_calls : overrideAnalysis.Calls overrideCall ⟨2⟩ "m" := ⟨rfl, rfl, rfl⟩

theorem override_of : Analysis.of overrideGraph {} .empty = .ok overrideAnalysis := by
  have hvisited : overrideGraph.visited =
      [overrideBase, .method {} ⟨1⟩, overrideSub, .method {} ⟨2⟩, overrideMerge, overrideCall] := by
    cbv
  have hindex : Index.build overrideGraph overrideAnalysis.visited = .ok overrideAnalysis.index := rfl
  exact of_eq_ok hvisited hindex Signatures.hierarchy_empty

theorem override_dispatched :
    overrideAnalysis.dispatched ⟨2⟩ "m" (some (.named "Base")) = [.named "A", .named "B"] := by
  have hbelow : overrideAnalysis.hierarchy.descendants (Key.of "Base") =
      [Key.of "Base", Key.of "Sub"] := by
    have hclose : overrideAnalysis.hierarchy =
        (Hierarchy.Edit.run .empty (edits overrideClasses)).close := extend_eq .empty overrideClasses
    rw [hclose, Hierarchy.close_eq_of_turns 2 (by decide +kernel)]
    decide +kernel
  have hcandidates : overrideAnalysis.candidates (Key.of "Base") =
      [Key.of "Base", Key.of "Sub"] := by
    rw [candidates, hbelow]
    exact List.mergeSort_of_pairwise (by decide)
  have hA : Declaration.Spellable "A" := ⟨.segment (by decide), by decide⟩
  have hB : Declaration.Spellable "B" := ⟨.segment (by decide), by decide⟩
  have hbase : overrideAnalysis.callTypes false (Key.of "Base") (Key.of "m") = [.named "A"] := by
    rw [callTypes_of_own rfl rfl rfl, List.map_singleton,
      methodType_of_spellable rfl (by decide) hA (by decide)]
  have hsub : overrideAnalysis.callTypes false (Key.of "Sub") (Key.of "m") = [.named "B"] := by
    rw [callTypes_of_own rfl rfl rfl, List.map_singleton,
      methodType_of_spellable rfl (by decide) hB (by decide)]
  have hreceivers : overrideAnalysis.receivers ⟨2⟩ (some (.named "Base")) = [Key.of "Base"] := rfl
  rw [dispatched, hreceivers]
  simp only [List.flatMap_cons, List.flatMap_nil, List.append_nil, hcandidates, hbase, hsub,
    List.cons_append, List.nil_append]

/-- Once the receiver is guessed, so is the call. -/
theorem override_attempt {f : Findings} (h : f.about ⟨2⟩ = .guess (.named "Base")) :
    overrideAnalysis.attempt f ⟨4⟩ =
      .ok (f.suggest ⟨4⟩ (.compound .union (.named "A") (.named "B") []), false) := by
  have hp : overrideAnalysis.graph.producers ⟨4⟩ = [overrideCall] := rfl
  have hknown : f.known? ⟨2⟩ = some (.named "Base") := by rw [Findings.known?, h]; rfl
  have hhears : (overrideAnalysis.inquiry ⟨4⟩).hearsGuess f = true := by
    rw [hearsGuess, asked_inquiry_of_producer hp]
    refine List.any_eq_true.2 ⟨⟨2⟩, override_calls.mem_asked _, ?_⟩
    rw [h]
    rfl
  rw [attempt, override_calls.outcome_inquiry hp, hknown, override_dispatched]
  simp only [reduceCtorEq, if_false, hhears, if_true]
  rfl

theorem override_attemptAll {f g : Findings}
    (hg : overrideAnalysis.attemptAll f [⟨1⟩, ⟨2⟩] = .ok (g, 0))
    (h : g.about ⟨2⟩ = .guess (.named "Base")) :
    overrideAnalysis.attemptAll f [⟨1⟩, ⟨2⟩, ⟨4⟩] =
      .ok (g.suggest ⟨4⟩ (.compound .union (.named "A") (.named "B") []), 0) := by
  have happend : ([⟨1⟩, ⟨2⟩, ⟨4⟩] : List OperandId) = [⟨1⟩, ⟨2⟩] ++ [⟨4⟩] := rfl
  rw [attemptAll, happend, List.foldlM_append, ← attemptAll, hg]
  simp only [bind, Except.bind, List.foldlM_cons, override_attempt h]
  rfl

theorem override_run :
    Recovery.run overrideAnalysis = .ok ⟨overrideAnalysis, overrideEnd.promote, 2, true⟩ := by
  have hseed : overrideAnalysis.seed = .ok (overrideFindings .nothing .nothing) := rfl
  have hreach : overrideAnalysis.Reaches 1 overrideEnd :=
    .round (.seed hseed) (by decide) (override_attemptAll rfl rfl) (by decide)
  have hstill : overrideAnalysis.attemptAll overrideEnd overrideEnd.pending =
      .ok (overrideEnd.suggest ⟨4⟩ (.compound .union (.named "A") (.named "B") []), 0) :=
    override_attemptAll rfl rfl
  exact run_of_stalls hreach (g := overrideEnd) ⟨by decide, hstill, rfl⟩ (by decide)

/-- What the overriding method returns fits the type of the call. -/
theorem methodType_fits_call_override :
    Analysis.of overrideGraph {} .empty = .ok overrideAnalysis ∧
      Recovery.run overrideAnalysis = .ok ⟨overrideAnalysis, overrideEnd.promote, 2, true⟩ ∧
      overrideAnalysis.Extends (Key.of "Sub") (Key.of "Base") ∧
      Ty.fits overrideAnalysis.hierarchy (overrideAnalysis.methodType ⟨"M", "B", none⟩)
        (.compound .union (.named "A") (.named "B") []) = true := by
  have hvisited : overrideSub ∈ overrideAnalysis.visited := by simp [overrideAnalysis]
  have hextends : overrideAnalysis.Extends (Key.of "Sub") (Key.of "Base") :=
    Or.inl ⟨{}, "Sub", .ofClass (some "base") [] [], _, "base", hvisited,
      List.mem_cons_self, rfl, by decide⟩
  refine ⟨override_of, override_run, hextends, ?_⟩
  exact methodType_fits_call .empty override_of override_run rfl (x := ⟨4⟩) (by decide) rfl rfl
    override_calls (C := "Base") List.mem_cons_self (by decide) hvisited (.single hextends)
    List.mem_cons_self (by decide)

end Analysis

end TypeRecovery
