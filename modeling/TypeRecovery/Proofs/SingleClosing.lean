import TypeRecovery.Proofs.ClassHierarchy

/-!
# One closing for all classes

The classes of the signatures are closed before those of a program come, and the second closing
starts from links of which it cannot tell whether they were edges. The main result is that nothing
is gained or lost by this: the hierarchy of a program relates the same names as one in which all
classes are declared and all edges recorded before a single closing.
-/
namespace TypeRecovery

namespace Hierarchy

open Relation

/-- The hierarchy of some names and edges, closed once. -/
def closeAll (names : List Key) (edges : List (Key × Key)) : Hierarchy :=
  (edges.foldl (fun h e => h.link e.1 e.2) (names.foldl declare .empty)).close

/-- The calls that declare the names and record the edges. -/
noncomputable def plainEdits (names : List Key) (edges : List (Key × Key)) : List Edit :=
  names.map (fun k => .declare k.spelling) ++ edges.map fun e => .edge e.1.spelling e.2.spelling

section Listed

variable {names : List Key} {edges : List (Key × Key)}

theorem recorded_plainEdits (he : ∀ e ∈ edges, e.1.Spelled ∧ e.2.Spelled) {c p : Key} :
    Recorded (plainEdits names edges) c p ↔ (c, p) ∈ edges := by
  simp only [Recorded, plainEdits, List.mem_append, List.mem_map]
  constructor
  · rintro ⟨e, ⟨k, -, rfl⟩ | ⟨⟨c', p'⟩, hmem, rfl⟩, hcp⟩
    · simp [Edit.recorded] at hcp
    · obtain ⟨hc, hp⟩ := he _ hmem
      obtain ⟨rfl, rfl⟩ : c = c' ∧ p = p' := by
        simpa [Edit.recorded, hc.of_spelling, hp.of_spelling] using hcp
      exact hmem
  · intro hmem
    obtain ⟨hc, hp⟩ := he _ hmem
    refine ⟨_, Or.inr ⟨_, hmem, rfl⟩, ?_⟩
    simp [Edit.recorded, hc.of_spelling, hp.of_spelling]

theorem declares_plainEdits (hn : ∀ k ∈ names, k.Spelled) {k : Key} :
    Declares (plainEdits names edges) k ↔ k ∈ names := by
  simp only [Declares, plainEdits, List.mem_append, List.mem_map]
  constructor
  · rintro ⟨e, ⟨k', hk', rfl⟩ | ⟨e', -, rfl⟩, hk⟩
    · obtain rfl : k = k' := by simpa [Edit.declared, (hn k' hk').of_spelling] using hk
      exact hk'
    · simp [Edit.declared] at hk
  · intro hk
    refine ⟨_, Or.inl ⟨k, hk, rfl⟩, ?_⟩
    simp [Edit.declared, (hn k hk).of_spelling]

theorem closeAll_eq (hn : ∀ k ∈ names, k.Spelled) (he : ∀ e ∈ edges, e.1.Spelled ∧ e.2.Spelled) :
    closeAll names edges = (Edit.run .empty (plainEdits names edges)).close := by
  have hdeclare : names.foldl (fun h k => h.declare (Key.of k.spelling)) .empty =
      names.foldl declare .empty := by
    apply List.foldl_ext
    intro h k hk
    rw [(hn k hk).of_spelling]
  have hedge (g : Hierarchy) :
      edges.foldl (fun h e => h.link (Key.of e.1.spelling) (Key.of e.2.spelling)) g =
        edges.foldl (fun h e => h.link e.1 e.2) g := by
    apply List.foldl_ext
    intro h e hmem
    rw [(he e hmem).1.of_spelling, (he e hmem).2.of_spelling]
  simp only [closeAll, Edit.run, plainEdits, List.foldl_append, List.foldl_map, Edit.apply,
    hdeclare, hedge]

/-- A single closing of edges between declared children gives their transitive closure, reflexive
on the declared names. -/
theorem mem_ancestors_closeAll (hn : ∀ k ∈ names, k.Spelled)
    (he : ∀ e ∈ edges, e.1.Spelled ∧ e.2.Spelled) (hd : ∀ e ∈ edges, e.1 ∈ names) {c p : Key} :
    p ∈ (closeAll names edges).ancestors c ↔
      c = p ∧ c ∈ names ∨ TransGen (fun x y => (x, y) ∈ edges) c p := by
  have hrecorded : Recorded (plainEdits names edges) = fun x y => (x, y) ∈ edges := by
    ext x y
    exact recorded_plainEdits he
  have hr := reflects_nil.run (plainEdits names edges)
  rw [closeAll_eq hn he, hr.mem_ancestors_close, List.nil_append, Leads, declares_plainEdits hn,
    hrecorded]
  intro x y hxy
  rw [List.nil_append, recorded_plainEdits he] at hxy
  exact (declares_plainEdits hn).2 (hd _ hxy)

end Listed

end Hierarchy

namespace Analysis

open Hierarchy Relation

/-- The classes of the signatures and of the program. -/
def classKeys (a : Analysis) : List Key :=
  a.signatures.classes.keys ++ a.index.classLikes.map fun c => Key.of c.name

/-- The edges of the signatures and of the program, each from a class to one directly above it. -/
def classEdges (a : Analysis) : List (Key × Key) :=
  a.signatures.parents.entries ++
    a.signatures.interfaces.entries.flatMap (fun e => e.2.map fun p => (e.1, p)) ++
    a.index.classLikes.flatMap fun c => c.heritage.supertypes.map fun p => (Key.of c.name, Key.of p)

variable {a : Analysis} {s : Signatures}

theorem Reads.mem_classKeys (h : a.Reads s) {k : Key} : k ∈ a.classKeys ↔ a.Declares k := by
  rw [classKeys, List.mem_append, Declares, or_comm]
  apply or_congr_left
  rw [List.mem_map]
  constructor
  · rintro ⟨c, hc, rfl⟩
    obtain ⟨head, name, heritage, body, hop, hc⟩ := (Index.mem_classLikes h.index).1 hc
    obtain rfl := Except.ok.inj hc
    exact ⟨head, name, heritage, body, hop, rfl⟩
  · rintro ⟨head, name, heritage, body, hop, rfl⟩
    exact ⟨_, (Index.mem_classLikes h.index).2 ⟨head, name, heritage, body, hop, rfl⟩, rfl⟩

theorem Reads.mem_classEdges (h : a.Reads s) {c p : Key} :
    (c, p) ∈ a.classEdges ↔ a.Extends c p := by
  have hsignatures : (c, p) ∈ a.signatures.parents.entries ++
      a.signatures.interfaces.entries.flatMap (fun e => e.2.map fun p => (e.1, p)) ↔
        a.signatures.Extends c p := by
    rw [List.mem_append, Signatures.Extends]
    apply or_congr_right
    simp only [List.mem_flatMap, List.mem_map, Prod.mk.injEq]
    constructor
    · rintro ⟨⟨c', ps⟩, he, p', hp, rfl, rfl⟩
      exact ⟨ps, he, hp⟩
    · rintro ⟨ps, he, hp⟩
      exact ⟨(c, ps), he, p, hp, rfl, rfl⟩
  rw [classEdges, List.mem_append, hsignatures, Extends, or_comm]
  apply or_congr_left
  simp only [List.mem_flatMap, List.mem_map, Prod.mk.injEq]
  constructor
  · rintro ⟨k, hk, q, hq, rfl, rfl⟩
    obtain ⟨head, name, heritage, body, hop, hk⟩ := (Index.mem_classLikes h.index).1 hk
    obtain rfl := Except.ok.inj hk
    exact ⟨head, name, heritage, body, q, hop, hq, rfl, rfl⟩
  · rintro ⟨head, name, heritage, body, q, hop, hq, rfl, rfl⟩
    have hk := (Index.mem_classLikes h.index).2 ⟨head, name, heritage, body, hop, rfl⟩
    exact ⟨_, hk, q, hq, rfl, rfl⟩

theorem Reads.spelled_of_declares (h : a.Reads s) (hs : s.Grounded) {k : Key} (hk : a.Declares k) :
    k.Spelled := by
  rcases hk with ⟨head, name, heritage, body, -, rfl⟩ | hk
  · exact ⟨name, rfl⟩
  · rw [h.signatures] at hk
    exact hs.spelled k hk

theorem Reads.spelled_of_extends (h : a.Reads s) (hs : s.Grounded) {c p : Key}
    (hc : a.Extends c p) : p.Spelled := by
  rcases hc with ⟨head, name, heritage, body, q, -, -, -, rfl⟩ | hc
  · exact ⟨q, rfl⟩
  · rw [h.signatures] at hc
    exact hs.parent c p hc

/-- One closing of all classes and edges leads up from a class as far as the edges do. -/
theorem Reads.mem_ancestors_closeAll (h : a.Reads s) (hs : s.Grounded) {c p : Key} :
    p ∈ (closeAll a.classKeys a.classEdges).ancestors c ↔
      c = p ∧ a.Declares c ∨ TransGen a.Extends c p := by
  have hedges : (fun x y => (x, y) ∈ a.classEdges) = a.Extends := by
    ext x y
    exact h.mem_classEdges
  rw [Hierarchy.mem_ancestors_closeAll, h.mem_classKeys, hedges]
  · intro k hk
    exact h.spelled_of_declares hs (h.mem_classKeys.1 hk)
  · intro e he
    have hext := h.mem_classEdges.1 he
    exact ⟨h.spelled_of_declares hs (h.child_declared hs hext), h.spelled_of_extends hs hext⟩
  · intro e he
    exact h.mem_classKeys.2 (h.child_declared hs (h.mem_classEdges.1 he))

/-- A class stands above another one in the hierarchy of a program exactly if it is the same
declared class or a chain of edges of program and signatures leads up to it. A single closing of
all edges gives the same relation, and nothing stands above a name that nobody declares. -/
theorem mem_ancestors_iff_chain {g : Graph} {settings : Settings} (hs : s.Built)
    (h : Analysis.of g settings s = .ok a) (c p : Key) :
    (p ∈ a.hierarchy.ancestors c ↔ c = p ∧ a.Declares c ∨ TransGen a.Extends c p) ∧
      (p ∈ a.hierarchy.ancestors c ↔ p ∈ (closeAll a.classKeys a.classEdges).ancestors c) ∧
      (¬a.Declares c → a.hierarchy.ancestors c = []) := by
  have hr := reads_of h
  have hgrounded := hs.grounded
  have hchain {q : Key} := hr.mem_ancestors hgrounded (c := c) (p := q)
  refine ⟨hchain, hchain.trans (hr.mem_ancestors_closeAll hgrounded).symm, ?_⟩
  intro hc
  apply List.eq_nil_iff_forall_not_mem.2
  intro q hq
  rcases hchain.1 hq with ⟨-, hd⟩ | hup
  · exact hc hd
  · obtain ⟨d, hcd, -⟩ := TransGen.head'_iff.1 hup
    exact hc (hr.child_declared hgrounded hcd)

/-- A circle through both levels. The signatures place `Root` above `Base`. The program declares
`Root` again, below a class of its own which is below `Base`. -/
def loopSignatures : Signatures :=
  (Signatures.empty.merge (.record [("classes", .record
    [("Root", .record []), ("Base", .record [("extends", .text "Root")])])])).1

def loopSub : Op := .classLike {} "Sub" (.ofClass (some "BASE") [] ["Gone"]) []

def loopRoot : Op := .classLike {} "Root" (.ofClass (some "Sub") [] []) []

def loopGraph : Graph :=
  { operands := #[]
    funcs := #[{ name := "main", blocks := [[loopSub, loopRoot]] }]
    log := #[loopSub, loopRoot]
    scripts := [{ file := "main", main := ⟨0⟩ }] }

def loopClasses : List ClassLike :=
  [⟨"Sub", .ofClass (some "BASE") [] ["Gone"], .empty, .empty, .empty⟩,
    ⟨"Root", .ofClass (some "Sub") [] [], .empty, .empty, .empty⟩]

def loopAnalysis : Analysis :=
  { graph := loopGraph
    settings := {}
    signatures := loopSignatures
    visited := [loopSub, loopRoot]
    operands := []
    index := ⟨loopClasses, .group (fun c => Key.of c.name) loopClasses, .empty, .empty⟩
    hierarchy := extend loopSignatures.hierarchy loopClasses }

theorem loop_extends_root : loopAnalysis.Extends (Key.of "Base") (Key.of "Root") := by
  have hmem : (Key.of "Base", Key.of "Root") ∈ loopSignatures.parents.entries := by
    have hentries : loopSignatures.parents.entries = [(Key.of "Base", Key.of "Root")] := rfl
    rw [hentries]
    exact List.mem_cons_self
  exact Or.inr (Or.inl hmem)

theorem loop_extends_sub : loopAnalysis.Extends (Key.of "Root") (Key.of "Sub") :=
  Or.inl ⟨{}, "Root", .ofClass (some "Sub") [] [], [], "Sub", by simp [loopAnalysis, loopRoot],
    List.mem_cons_self, rfl, rfl⟩

theorem loop_not_declares : ¬loopAnalysis.Declares (Key.of "Gone") := by
  have hkeys : loopSignatures.classes.keys = [Key.of "Root", Key.of "Base"] := rfl
  rintro (⟨head, name, heritage, body, hop, hname⟩ | hk)
  · simp only [loopAnalysis, loopSub, loopRoot, List.mem_cons, List.not_mem_nil, or_false,
      Op.classLike.injEq] at hop
    rcases hop with ⟨-, rfl, -⟩ | ⟨-, rfl, -⟩ <;> revert hname <;> decide
  · change Key.of "Gone" ∈ loopSignatures.classes.keys at hk
    rw [hkeys] at hk
    revert hk
    decide

/-- The class of the program stands above a class of the signatures, and nothing stands above the
undeclared name. -/
theorem mem_ancestors_iff_chain_loop :
    loopSignatures.Built ∧ Analysis.of loopGraph {} loopSignatures = .ok loopAnalysis ∧
      Key.of "Sub" ∈ loopAnalysis.hierarchy.ancestors (Key.of "Base") ∧
      Key.of "Sub" ∈
        (closeAll loopAnalysis.classKeys loopAnalysis.classEdges).ancestors (Key.of "Base") ∧
      ¬loopAnalysis.Declares (Key.of "Gone") ∧
      loopAnalysis.hierarchy.ancestors (Key.of "Gone") = [] := by
  have hbuilt : loopSignatures.Built := .merge .empty _
  have hvisited : loopGraph.visited = [loopSub, loopRoot] := by cbv
  have hof : Analysis.of loopGraph {} loopSignatures = .ok loopAnalysis := of_eq_ok hvisited rfl rfl
  obtain ⟨hchain, honce, -⟩ := mem_ancestors_iff_chain hbuilt hof (Key.of "Base") (Key.of "Sub")
  obtain ⟨-, -, hgone⟩ := mem_ancestors_iff_chain hbuilt hof (Key.of "Gone") (Key.of "Sub")
  have hup := hchain.2 (Or.inr (.tail (.single loop_extends_root) loop_extends_sub))
  exact ⟨hbuilt, hof, hup, honce.1 hup, loop_not_declares, hgone loop_not_declares⟩

end Analysis

end TypeRecovery
