import Mathlib.Tactic.ByContra
import TypeRecovery.Proofs.Coherence

/-!
# The closed hierarchy is the transitive closure

A hierarchy comes about by calls that declare names, record edges and close. When every child of an
edge is declared at the time of the last closing, a name stands above another one exactly if it is
the same declared name or a chain of recorded edges leads up to it.

Completeness rests on the queue: a name that does not wait has taken over everything that stands
above its declared parents. A new link can spoil this only for names below its child, and these are
queued when the link is added.
-/
namespace TypeRecovery.Hierarchy
open Relation

/-- `n` has above it whatever is above its declared parents. -/
def Absorbs (h : Hierarchy) (n : Key) : Prop :=
  ∀ p ∈ h.ancestors n, p ∈ h.declared → ∀ b ∈ h.ancestors p, b ∈ h.ancestors n

/-- Every name that has something above it is declared. -/
def Rooted (h : Hierarchy) : Prop := ∀ a b, b ∈ h.ancestors a → a ∈ h.declared

/-- Both ends of every link are among `names`. -/
def Within (names : List Key) (h : Hierarchy) : Prop :=
  ∀ a b, b ∈ h.ancestors a → a ∈ names ∧ b ∈ names

theorem Within.link {names : List Key} {h : Hierarchy} (hw : Within names h) {child parent : Key}
    (hc : child ∈ names) (hp : parent ∈ names) : Within names (h.link child parent) := by
  intro a b hb
  rcases mem_ancestors_link.1 hb with hb | ⟨rfl, rfl⟩
  · exact hw a b hb
  · exact ⟨hc, hp⟩

/-- What a step of closing relies on. -/
structure Ready (names : List Key) (h : Hierarchy) : Prop where
  coherent : Coherent h
  rooted : Rooted h
  within : Within names h

theorem Ready.child_declared {names : List Key} {h : Hierarchy} (hr : Ready names h)
    {child parent : Key} (hj : Justified h child parent) : child ∈ h.declared := by
  cases hj with
  | up m hm _ _ _ => exact hr.rooted child m hm
  | down m _ _ hc => exact hr.rooted child m ((hr.coherent.inverse child m).2 hc)

theorem Ready.linkStep {names : List Key} {h h' : Hierarchy} (hr : Ready names h)
    (hs : LinkStep names h h') : Ready names h' := by
  obtain ⟨child, parent, hj, hc, hp⟩ := hs
  refine ⟨hr.coherent.link child parent, fun a b hb => ?_, hr.within.link hc hp⟩
  rw [declared_link]
  rcases mem_ancestors_link.1 hb with hb | ⟨rfl, rfl⟩
  · exact hr.rooted a b hb
  · exact hr.child_declared hj

theorem Ready.linkSteps {names : List Key} {h h' : Hierarchy} (hr : Ready names h)
    (hs : ReflTransGen (LinkStep names) h h') : Ready names h' := by
  induction hs with
  | refl => exact hr
  | tail _ hs ih => exact ih.linkStep hs

theorem mem_foldl_addNew {x : Key} {ks acc : List Key} :
    x ∈ ks.foldl (fun q k => addNew k q) acc ↔ x ∈ acc ∨ x ∈ ks := by
  induction ks generalizing acc with
  | nil => simp
  | cons k ks ih =>
    rw [List.foldl_cons, ih, mem_addNew, List.mem_cons]
    tauto

theorem mem_keys_of_mem_get? {t : Table Key (List Key)} {k x : Key} (hx : x ∈ (t.get? k).getD []) :
    k ∈ t.keys := by
  cases hg : t.get? k with
  | none => simp [hg] at hx
  | some ks => exact Table.mem_keys_of_get? hg

theorem mem_names_of_mem_ancestors {h : Hierarchy} (hc : Coherent h) {a b : Key}
    (hb : b ∈ h.ancestors a) : a ∈ h.names ∧ b ∈ h.names := by
  have ha := (hc.inverse a b).1 hb
  simp only [names, mem_foldl_addNew, List.mem_append]
  exact ⟨Or.inr (Or.inl (mem_keys_of_mem_get? hb)), Or.inr (Or.inr (mem_keys_of_mem_get? ha))⟩

namespace Work

/-- Every name waits or has nothing left to take over. -/
def Covered (w : Work) : Prop := ∀ m, m ∈ w.queue ∨ Absorbs w.hierarchy m

theorem mem_queue_add {w : Work} {child parent m : Key}
    (hnew : parent ∉ w.hierarchy.ancestors child) :
    m ∈ (w.add child parent).queue ↔ m ∈ w.queue ∨
      m ∈ (w.hierarchy.link child parent).descendants child ∨
      m ∈ (w.hierarchy.link child parent).ancestors parent := by
  simp only [add, if_neg hnew, enqueue, mem_foldl_addNew]
  exact or_assoc

theorem add_of_mem {w : Work} {child parent : Key} (hold : parent ∈ w.hierarchy.ancestors child) :
    w.add child parent = w := by
  simp only [add, link, if_pos hold]

/-- Adding a new link covers its child, and uncovers nobody else. -/
theorem covered_add_new {w : Work} (hc : Coherent w.hierarchy) {child parent : Key}
    (hnew : parent ∉ w.hierarchy.ancestors child) (hd : child ∈ w.hierarchy.declared)
    (hw : ∀ m, m ≠ child → m ∈ w.queue ∨ Absorbs w.hierarchy m) :
    (w.add child parent).Covered := by
  intro m
  have hself : child ∈ w.hierarchy.descendants child :=
    (hc.inverse child child).1 (hc.reflexive child hd)
  by_cases hm : m ∈ w.hierarchy.descendants child
  · exact Or.inl ((mem_queue_add hnew).2 (Or.inr (Or.inl (mem_descendants_link_of_mem hm))))
  have hne : m ≠ child := fun he => hm (he ▸ hself)
  rcases hw m hne with hq | ha
  · exact Or.inl ((mem_queue_add hnew).2 (Or.inl hq))
  -- neither `m` nor anything above it is the child, so their ancestors have not changed
  have hsame {x b : Key} (hx : x ≠ child) :
      b ∈ (w.hierarchy.link child parent).ancestors x ↔ b ∈ w.hierarchy.ancestors x := by
    rw [mem_ancestors_link]
    exact or_iff_left fun h => hx h.1
  refine Or.inr fun p hp hpd b hb => ?_
  have hp : p ∈ w.hierarchy.ancestors m := (hsame hne).1 hp
  have hpne : p ≠ child := fun he => hm ((hc.inverse m child).1 (he ▸ hp))
  exact (hsame hne).2 (ha p hp (by rwa [← declared_link]) b ((hsame hpne).1 hb))

theorem covered_add {w : Work} (hc : Coherent w.hierarchy) {child parent : Key}
    (hd : child ∈ w.hierarchy.declared) (hw : w.Covered) : (w.add child parent).Covered := by
  by_cases hold : parent ∈ w.hierarchy.ancestors child
  · rwa [add_of_mem hold]
  · exact covered_add_new hc hold hd fun m _ => hw m

theorem covered_addGains {names : List Key} {w : Work} (hr : Ready names w.hierarchy) {n : Key}
    {ks : List Key} (hks : ∀ b ∈ ks, Justified w.hierarchy n b ∧ n ∈ names ∧ b ∈ names)
    (hw : w.Covered) : (w.addGains n ks).Covered := by
  induction ks generalizing w with
  | nil => exact hw
  | cons b ks ih =>
    obtain ⟨hj, hn, hb⟩ := hks b List.mem_cons_self
    refine ih (w := w.add n b) (hr.linkStep (.mk n b hj hn hb)) (fun x hx => ?_)
      (covered_add hr.coherent (hr.child_declared hj) hw)
    obtain ⟨hj', hx'⟩ := hks x (List.mem_cons_of_mem b hx)
    exact ⟨hj'.link n b, hx'⟩

theorem covered_addHeirs {names : List Key} {w : Work} (hr : Ready names w.hierarchy) {n : Key}
    {ks : List Key} (hks : ∀ d ∈ ks, Justified w.hierarchy d n ∧ d ∈ names ∧ n ∈ names)
    (hw : w.Covered) : (w.addHeirs n ks).Covered := by
  induction ks generalizing w with
  | nil => exact hw
  | cons d ks ih =>
    obtain ⟨hj, hd, hn⟩ := hks d List.mem_cons_self
    refine ih (w := w.add d n) (hr.linkStep (.mk d n hj hd hn)) (fun x hx => ?_)
      (covered_add hr.coherent (hr.child_declared hj) hw)
    obtain ⟨hj', hx'⟩ := hks x (List.mem_cons_of_mem d hx)
    exact ⟨hj'.link d n, hx'⟩

/-- What is above a declared parent of `n` is above `n` already or will be. -/
theorem mem_gains_of_declared {names : List Key} {h : Hierarchy} (hw : Within names h) {n p b : Key}
    (hp : p ∈ h.ancestors n) (hpd : p ∈ h.declared) (hb : b ∈ h.ancestors p) :
    b ∈ h.ancestors n ∨ b ∈ gains names h n := by
  by_cases hpn : p = n
  · exact Or.inl (hpn ▸ hb)
  by_cases hbn : b ∈ h.ancestors n
  · exact Or.inl hbn
  exact Or.inr (mem_gains.2 ⟨⟨p, hp, hpn, hpd, hb⟩, hbn, (hw n p hp).1, (hw p b hb).2⟩)

/-- A name that gains nothing has nothing left to take over. -/
theorem absorbs_of_gains_eq_nil {names : List Key} {h : Hierarchy} (hw : Within names h) {n : Key}
    (hg : gains names h n = []) : Absorbs h n := by
  intro p hp hpd b hb
  refine (mem_gains_of_declared hw hp hpd hb).resolve_right ?_
  rw [hg]
  exact List.not_mem_nil

/-- A turn covers the name whose turn it is. -/
theorem covered_turn {names : List Key} {w : Work} (hr : Ready names w.hierarchy) {n : Key}
    (hw : ∀ m, m ≠ n → m ∈ w.queue ∨ Absorbs w.hierarchy m) : (turn names w n).Covered := by
  have hgains : (w.addGains n (gains names w.hierarchy n)).Covered := by
    cases hg : gains names w.hierarchy n with
    | nil =>
      intro m
      by_cases hm : m = n
      · subst hm
        exact Or.inr (absorbs_of_gains_eq_nil hr.within hg)
      · exact hw m hm
    | cons b ks =>
      have hks : ∀ x ∈ b :: ks, Justified w.hierarchy n x ∧ n ∈ names ∧ x ∈ names :=
        fun x hx => justified_of_mem_gains (hg ▸ hx)
      obtain ⟨hj, hn, hb⟩ := hks b List.mem_cons_self
      have hnew : b ∉ w.hierarchy.ancestors n := (mem_gains.1 (hg ▸ List.mem_cons_self)).2.1
      refine covered_addGains (w := w.add n b) (hr.linkStep (.mk n b hj hn hb)) (fun x hx => ?_)
        (covered_add_new hr.coherent hnew (hr.child_declared hj) hw)
      obtain ⟨hj', hx'⟩ := hks x (List.mem_cons_of_mem b hx)
      exact ⟨hj'.link n b, hx'⟩
  exact covered_addHeirs (hr.linkSteps (w.addGains_linkSteps n _ fun _ => justified_of_mem_gains))
    (fun _ => justified_of_mem_heirs) hgains

/-- When nobody waits any more, every name has taken over what it can. -/
theorem absorbs_settle {names : List Key} (w : Work) (hr : Ready names w.hierarchy)
    (hw : w.Covered) (n : Key) : Absorbs (settle names w) n := by
  fun_induction settle names w with
  | case1 h => exact (hw n).resolve_left List.not_mem_nil
  | case2 h m rest ih =>
    have hr' := hr.linkSteps (turn_linkSteps names ⟨h, rest⟩ m)
    refine ih hr' (covered_turn (w := ⟨h, rest⟩) hr fun x hx => ?_)
    exact (hw x).imp_left fun hq => (List.mem_cons.1 hq).resolve_left hx

end Work

theorem absorbs_close {h : Hierarchy} (hc : Coherent h) (hr : Rooted h) (n : Key) :
    Absorbs h.close n := by
  refine Work.absorbs_settle ⟨h, h.above.keys⟩
    ⟨hc, hr, fun _ _ => mem_names_of_mem_ancestors hc⟩ (fun m => ?_) n
  by_cases hm : m ∈ h.above.keys
  · exact Or.inl hm
  · exact Or.inr fun p hp => absurd (mem_keys_of_mem_get? hp) hm

/-- A call that changes a hierarchy, with names as they are written. -/
inductive Edit where
  | declare (name : String)
  | edge (child parent : String)
  | edges (child : String) (parents : List String)
  | close

namespace Edit

def apply (h : Hierarchy) : Edit → Hierarchy
  | declare name => h.declare (Key.of name)
  | edge child parent => h.link (Key.of child) (Key.of parent)
  | edges child parents => h.linkAll (Key.of child) (parents.map Key.of)
  | close => h.close

/-- The hierarchy after some calls. -/
def run (h : Hierarchy) (es : List Edit) : Hierarchy := es.foldl apply h

/-- The edges that a call records. -/
def recorded : Edit → List (Key × Key)
  | edge child parent => [(Key.of child, Key.of parent)]
  | edges child parents => parents.map fun p => (Key.of child, Key.of p)
  | declare _ | close => []

def declared : Edit → List Key
  | declare name => [Key.of name]
  | edge .. | edges .. | close => []

end Edit

/-- Some call records an edge from `a` to `b`. -/
def Recorded (es : List Edit) (a b : Key) : Prop := ∃ e ∈ es, (a, b) ∈ e.recorded

/-- Some call declares `a`. -/
def Declares (es : List Edit) (a : Key) : Prop := ∃ e ∈ es, a ∈ e.declared

/-- `b` is the declared name `a` itself, or a chain of edges leads from `a` to `b`. -/
def Leads (es : List Edit) (a b : Key) : Prop :=
  (a = b ∧ Declares es a) ∨ TransGen (Recorded es) a b

theorem Leads.trans {es : List Edit} {a b c : Key} (hab : Leads es a b) (hbc : Leads es b c) :
    Leads es a c := by
  rcases hab with ⟨rfl, -⟩ | hab
  · exact hbc
  · rcases hbc with ⟨rfl, -⟩ | hbc
    · exact Or.inr hab
    · exact Or.inr (hab.trans hbc)

theorem Recorded.append {es : List Edit} {a b : Key} (h : Recorded es a b) (es' : List Edit) :
    Recorded (es ++ es') a b :=
  let ⟨e, he, hab⟩ := h
  ⟨e, List.mem_append_left es' he, hab⟩

theorem Leads.append {es : List Edit} {a b : Key} (h : Leads es a b) (es' : List Edit) :
    Leads (es ++ es') a b := by
  rcases h with ⟨rfl, e, he, ha⟩ | h
  · exact Or.inl ⟨rfl, e, List.mem_append_left es' he, ha⟩
  · exact Or.inr (TransGen.mono (fun _ _ hr => Recorded.append hr es') _ _ h)

theorem recorded_concat {es : List Edit} {e : Edit} {a b : Key} :
    Recorded (es ++ [e]) a b ↔ Recorded es a b ∨ (a, b) ∈ e.recorded := by
  simp [Recorded, or_and_right, exists_or]

theorem declares_concat {es : List Edit} {e : Edit} {a : Key} :
    Declares (es ++ [e]) a ↔ Declares es a ∨ a ∈ e.declared := by
  simp [Declares, or_and_right, exists_or]

/-- A hierarchy holds what some calls recorded, and nothing that does not follow from it. -/
structure Reflects (es : List Edit) (h : Hierarchy) : Prop where
  coherent : Coherent h
  declared : ∀ k, k ∈ h.declared ↔ Declares es k
  linked : ∀ a b, Recorded es a b → b ∈ h.ancestors a
  sound : ∀ a b, b ∈ h.ancestors a → Leads es a b

theorem reflects_nil : Reflects [] .empty where
  coherent := coherent_empty
  declared k := by simp [Declares, empty]
  linked a b h := by simp [Recorded] at h
  sound a b hb := absurd hb List.not_mem_nil

/-- A justified link follows from what was recorded. -/
theorem Reflects.leads_of_justified {es : List Edit} {h : Hierarchy} (hr : Reflects es h)
    {child parent : Key} (hj : Justified h child parent) : Leads es child parent := by
  cases hj with
  | up m hm _ _ hp => exact (hr.sound child m hm).trans (hr.sound m parent hp)
  | down m hm _ hc =>
    have hm := (hr.coherent.inverse m parent).2 hm
    have hc := (hr.coherent.inverse child m).2 hc
    exact (hr.sound child m hc).trans (hr.sound m parent hm)

theorem Reflects.close {es : List Edit} {h : Hierarchy} (hr : Reflects es h) :
    Reflects es h.close := by
  refine close_preserves hr fun g child parent hg hj => ?_
  refine ⟨hg.coherent.link child parent, fun k => ?_, fun a b hab => ?_, fun a b hb => ?_⟩
  · rw [declared_link, hg.declared]
  · exact mem_ancestors_link.2 (Or.inl (hg.linked a b hab))
  · rcases mem_ancestors_link.1 hb with hb | ⟨rfl, rfl⟩
    · exact hg.sound a b hb
    · exact hg.leads_of_justified hj

/-- A closing records and declares nothing. -/
theorem Reflects.concat_close {es : List Edit} {h : Hierarchy} (hr : Reflects es h) :
    Reflects (es ++ [.close]) h := by
  refine ⟨hr.coherent, fun k => ?_, fun a b hab => ?_, fun a b hb => ?_⟩
  · rw [hr.declared, declares_concat, Edit.declared]
    exact (or_iff_left List.not_mem_nil).symm
  · exact hr.linked a b ((recorded_concat.1 hab).resolve_right List.not_mem_nil)
  · exact (hr.sound a b hb).append [Edit.close]

theorem Reflects.apply {es : List Edit} {h : Hierarchy} (hr : Reflects es h) (e : Edit) :
    Reflects (es ++ [e]) (e.apply h) := by
  have hold {a b : Key} (hb : b ∈ h.ancestors a) : Leads (es ++ [e]) a b :=
    (hr.sound a b hb).append [e]
  cases e with
  | declare name =>
    refine ⟨hr.coherent.declare _, fun k => ?_, fun a b hab => ?_, fun a b hb => ?_⟩
    · rw [Edit.apply, mem_declared_declare, hr.declared, declares_concat, Edit.declared,
        List.mem_singleton]
    · rw [recorded_concat, Edit.recorded] at hab
      exact mem_ancestors_declare.2 (Or.inl (hr.linked a b (hab.resolve_right List.not_mem_nil)))
    · rcases mem_ancestors_declare.1 hb with hb | ⟨rfl, rfl⟩
      · exact hold hb
      · exact Or.inl ⟨rfl, declares_concat.2 (Or.inr List.mem_cons_self)⟩
  | edge child parent =>
    refine ⟨hr.coherent.link _ _, fun k => ?_, fun a b hab => ?_, fun a b hb => ?_⟩
    · rw [Edit.apply, declared_link, hr.declared, declares_concat, Edit.declared]
      exact (or_iff_left List.not_mem_nil).symm
    · rw [recorded_concat, Edit.recorded, List.mem_singleton, Prod.mk.injEq] at hab
      exact mem_ancestors_link.2 (hab.imp_left (hr.linked a b))
    · rcases mem_ancestors_link.1 hb with hb | ⟨rfl, rfl⟩
      · exact hold hb
      · exact Or.inr (.single (recorded_concat.2 (Or.inr List.mem_cons_self)))
  | edges child parents =>
    refine ⟨hr.coherent.linkAll _ _, fun k => ?_, fun a b hab => ?_, fun a b hb => ?_⟩
    · rw [Edit.apply, declared_linkAll, hr.declared, declares_concat, Edit.declared]
      exact (or_iff_left List.not_mem_nil).symm
    · refine mem_ancestors_linkAll.2 ((recorded_concat.1 hab).imp (hr.linked a b) fun hab => ?_)
      obtain ⟨p, hp, hpe⟩ := List.mem_map.1 hab
      rw [Prod.mk.injEq] at hpe
      exact ⟨hpe.1.symm, hpe.2 ▸ List.mem_map_of_mem hp⟩
    · rcases mem_ancestors_linkAll.1 hb with hb | ⟨rfl, hp⟩
      · exact hold hb
      · obtain ⟨p, hmem, rfl⟩ := List.mem_map.1 hp
        exact Or.inr (.single (recorded_concat.2 (Or.inr (List.mem_map.2 ⟨p, hmem, rfl⟩))))
  | close => exact hr.close.concat_close

theorem Reflects.run {done : List Edit} {h : Hierarchy} (hr : Reflects done h) (es : List Edit) :
    Reflects (done ++ es) (Edit.run h es) := by
  induction es generalizing done h with
  | nil => rwa [List.append_nil]
  | cons e es ih =>
    rw [List.append_cons]
    exact ih (hr.apply e)

theorem reflects_run (baseline edits : List Edit) :
    Reflects (baseline ++ edits) (Edit.run (Edit.run .empty baseline) edits) :=
  (reflects_nil.run baseline).run edits

/-- With every child declared, the first step of a chain goes to a name that passes on what is above
it. -/
theorem mem_ancestors_close_of_chain {es : List Edit} {h : Hierarchy} (hr : Reflects es h)
    (hd : ∀ c p, Recorded es c p → Declares es c) {a b : Key} (hab : TransGen (Recorded es) a b) :
    b ∈ h.close.ancestors a := by
  have hrooted : Rooted h := by
    intro x y hy
    rw [hr.declared]
    rcases hr.sound x y hy with ⟨-, hx⟩ | hx
    · exact hx
    · obtain ⟨z, hxz, -⟩ := TransGen.head'_iff.1 hx
      exact hd x z hxz
  have hclosed := hr.close
  induction hab using TransGen.head_induction_on with
  | single hab => exact hclosed.linked _ _ hab
  | head hac hcb ih =>
    refine absorbs_close hr.coherent hrooted _ _ (hclosed.linked _ _ hac) ?_ _ ih
    obtain ⟨z, hcz, -⟩ := TransGen.head'_iff.1 hcb
    exact (hclosed.declared _).2 (hd _ z hcz)

/-- What stands above a name in the closed hierarchy is what the recorded edges lead to. -/
theorem Reflects.mem_ancestors_close {es : List Edit} {h : Hierarchy} (hr : Reflects es h)
    (hd : ∀ c p, Recorded es c p → Declares es c) {a b : Key} :
    b ∈ h.close.ancestors a ↔ Leads es a b := by
  refine ⟨hr.close.sound a b, ?_⟩
  rintro (⟨rfl, ha⟩ | hab)
  · exact hr.close.coherent.reflexive a ((hr.close.declared a).2 ha)
  · exact mem_ancestors_close_of_chain hr hd hab

/-- Closing gives the transitive closure of the recorded edges, reflexive on declared names, and the
table below is its inverse. The hierarchy may have been started from a baseline with a history of
its own. -/
theorem mem_ancestors_close_iff (baseline edits : List Edit)
    (hd : ∀ c p, Recorded (baseline ++ edits) c p → Declares (baseline ++ edits) c) (a b : Key) :
    (b ∈ (Edit.run (Edit.run .empty baseline) edits).close.ancestors a ↔
      (a = b ∧ Declares (baseline ++ edits) a) ∨
        TransGen (Recorded (baseline ++ edits)) a b) ∧
    (a ∈ (Edit.run (Edit.run .empty baseline) edits).close.descendants b ↔
      b ∈ (Edit.run (Edit.run .empty baseline) edits).close.ancestors a) := by
  have hr := reflects_run baseline edits
  exact ⟨hr.mem_ancestors_close hd, (hr.close.coherent.inverse a b).symm⟩

/-- A circle of two classes, of which one is linked to an undeclared name after a first closing. -/
def circleEdits : List Edit :=
  [.edge "A" "B", .declare "A", .close, .edges "b" ["a", "X"], .declare "B"]

theorem mem_ancestors_close_circle :
    (∀ c p, Recorded ([.declare "Base"] ++ circleEdits) c p →
      Declares ([.declare "Base"] ++ circleEdits) c) ∧
    Key.of "X" ∈ (Edit.run (Edit.run .empty [.declare "Base"]) circleEdits).close.ancestors
      (Key.of "A") ∧
    Key.of "A" ∈ (Edit.run (Edit.run .empty [.declare "Base"]) circleEdits).close.descendants
      (Key.of "X") := by
  have hb : Key.of "b" = Key.of "B" := by decide
  have hd : ∀ c p, Recorded ([.declare "Base"] ++ circleEdits) c p →
      Declares ([.declare "Base"] ++ circleEdits) c := by
    intro c p h
    simp only [Recorded, circleEdits, Edit.recorded, hb, List.cons_append, List.nil_append,
      List.mem_cons, List.not_mem_nil, or_false, exists_eq_or_imp, exists_eq_left, false_or,
      List.map_cons, List.map_nil, Prod.mk.injEq] at h
    rcases h with ⟨rfl, -⟩ | ⟨rfl, -⟩ | ⟨rfl, -⟩
    · exact ⟨.declare "A", by simp [circleEdits], List.mem_cons_self⟩
    · exact ⟨.declare "B", by simp [circleEdits], List.mem_cons_self⟩
    · exact ⟨.declare "B", by simp [circleEdits], List.mem_cons_self⟩
  have hAB : Recorded ([.declare "Base"] ++ circleEdits) (Key.of "A") (Key.of "B") := by
    simp [Recorded, circleEdits, Edit.recorded]
  have hBX : Recorded ([.declare "Base"] ++ circleEdits) (Key.of "B") (Key.of "X") := by
    simp [Recorded, circleEdits, Edit.recorded, hb]
  have h := mem_ancestors_close_iff [.declare "Base"] circleEdits hd (Key.of "A") (Key.of "X")
  have hX := h.1.2 (Or.inr (.tail (.single hAB) hBX))
  exact ⟨hd, hX, h.2.2 hX⟩

end TypeRecovery.Hierarchy
