import TypeRecovery.Proofs.Turns

/-!
# Names that are not declared

A closing takes over what is above a declared parent, but hands a name down through every child,
declared or not. So what a closing puts above a name depends on who has waited for a turn. A name
that has waited is put above everything from which some chain of links leads to it. A name that has
never waited is put above another one only if the last link of the chain comes from a declared name.

Every name with something above it waits from the start. A name with nothing above it waits only if
a new link is added below it, which may or may not happen.
-/
namespace TypeRecovery.Hierarchy
open Relation

/-- Some chain of links leads up from `a` to `b`. -/
def Joined (h : Hierarchy) : Key → Key → Prop := TransGen fun x y => y ∈ h.ancestors x

/-- `b` is above `a`, or above a declared name that a chain of links leads to. -/
def Certain (h : Hierarchy) (a b : Key) : Prop :=
  b ∈ h.ancestors a ∨ ∃ m ∈ h.declared, Joined h a m ∧ b ∈ h.ancestors m

/-- What is certain above a declared name is certain above everything below it. -/
theorem Certain.of_joined {h : Hierarchy} {a p b : Key} (hap : Joined h a p) (hp : p ∈ h.declared)
    (hpb : Certain h p b) : Certain h a b := by
  rcases hpb with hpb | ⟨m, hm, hpm, hmb⟩
  · exact Or.inr ⟨p, hp, hap, hpb⟩
  · exact Or.inr ⟨m, hm, hap.trans hpm, hmb⟩

theorem joined_of_justified {h g : Hierarchy} (hc : Coherent g)
    (hg : ∀ a b, b ∈ g.ancestors a → Joined h a b) {child parent : Key}
    (hj : Justified g child parent) : Joined h child parent := by
  cases hj with
  | up m hm _ _ hp => exact (hg child m hm).trans (hg m parent hp)
  | down m hm _ hd =>
    have hm := (hc.inverse m parent).2 hm
    have hd := (hc.inverse child m).2 hd
    exact (hg child m hd).trans (hg m parent hm)

theorem joined_of_linkSteps {names : List Key} {h g g' : Hierarchy} (hc : Coherent g)
    (hg : ∀ a b, b ∈ g.ancestors a → Joined h a b) (hs : ReflTransGen (LinkStep names) g g') :
    ∀ a b, b ∈ g'.ancestors a → Joined h a b := by
  induction hs with
  | refl => exact hg
  | tail hs hlink ih =>
    obtain ⟨child, parent, hj, -, -⟩ := hlink
    intro a b hb
    rcases mem_ancestors_link.1 hb with hb | ⟨rfl, rfl⟩
    · exact ih a b hb
    · exact joined_of_justified (hc.linkSteps hs) ih hj

namespace Work

/-- Turns lead from `w` to the hierarchy `g`, with no name left waiting. The names that wait before
some turn are collected in `ks`. -/
inductive Turns (names : List Key) : Work → List Key → Hierarchy → Prop
  | done (g : Hierarchy) : Turns names ⟨g, []⟩ [] g
  | turn {w w' : Work} {ks : List Key} {g : Hierarchy} (ht : Turn names w w')
      (hs : Turns names w' ks g) : Turns names w (w.queue ++ ks) g

theorem Turns.mem_of_mem_queue {names : List Key} {w : Work} {ks : List Key} {g : Hierarchy}
    (hs : Turns names w ks g) {b : Key} (hb : b ∈ w.queue) : b ∈ ks := by
  cases hs with
  | done => exact absurd hb List.not_mem_nil
  | turn _ _ => exact List.mem_append_left _ hb

theorem exists_turns {names : List Key} {w w' : Work} (h : ReflTransGen (Turn names) w w')
    (hdone : w'.queue = []) : ∃ ks, Turns names w ks w'.hierarchy := by
  induction h using ReflTransGen.head_induction_on with
  | refl =>
    obtain ⟨g, queue⟩ := w'
    obtain rfl : queue = [] := hdone
    exact ⟨[], .done g⟩
  | head hturn _ ih =>
    obtain ⟨ks, hs⟩ := ih
    exact ⟨_, .turn hturn hs⟩

/-- What holds at every moment of a closing of `h`. -/
structure Amid (h : Hierarchy) (w : Work) : Prop where
  coherent : Coherent w.hierarchy
  within : Within h.names w.hierarchy
  declared : w.hierarchy.declared = h.declared
  keeps : Extends h w.hierarchy
  joined : ∀ a b, b ∈ w.hierarchy.ancestors a → Joined h a b

variable {h : Hierarchy} {w w' : Work} {n : Key} {rest : List Key} {ls : List (Key × Key)}
  {ks : List Key} {g : Hierarchy}

theorem amid_start (hc : Coherent h) : Amid h ⟨h, h.above.keys⟩ where
  coherent := hc
  within _ _ hb := mem_names_of_mem_ancestors hc hb
  declared := rfl
  keeps := Extends.refl h
  joined _ _ hb := .single hb

theorem Amid.turn (ha : Amid h w) (hs : TurnSpec h.names w n rest ls w') : Amid h w' where
  coherent := ha.coherent.linkSteps hs.steps
  within := ha.within.linkSteps hs.steps
  declared := (declared_linkSteps hs.steps).trans ha.declared
  keeps := ha.keeps.trans (extends_linkSteps hs.steps)
  joined := joined_of_linkSteps ha.coherent ha.joined hs.steps

theorem Amid.turns (ha : Amid h w) (hs : Turns h.names w ks g) : Amid h ⟨g, []⟩ := by
  induction hs with
  | done g => exact ha
  | turn ht _ ih =>
    obtain ⟨n, rest, ls, hspec⟩ := ht.spec ha.coherent ha.within
    exact ih (ha.turn hspec)

/-- Whatever has `c` above it has `b` above it too, unless a name waits whose turn will see to
it. -/
def Due (h : Hierarchy) (c b : Key) (w : Work) : Prop :=
  ∀ x, c ∈ w.hierarchy.ancestors x →
    b ∈ w.hierarchy.ancestors x ∨ b ∈ w.queue ∨ (c ∈ h.declared ∧ x ∈ w.queue)

theorem due_of_waits {c b : Key} (hb : b ∈ w.queue) : Due h c b w := fun _ _ => Or.inr (Or.inl hb)

theorem Due.turn {c b : Key} (hd : Due h c b w) (hcb : b ∈ h.ancestors c) (ha : Amid h w)
    (hs : TurnSpec h.names w n rest ls w') : Due h c b w' := by
  have hcb := ha.keeps c b hcb
  intro x hx
  rcases hs.mem_ancestors.1 hx with hold | hnew
  · rcases hd x hold with hb | hb | ⟨hc, hq⟩
    · exact Or.inl (hs.mem_ancestors.2 (Or.inl hb))
    · rcases hs.mem_queue_of_mem hb with rfl | hb
      · exact Or.inl (hs.passes c x hcb hx)
      · exact Or.inr (Or.inl hb)
    · rcases hs.mem_queue_of_mem hq with rfl | hq
      · exact Or.inl (hs.takes c hold (ha.declared ▸ hc) b hcb)
      · exact Or.inr (Or.inr ⟨hc, hq⟩)
  · -- the link from `x` to `c` is new, so `b` joins the queue
    exact Or.inr (Or.inl (hs.mem_queue_of_new hnew hcb))

theorem Due.turns {c b : Key} (hd : Due h c b w) (hcb : b ∈ h.ancestors c) (ha : Amid h w)
    (hs : Turns h.names w ks g) {x : Key} (hx : c ∈ g.ancestors x) : b ∈ g.ancestors x := by
  induction hs with
  | done g => simpa using hd x hx
  | turn ht _ ih =>
    obtain ⟨n, rest, ls, hspec⟩ := ht.spec ha.coherent ha.within
    exact ih (hd.turn hcb ha hspec) (ha.turn hspec) hx

/-- From the moment a name waits, it is due above everything that has a name below it above. -/
theorem Turns.mem_ancestors_of_waits {c b : Key} (hs : Turns h.names w ks g) (ha : Amid h w)
    (hcb : b ∈ h.ancestors c) (hb : b ∈ ks) {x : Key} (hx : c ∈ g.ancestors x) :
    b ∈ g.ancestors x := by
  induction hs with
  | done g => exact absurd hb List.not_mem_nil
  | turn ht hs ih =>
    rcases List.mem_append.1 hb with hb | hb
    · exact (due_of_waits hb).turns hcb ha (.turn ht hs) hx
    · obtain ⟨n, rest, ls, hspec⟩ := ht.spec ha.coherent ha.within
      exact ih (ha.turn hspec) hb hx

/-- Links to a name that does not wait come from the pass through declared parents. -/
theorem TurnSpec.certain {b : Key} (hs : TurnSpec h.names w n rest ls w') (ha : Amid h w)
    (hb : b ∉ w.queue) (hold : ∀ a, b ∈ w.hierarchy.ancestors a → Certain h a b) :
    ∀ a, b ∈ w'.hierarchy.ancestors a → Certain h a b := by
  intro a hab
  rcases hs.mem_ancestors.1 hab with hab | hab
  · exact hold a hab
  · rcases hs.only a b hab with ⟨rfl, p, hp, hd, hpb⟩ | rfl
    · exact .of_joined (ha.joined a p hp) (ha.declared ▸ hd) (hold p hpb)
    · exact absurd (hs.waiting.mem_iff.2 List.mem_cons_self) hb

theorem Turns.certain {b : Key} (hs : Turns h.names w ks g) (ha : Amid h w) (hb : b ∉ ks)
    (hold : ∀ a, b ∈ w.hierarchy.ancestors a → Certain h a b) :
    ∀ a, b ∈ g.ancestors a → Certain h a b := by
  induction hs with
  | done g => exact hold
  | turn ht _ ih =>
    rw [List.mem_append, not_or] at hb
    obtain ⟨n, rest, ls, hspec⟩ := ht.spec ha.coherent ha.within
    exact ih (ha.turn hspec) hb.2 (hspec.certain ha hb.1 hold)

/-- A new link lets everything wait that is above its parent. -/
theorem Turns.mem_of_new {x y b : Key} (hs : Turns h.names w ks g) (ha : Amid h w)
    (hnew : y ∉ w.hierarchy.ancestors x) (hy : y ∈ g.ancestors x) (hb : b ∈ h.ancestors y) :
    b ∈ ks := by
  induction hs with
  | done g => exact absurd hy hnew
  | @turn w w' ks g ht hs ih =>
    obtain ⟨n, rest, ls, hspec⟩ := ht.spec ha.coherent ha.within
    apply List.mem_append_right
    by_cases hnow : y ∈ w'.hierarchy.ancestors x
    · have hl := (hspec.mem_ancestors.1 hnow).resolve_left hnew
      exact hs.mem_of_mem_queue (hspec.mem_queue_of_new hl (ha.keeps y b hb))
    · exact ih (ha.turn hspec) hnow hy

/-- A name with nothing above it waits only on account of a new link from which it is certain. -/
theorem Turns.exists_new {b : Key} (hs : Turns h.names w ks g) (ha : Amid h w) (hb : b ∈ ks)
    (hbare : ∀ c, c ∉ h.ancestors b) (hq : b ∉ w.queue)
    (hold : ∀ a, b ∈ w.hierarchy.ancestors a → Certain h a b) :
    ∃ x y, Joined h x y ∧ y ∉ h.ancestors x ∧ Certain h y b := by
  induction hs with
  | done g => exact absurd hb List.not_mem_nil
  | @turn w w' ks g ht _ ih =>
    obtain ⟨n, rest, ls, hspec⟩ := ht.spec ha.coherent ha.within
    have ha' := ha.turn hspec
    have hcertain := hspec.certain ha hq hold
    by_cases hq' : b ∈ w'.queue
    · obtain ⟨x, y, hl, hnew, hxy⟩ := (hspec.mem_queue_cases hq').resolve_left hq
      refine ⟨x, y, ha'.joined x y (hspec.mem_ancestors.2 (Or.inr hl)), ?_, ?_⟩
      · exact fun hy => hnew (ha.keeps x y hy)
      · rcases hxy with hx | hy
        · -- below the child of the new link, so there would be something above it
          have hx := ha'.joined b x ((ha'.coherent.inverse b x).2 hx)
          obtain ⟨c, hc, -⟩ := TransGen.head'_iff.1 hx
          exact absurd hc (hbare c)
        · exact hcertain y hy
    · exact ih ha' ((List.mem_append.1 hb).resolve_left hq) hq' hcertain

end Work

/-- A closing of `h`, in some order, ends in `g`, and `ks` are the names that have waited. -/
def Closes (h : Hierarchy) (ks : List Key) (g : Hierarchy) : Prop :=
  Work.Turns h.names ⟨h, h.above.keys⟩ ks g

theorem exists_closes_close (h : Hierarchy) : ∃ ks, Closes h ks h.close := by
  obtain ⟨w, hturns, hdone, hend⟩ := Work.turns_settle h.names ⟨h, h.above.keys⟩
  obtain ⟨ks, hs⟩ := Work.exists_turns hturns hdone
  rw [hend] at hs
  exact ⟨ks, hs⟩

namespace Closes

variable {h g : Hierarchy} {ks : List Key} {a b c : Key}

theorem amid (hg : Closes h ks g) (hc : Coherent h) : Work.Amid h ⟨g, []⟩ :=
  (Work.amid_start hc).turns hg

theorem joined (hg : Closes h ks g) (hc : Coherent h) (hab : b ∈ g.ancestors a) : Joined h a b :=
  (hg.amid hc).joined a b hab

/-- A name with something above it waits. -/
theorem waits_of_mem_ancestors (hg : Closes h ks g) (hb : c ∈ h.ancestors b) : b ∈ ks :=
  Work.Turns.mem_of_mem_queue hg (mem_keys_of_mem_get? hb)

/-- A name that waits is put above whatever a chain of links leads up from. Every other name on the
chain has something above it, so it waits too. -/
theorem mem_ancestors_of_joined (hg : Closes h ks g) (hc : Coherent h) (hb : b ∈ ks)
    (hab : Joined h a b) : b ∈ g.ancestors a := by
  induction hab with
  | single hab => exact (hg.amid hc).keeps _ _ hab
  | tail _ hcb ih =>
    have hx := ih (hg.waits_of_mem_ancestors hcb)
    exact Work.Turns.mem_ancestors_of_waits hg (Work.amid_start hc) hcb hb hx

theorem mem_ancestors_of_certain (hg : Closes h ks g) (hc : Coherent h) (hab : Certain h a b) :
    b ∈ g.ancestors a := by
  rcases hab with hab | ⟨m, hm, ham, hmb⟩
  · exact (hg.amid hc).keeps a b hab
  · have ham := hg.mem_ancestors_of_joined hc (hg.waits_of_mem_ancestors hmb) ham
    have hdue : Work.Due h m b ⟨h, h.above.keys⟩ := fun x hx =>
      Or.inr (Or.inr ⟨hm, mem_keys_of_mem_get? hx⟩)
    exact hdue.turns hmb (Work.amid_start hc) hg ham

theorem mem_ancestors_iff_joined (hg : Closes h ks g) (hc : Coherent h) (hb : b ∈ ks) :
    b ∈ g.ancestors a ↔ Joined h a b :=
  ⟨hg.joined hc, hg.mem_ancestors_of_joined hc hb⟩

theorem mem_ancestors_iff_certain (hg : Closes h ks g) (hc : Coherent h) (hb : b ∉ ks) :
    b ∈ g.ancestors a ↔ Certain h a b := by
  refine ⟨fun hab => ?_, hg.mem_ancestors_of_certain hc⟩
  exact Work.Turns.certain hg (Work.amid_start hc) hb (fun _ => Or.inl) a hab

/-- A name above the end of a chain that is not a link yet waits. -/
theorem waits_of_joined (hg : Closes h ks g) (hc : Coherent h) (hac : Joined h a c)
    (hnew : c ∉ h.ancestors a) (hb : b ∈ h.ancestors c) : b ∈ ks := by
  have hac := hg.mem_ancestors_of_joined hc (hg.waits_of_mem_ancestors hb) hac
  exact Work.Turns.mem_of_new hg (Work.amid_start hc) hnew hac hb

theorem exists_new_of_waits (hg : Closes h ks g) (hc : Coherent h) (hb : b ∈ ks)
    (hkey : b ∉ h.above.keys) : ∃ x y, Joined h x y ∧ y ∉ h.ancestors x ∧ Certain h y b := by
  have hbare : ∀ c, c ∉ h.ancestors b := fun c hbc => hkey (mem_keys_of_mem_get? hbc)
  exact Work.Turns.exists_new hg (Work.amid_start hc) hb hbare hkey fun _ => Or.inl

end Closes

instance (es : List Edit) (a b : Key) : Decidable (Recorded es a b) :=
  inferInstanceAs (Decidable (∃ e ∈ es, (a, b) ∈ e.recorded))

instance (es : List Edit) (a : Key) : Decidable (Declares es a) :=
  inferInstanceAs (Decidable (∃ e ∈ es, a ∈ e.declared))

/-- A chain of recorded edges on which every name between the two ends is declared. -/
inductive DeclaredChain (es : List Edit) (a : Key) : Key → Prop
  | edge {b : Key} (hab : Recorded es a b) : DeclaredChain es a b
  | step {m b : Key} (ham : DeclaredChain es a m) (hm : Declares es m) (hmb : Recorded es m b) :
      DeclaredChain es a b

/-- A chain of recorded edges that is a single edge or whose last edge goes up from a declared
name. -/
def Supported (es : List Edit) (a b : Key) : Prop :=
  Recorded es a b ∨ ∃ m, Declares es m ∧ TransGen (Recorded es) a m ∧ Recorded es m b

theorem DeclaredChain.transGen {es : List Edit} {a b : Key} (hab : DeclaredChain es a b) :
    TransGen (Recorded es) a b := by
  induction hab with
  | edge hab => exact .single hab
  | step _ _ hmb ih => exact ih.tail hmb

theorem DeclaredChain.supported {es : List Edit} {a b : Key} (hab : DeclaredChain es a b) :
    Supported es a b := by
  cases hab with
  | edge hab => exact Or.inl hab
  | step ham hm hmb => exact Or.inr ⟨_, hm, ham.transGen, hmb⟩

theorem Supported.append {es : List Edit} {a b : Key} (hab : Supported es a b) (es' : List Edit) :
    Supported (es ++ es') a b := by
  rcases hab with hab | ⟨m, ⟨e, he, hm⟩, ham, hmb⟩
  · exact Or.inl (hab.append es')
  · have ham := TransGen.mono (fun _ _ hr => Recorded.append hr es') _ _ ham
    exact Or.inr ⟨m, ⟨e, List.mem_append_left es' he, hm⟩, ham, hmb.append es'⟩

theorem Supported.of_transGen {es : List Edit} {a m b : Key} (hmb : Supported es m b)
    (ham : TransGen (Recorded es) a m) (hm : Declares es m) : Supported es a b := by
  rcases hmb with hmb | ⟨k, hk, hmk, hkb⟩
  · exact Or.inr ⟨m, hm, ham, hmb⟩
  · exact Or.inr ⟨k, hk, ham.trans hmk, hkb⟩

/-- A call other than closing adds what it records and what it declares. -/
theorem mem_ancestors_apply {h : Hierarchy} {e : Edit} (he : e ≠ .close) {a b : Key} :
    b ∈ (e.apply h).ancestors a ↔
      b ∈ h.ancestors a ∨ (a, b) ∈ e.recorded ∨ (a = b ∧ a ∈ e.declared) := by
  cases e with
  | declare name =>
    simp only [Edit.apply, mem_ancestors_declare, Edit.recorded, Edit.declared, List.not_mem_nil,
      List.mem_singleton, false_or]
    refine or_congr_right ⟨?_, ?_⟩
    · rintro ⟨rfl, rfl⟩
      exact ⟨rfl, rfl⟩
    · rintro ⟨rfl, rfl⟩
      exact ⟨rfl, rfl⟩
  | edge child parent =>
    simp [Edit.apply, mem_ancestors_link, Edit.recorded, Edit.declared]
  | edges child parents =>
    simp only [Edit.apply, mem_ancestors_linkAll, Edit.recorded, Edit.declared, List.mem_map,
      List.not_mem_nil, and_false, or_false, Prod.mk.injEq]
    refine or_congr_right ⟨?_, ?_⟩
    · rintro ⟨rfl, p, hp, rfl⟩
      exact ⟨p, hp, rfl, rfl⟩
    · rintro ⟨p, hp, rfl, rfl⟩
      exact ⟨rfl, p, hp, rfl⟩
  | close => exact absurd rfl he

/-- The calls `es`, with closings in any order of turns, make the hierarchy `h`. The names that have
waited in some closing are `ks`. -/
inductive History : List Edit → List Key → Hierarchy → Prop
  | nil : History [] [] .empty
  | edit {es : List Edit} {ks : List Key} {h : Hierarchy} {e : Edit} (hh : History es ks h)
      (he : e ≠ .close) : History (es ++ [e]) ks (e.apply h)
  | close {es : List Edit} {ks ls : List Key} {h g : Hierarchy} (hh : History es ks h)
      (hg : Closes h ls g) : History (es ++ [.close]) (ks ++ ls) g

theorem Reflects.leads_of_joined {es : List Edit} {h : Hierarchy} (hr : Reflects es h) {a b : Key}
    (hab : Joined h a b) : Leads es a b := by
  induction hab with
  | single hab => exact hr.sound _ _ hab
  | tail _ hcb ih => exact ih.trans (hr.sound _ _ hcb)

theorem Reflects.joined {es : List Edit} {h : Hierarchy} (hr : Reflects es h) {a b : Key}
    (hab : TransGen (Recorded es) a b) : Joined h a b := TransGen.mono hr.linked _ _ hab

theorem Reflects.closes {es : List Edit} {h g : Hierarchy} {ks : List Key} (hr : Reflects es h)
    (hg : Closes h ks g) : Reflects es g where
  coherent := (hg.amid hr.coherent).coherent
  declared k := by rw [(hg.amid hr.coherent).declared, hr.declared]
  linked a b hab := (hg.amid hr.coherent).keeps a b (hr.linked a b hab)
  sound _ _ hab := hr.leads_of_joined (hg.joined hr.coherent hab)

theorem Reflects.certain {es : List Edit} {h : Hierarchy} (hr : Reflects es h) {a b : Key}
    (hab : Supported es a b) : Certain h a b := by
  rcases hab with hab | ⟨m, hm, ham, hmb⟩
  · exact Or.inl (hr.linked a b hab)
  · exact Or.inr ⟨m, (hr.declared m).2 hm, hr.joined ham, hr.linked m b hmb⟩

/-- A name that is declared, or that an edge goes up from, waits in every closing. -/
theorem Reflects.waits {es : List Edit} {h g : Hierarchy} {ks : List Key} (hr : Reflects es h)
    (hg : Closes h ks g) {b : Key} (hb : Declares es b ∨ ∃ c, Recorded es b c) : b ∈ ks := by
  rcases hb with hb | ⟨c, hbc⟩
  · exact hg.waits_of_mem_ancestors (hr.coherent.reflexive b ((hr.declared b).2 hb))
  · exact hg.waits_of_mem_ancestors (hr.linked b c hbc)

/-- A closing in which a name does not wait puts it only where its last edge allows it. -/
theorem Reflects.supported_of_closes {es : List Edit} {h g : Hierarchy} {ks : List Key}
    (hr : Reflects es h) (hg : Closes h ks g) {b : Key} (hb : b ∉ ks)
    (hold : ∀ x, x ≠ b → b ∈ h.ancestors x → Supported es x b) {a : Key} (hne : a ≠ b)
    (hab : b ∈ g.ancestors a) : Supported es a b := by
  rcases (hg.mem_ancestors_iff_certain hr.coherent hb).1 hab with hab | ⟨m, hm, ham, hmb⟩
  · exact hold a hne hab
  · have hm := (hr.declared m).1 hm
    have hmb := hold m (fun he => hb (hr.waits hg (Or.inl (he ▸ hm)))) hmb
    rcases hr.leads_of_joined ham with ⟨rfl, -⟩ | ham
    · exact hmb
    · exact hmb.of_transGen ham hm

namespace History

variable {es : List Edit} {ks ls : List Key} {h g : Hierarchy} {a b : Key}

theorem reflects (hh : History es ks h) : Reflects es h := by
  induction hh with
  | nil => exact reflects_nil
  | edit _ _ ih => exact ih.apply _
  | close _ hg ih => exact (ih.closes hg).concat_close

/-- Calls as they run continue a history. -/
theorem exists_run (hh : History es ks h) (es' : List Edit) :
    ∃ ks', History (es ++ es') ks' (Edit.run h es') := by
  induction es' generalizing es ks h with
  | nil =>
    rw [List.append_nil]
    exact ⟨ks, hh⟩
  | cons e es' ih =>
    rw [List.append_cons]
    cases e with
    | close =>
      obtain ⟨ls, hg⟩ := exists_closes_close h
      exact ih (.close hh hg)
    | _ => exact ih (.edit hh (by simp))

/-- What is above a name that has never waited has its last edge from a declared name. -/
theorem supported (hh : History es ks h) (hb : b ∉ ks) (hne : a ≠ b) (hab : b ∈ h.ancestors a) :
    Supported es a b := by
  induction hh generalizing a with
  | nil => exact absurd hab List.not_mem_nil
  | edit hh he ih =>
    rcases (mem_ancestors_apply he).1 hab with hab | hab | ⟨rfl, -⟩
    · exact (ih hb hne hab).append _
    · exact Or.inl (recorded_concat.2 (Or.inr hab))
    · exact absurd rfl hne
  | close hh hg ih =>
    rw [List.mem_append, not_or] at hb
    exact (hh.reflects.supported_of_closes hg hb.2 (fun _ => ih hb.1) hne hab).append _

end History

/-- What a closing puts above a name, after any calls and in any order of turns. A chain through
declared names always counts, and nothing counts without a chain. To a name that waits every chain
counts, whether the names on it are declared or not; so it is for a name that is declared or that an
edge goes up from. To a name that has never waited a chain counts if its last edge goes up from a
declared name. -/
theorem mem_ancestors_of_history {es : List Edit} {ks ls : List Key} {h g : Hierarchy}
    (hh : History es ks h) (hg : Closes h ls g) {a b : Key} (hne : a ≠ b) :
    (DeclaredChain es a b → b ∈ g.ancestors a) ∧
    (b ∈ g.ancestors a → TransGen (Recorded es) a b) ∧
    ((Declares es b ∨ ∃ c, Recorded es b c) ∨ b ∈ ls →
      (b ∈ g.ancestors a ↔ TransGen (Recorded es) a b)) ∧
    (b ∉ ks ++ ls → (b ∈ g.ancestors a ↔
      Recorded es a b ∨ ∃ m, Declares es m ∧ TransGen (Recorded es) a m ∧ Recorded es m b)) := by
  have hr := hh.reflects
  have hchain (hab : b ∈ g.ancestors a) : TransGen (Recorded es) a b :=
    ((hr.closes hg).sound a b hab).resolve_left fun hself => hne hself.1
  have hsupported (hab : Supported es a b) : b ∈ g.ancestors a :=
    hg.mem_ancestors_of_certain hr.coherent (hr.certain hab)
  refine ⟨fun hab => hsupported hab.supported, hchain, ?_, ?_⟩
  · intro hb
    have hwaits : b ∈ ls := hb.elim (hr.waits hg) id
    exact ⟨hchain, fun hab => hg.mem_ancestors_of_joined hr.coherent hwaits (hr.joined hab)⟩
  · intro hb
    rw [List.mem_append, not_or] at hb
    refine ⟨fun hab => ?_, hsupported⟩
    exact hr.supported_of_closes hg hb.2 (fun _ hx => hh.supported hb.1 hx) hne hab

/-- A chain of two edges, of which the upper end is declared after a first closing. -/
def lateEdits : List Edit :=
  [.edge "Low" "Mid", .edge "Mid" "Top", .close, .declare "Top"]

theorem mem_ancestors_of_history_late :
    ∃ ks ls, History lateEdits ks (Edit.run .empty lateEdits) ∧
      Closes (Edit.run .empty lateEdits) ls (Edit.run .empty lateEdits).close ∧
      Key.of "Low" ≠ Key.of "Top" ∧ ¬ Declares lateEdits (Key.of "Mid") ∧
      Key.of "Top" ∈ (Edit.run .empty lateEdits).close.ancestors (Key.of "Low") := by
  obtain ⟨ks, hh⟩ := History.nil.exists_run lateEdits
  obtain ⟨ls, hg⟩ := exists_closes_close (Edit.run .empty lateEdits)
  have hne : Key.of "Low" ≠ Key.of "Top" := by decide
  have hlow : Recorded lateEdits (Key.of "Low") (Key.of "Mid") := by decide
  have htop : Recorded lateEdits (Key.of "Mid") (Key.of "Top") := by decide
  have hdeclared : Declares lateEdits (Key.of "Top") := by decide
  have hchain := (mem_ancestors_of_history hh hg hne).2.2.1 (Or.inl (Or.inl hdeclared))
  exact ⟨ks, ls, hh, hg, hne, by decide, hchain.2 (.tail (.single hlow) htop)⟩

/-- The same chain with its upper end declared from the start. -/
def openEdits : List Edit := [.declare "Top", .edge "Low" "Mid", .edge "Mid" "Top"]

/-- Closing puts a declared name above another although the only name between them is not
declared. -/
theorem mem_ancestors_without_declaredChain :
    Key.of "Low" ≠ Key.of "Top" ∧
      Key.of "Top" ∈ (Edit.run .empty openEdits).close.ancestors (Key.of "Low") ∧
      ¬ DeclaredChain openEdits (Key.of "Low") (Key.of "Top") := by
  have hr := reflects_nil.run openEdits
  obtain ⟨ls, hg⟩ := exists_closes_close (Edit.run .empty openEdits)
  have hlow : Recorded openEdits (Key.of "Low") (Key.of "Mid") := by decide
  have htop : Recorded openEdits (Key.of "Mid") (Key.of "Top") := by decide
  have hdeclared : Declares openEdits (Key.of "Top") := by decide
  refine ⟨by decide, ?_, ?_⟩
  · exact hg.mem_ancestors_of_joined hr.coherent (hr.waits hg (Or.inl hdeclared))
      (hr.joined (.tail (.single hlow) htop))
  · intro hchain
    cases hchain with
    | edge hab => exact absurd hab (by decide)
    | step _ hm hmb =>
      -- the one declared name is the upper end itself, and no edge goes from it to itself
      simp only [Declares, openEdits, Edit.declared, List.mem_cons, List.not_mem_nil, or_false,
        exists_eq_or_imp, exists_eq_left] at hm
      subst hm
      exact absurd hmb (by decide)

end TypeRecovery.Hierarchy
