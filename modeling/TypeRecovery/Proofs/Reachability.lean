import Mathlib.Data.List.Nodup
import TypeRecovery.Proofs.FirstSeen
import TypeRecovery.Proofs.Traversals

/-!
# What a traversal comes by

A function can be reached when a script names it, or an operation of a function that can be reached
brings it along, be it in the body of a class-like. Functions may share bodies of others and may
contain themselves. A traversal enters each function that can be reached once and no other, visits
each of its operations once and in order, and finds each operand where it is first read or written.
-/
namespace TypeRecovery

mutual

/-- The operation and the operations in its body, each before its own body. -/
def Op.nested : Op → List Op
  | .classLike head name heritage body => .classLike head name heritage body :: nestedAll body
  | op => [op]

def nestedAll : List Op → List Op
  | [] => []
  | op :: rest => op.nested ++ nestedAll rest

end

theorem nestedAll_eq (ops : List Op) : nestedAll ops = ops.flatMap Op.nested := by
  induction ops with
  | nil => rfl
  | cons op ops ih => rw [nestedAll, ih, List.flatMap_cons]

theorem Op.nested_eq (op : Op) : op.nested = op :: op.body.flatMap Op.nested := by
  rw [← nestedAll_eq]
  cases op <;> rfl

theorem Op.body_of_func? {op : Op} {f : FuncId} (h : op.func? = some f) : op.body = [] := by
  cases op <;> simp_all [func?, body]

def Event.entered? : Event → Option FuncId
  | enter f => some f
  | _ => none

/-- The functions that are entered, in order. -/
def enters (es : List Event) : List FuncId := es.filterMap Event.entered?

/-- The operations that are visited, in order. -/
def visits (es : List Event) : List Op := es.filterMap Event.op?

section

variable (file : String) (f : FuncId) (op : Op) (es es' : List Event)

@[simp] theorem enters_nil : enters [] = [] := rfl
@[simp] theorem enters_script : enters (.script file :: es) = enters es := rfl
@[simp] theorem enters_visit : enters (.visit op :: es) = enters es := rfl
@[simp] theorem enters_enter : enters (.enter f :: es) = f :: enters es := rfl
@[simp] theorem enters_leave : enters (.leave f :: es) = enters es := rfl
@[simp] theorem enters_append : enters (es ++ es') = enters es ++ enters es' :=
  List.filterMap_append

@[simp] theorem visits_nil : visits [] = [] := rfl
@[simp] theorem visits_script : visits (.script file :: es) = visits es := rfl
@[simp] theorem visits_visit : visits (.visit op :: es) = op :: visits es := rfl
@[simp] theorem visits_enter : visits (.enter f :: es) = visits es := rfl
@[simp] theorem visits_leave : visits (.leave f :: es) = visits es := rfl
@[simp] theorem visits_append : visits (es ++ es') = visits es ++ visits es' :=
  List.filterMap_append

end

namespace Graph

/-- All operations of a function, those in bodies of class-likes included. -/
def code (g : Graph) (f : FuncId) : List Op := (g.func f).ops.flatMap Op.nested

/-- The functions that a traversal enters, in order. -/
def entered (g : Graph) : List FuncId := enters g.events

inductive Reachable (g : Graph) : FuncId → Prop
  | named {s : Script} {f : FuncId} (hs : s ∈ g.scripts) (hf : f ∈ s.main :: s.functions)
      (hg : f ∈ g.funcIds) : Reachable g f
  | brought {f f' : FuncId} {op : Op} (h : Reachable g f) (hop : op ∈ g.code f)
      (hf : op.func? = some f') (hg : f' ∈ g.funcIds) : Reachable g f'

/-- What a traversal still has to go through. -/
inductive Item where
  | script (s : Script)
  | func (f : FuncId)
  | op (op : Op)

namespace Item

/-- What a script names and what an operation brings along. -/
def inside : Item → List Item
  | script s => (s.main :: s.functions).map func
  | func _ => []
  | op o => match o.func? with
    | some f => [func f]
    | none => o.body.map op

/-- The operations that are visited because of the item itself, and not of a function. -/
def code : Item → List Op
  | op o => o.nested
  | _ => []

/-- The functions that are looked at because of the item. -/
def asks : Item → List FuncId
  | script s => s.main :: s.functions
  | func f => [f]
  | op o => o.nested.filterMap Op.func?

theorem asks_inside_script (s : Script) : (script s).inside.flatMap asks = (script s).asks := by
  simp [inside, asks, List.flatMap_map]

theorem code_inside_script (s : Script) : (script s).inside.flatMap code = [] := by
  simp [inside, code, List.flatMap_map]

theorem flatMap_asks_op (ops : List Op) :
    (ops.map op).flatMap asks = (ops.flatMap Op.nested).filterMap Op.func? := by
  rw [List.flatMap_map, List.filterMap_flatMap]
  rfl

theorem flatMap_code_op (ops : List Op) : (ops.map op).flatMap code = ops.flatMap Op.nested :=
  List.flatMap_map _ _ _

theorem asks_inside_op (o : Op) : (op o).inside.flatMap asks = (op o).asks := by
  rw [inside, asks, o.nested_eq]
  cases hf : o.func? with
  | some f => simp [hf, asks, Op.body_of_func? hf]
  | none => rw [List.filterMap_cons_none hf, flatMap_asks_op]

theorem code_inside_op (o : Op) : o :: (op o).inside.flatMap code = (op o).code := by
  rw [inside, code, o.nested_eq]
  cases hf : o.func? with
  | some f => simp [code, Op.body_of_func? hf]
  | none => rw [flatMap_code_op]

end Item

/-- Going through the items, with the functions `before` entered first and `after` in the end. -/
inductive Walks (g : Graph) : List Item → List FuncId → List Event → List FuncId → Prop
  | nil {before : List FuncId} : Walks g [] before [] before
  | script {s : Script} {rest : List Item} {before between after : List FuncId}
      {es es' : List Event} (hinside : Walks g (Item.script s).inside before es between)
      (hrest : Walks g rest between es' after) :
      Walks g (.script s :: rest) before (.script s.file :: (es ++ es')) after
  | op {op : Op} {rest : List Item} {before between after : List FuncId} {es es' : List Event}
      (hinside : Walks g (Item.op op).inside before es between)
      (hrest : Walks g rest between es' after) :
      Walks g (.op op :: rest) before (.visit op :: (es ++ es')) after
  | skip {f : FuncId} {rest : List Item} {before after : List FuncId} {es : List Event}
      (hf : f ∈ g.funcIds → f ∈ before) (hrest : Walks g rest before es after) :
      Walks g (.func f :: rest) before es after
  | enter {f : FuncId} {rest : List Item} {before between after : List FuncId}
      {es es' : List Event} (hg : f ∈ g.funcIds) (hf : f ∉ before)
      (hbody : Walks g ((g.func f).ops.map .op) (f :: before) es between)
      (hrest : Walks g rest between es' after) :
      Walks g (.func f :: rest) before (.enter f :: (es ++ .leave f :: es')) after

variable {g : Graph} {items : List Item} {before after : List FuncId} {es : List Event}

theorem Walks.append {items' : List Item} {after' : List FuncId} {es' : List Event}
    (h : g.Walks items before es after) (h' : g.Walks items' after es' after') :
    g.Walks (items ++ items') before (es ++ es') after' := by
  induction h with
  | nil => exact h'
  | script hinside _ _ ih => simpa using Walks.script hinside (ih h')
  | op hinside _ _ ih => simpa using Walks.op hinside (ih h')
  | skip hf _ ih => exact .skip hf (ih h')
  | enter hg hf hbody _ _ ih => simpa using Walks.enter hg hf hbody (ih h')

theorem exists_func?_of_mem {f : FuncId} (h : f ∈ g.funcIds) : ∃ fn, g.func? f = some fn := by
  obtain ⟨i, hi, rfl⟩ := List.mem_map.1 h
  exact ⟨_, Array.getElem?_eq_getElem (List.mem_range.1 hi)⟩

theorem walks_traverseFunc (g : Graph) (entered : List FuncId) (f : FuncId) :
    g.Walks [.func f] entered (g.traverseFunc entered f).events
      (g.traverseFunc entered f).entered := by
  have hcases : g.TraversalCases
      (fun entered f => g.Walks [.func f] entered (g.traverseFunc entered f).events
        (g.traverseFunc entered f).entered)
      (fun entered op => g.Walks (Item.op op).inside entered (g.traverseInside entered op).events
        (g.traverseInside entered op).entered)
      fun entered ops => g.Walks (ops.map .op) entered (g.traverseOps entered ops).events
        (g.traverseOps entered ops).entered := by
    constructor
    case func =>
      intro entered f ih
      rw [traverseFunc]
      by_cases hf : f ∈ entered
      · rw [dif_pos hf]
        exact .skip (fun _ => hf) .nil
      · rw [dif_neg hf]
        split
        · rename_i hg
          refine .skip (fun hmem => ?_) .nil
          obtain ⟨fn, hfn⟩ := exists_func?_of_mem hmem
          cases hg.symm.trans hfn
        · rename_i fn hg
          have hfn : g.func f = fn := by rw [func, hg, Option.getD_some]
          have hbody := ih hf fn hg
          rw [← hfn] at hbody ⊢
          exact .enter (mem_funcIds hg) hf hbody .nil
    case inside =>
      intro entered op ihf ihb
      rw [traverseInside_eq, Item.inside]
      cases hf : op.func? with
      | some f => exact ihf f hf
      | none => exact ihb hf
    case nil =>
      intro entered
      rw [traverseOps]
      exact .nil
    case cons =>
      intro entered op rest ihi iho
      rw [traverseOps]
      exact .op ihi iho
  exact hcases.all_func entered f

theorem walks_traverseFuncs (g : Graph) (entered : List FuncId) (fs : List FuncId) :
    g.Walks (fs.map .func) entered (g.traverseFuncs entered fs).events
      (g.traverseFuncs entered fs).entered := by
  induction fs generalizing entered with
  | nil => exact .nil
  | cons f fs ih => exact (walks_traverseFunc g entered f).append (ih _)

theorem exists_walks_traverseScripts (g : Graph) (entered : List FuncId) (ss : List Script) :
    ∃ after, g.Walks (ss.map .script) entered (g.traverseScripts entered ss) after := by
  induction ss generalizing entered with
  | nil => exact ⟨entered, .nil⟩
  | cons s ss ih =>
    obtain ⟨after, hrest⟩ := ih (g.traverseFuncs entered (s.main :: s.functions)).entered
    exact ⟨after, .script (walks_traverseFuncs g entered (s.main :: s.functions)) hrest⟩

theorem exists_walks_events (g : Graph) :
    ∃ after, g.Walks (g.scripts.map .script) [] g.events after :=
  exists_walks_traverseScripts g [] g.scripts

/-- The rules leave no choice. -/
theorem Walks.unique {es' : List Event} {after' : List FuncId} (h : g.Walks items before es after)
    (h' : g.Walks items before es' after') : es' = es ∧ after' = after := by
  induction h generalizing es' after' with
  | nil =>
    cases h'
    exact ⟨rfl, rfl⟩
  | script _ _ ihi ihr =>
    cases h' with
    | script hinside hrest =>
      obtain ⟨rfl, rfl⟩ := ihi hinside
      obtain ⟨rfl, rfl⟩ := ihr hrest
      exact ⟨rfl, rfl⟩
  | op _ _ ihi ihr =>
    cases h' with
    | op hinside hrest =>
      obtain ⟨rfl, rfl⟩ := ihi hinside
      obtain ⟨rfl, rfl⟩ := ihr hrest
      exact ⟨rfl, rfl⟩
  | skip hskip _ ih =>
    cases h' with
    | skip _ hrest => exact ih hrest
    | enter hg hf _ _ => exact absurd (hskip hg) hf
  | enter hg hf _ _ ihb ihr =>
    cases h' with
    | skip hskip _ => exact absurd (hskip hg) hf
    | enter _ _ hbody hrest =>
      obtain ⟨rfl, rfl⟩ := ihb hbody
      obtain ⟨rfl, rfl⟩ := ihr hrest
      exact ⟨rfl, rfl⟩

theorem perm_append_swap {α : Type} (ws xs ys zs : List α) :
    (ws ++ xs ++ (ys ++ zs)).Perm (ws ++ ys ++ (xs ++ zs)) := by
  have hmiddle : (xs ++ ys ++ zs).Perm (ys ++ xs ++ zs) := List.perm_append_comm.append_right zs
  simpa [List.append_assoc] using hmiddle.append_left ws

namespace Walks

/-- What is entered at the end was entered on the way or before. -/
theorem after_eq (h : g.Walks items before es after) : after = (enters es).reverse ++ before := by
  induction h with
  | nil => rfl
  | script _ _ ihi ihr => simp [ihr, ihi]
  | op _ _ ihi ihr => simp [ihr, ihi]
  | skip _ _ ih => exact ih
  | enter _ _ _ _ ihb ihr => simp [ihr, ihb]

theorem subset (h : g.Walks items before es after) : before ⊆ after := by
  rw [h.after_eq]
  exact List.subset_append_right _ _

theorem nodup (h : g.Walks items before es after) (hb : before.Nodup) : after.Nodup := by
  induction h with
  | nil => exact hb
  | script _ _ ihi ihr => exact ihr (ihi hb)
  | op _ _ ihi ihr => exact ihr (ihi hb)
  | skip _ _ ih => exact ih hb
  | enter _ hf _ _ ihb ihr => exact ihr (ihb (List.nodup_cons.2 ⟨hf, hb⟩))

/-- Every function that is looked at is entered. -/
theorem mem_after_of_asks (h : g.Walks items before es after) {f : FuncId}
    (hf : f ∈ items.flatMap Item.asks) (hg : f ∈ g.funcIds) : f ∈ after := by
  induction h with
  | nil => cases hf
  | script _ hrest ihi ihr =>
    rw [List.flatMap_cons, List.mem_append, ← Item.asks_inside_script] at hf
    exact hf.elim (fun hf => hrest.subset (ihi hf)) ihr
  | op _ hrest ihi ihr =>
    rw [List.flatMap_cons, List.mem_append, ← Item.asks_inside_op] at hf
    exact hf.elim (fun hf => hrest.subset (ihi hf)) ihr
  | skip hskip hrest ih =>
    rw [List.flatMap_cons, List.mem_append] at hf
    rcases hf with hf | hf
    · rw [List.mem_singleton.1 hf] at hg ⊢
      exact hrest.subset (hskip hg)
    · exact ih hf
  | enter _ _ hbody hrest _ ihr =>
    rw [List.flatMap_cons, List.mem_append] at hf
    rcases hf with hf | hf
    · rw [List.mem_singleton.1 hf]
      exact hrest.subset (hbody.subset List.mem_cons_self)
    · exact ihr hf

/-- The functions that entered ones bring along are entered, too. -/
theorem mem_after_of_enters (h : g.Walks items before es after) {f f' : FuncId}
    (hf : f ∈ enters es) (hf' : f' ∈ (g.code f).filterMap Op.func?) (hg : f' ∈ g.funcIds) :
    f' ∈ after := by
  induction h with
  | nil => cases hf
  | script _ hrest ihi ihr =>
    rw [enters_script, enters_append, List.mem_append] at hf
    exact hf.elim (fun hf => hrest.subset (ihi hf)) ihr
  | op _ hrest ihi ihr =>
    rw [enters_visit, enters_append, List.mem_append] at hf
    exact hf.elim (fun hf => hrest.subset (ihi hf)) ihr
  | skip _ _ ih => exact ih hf
  | enter _ _ hbody hrest ihb ihr =>
    rw [enters_enter, enters_append, enters_leave, List.mem_cons, List.mem_append] at hf
    rcases hf with rfl | hf | hf
    · rw [code, ← Item.flatMap_asks_op] at hf'
      exact hrest.subset (hbody.mem_after_of_asks hf' hg)
    · exact hrest.subset (ihb hf)
    · exact ihr hf

/-- Only functions are entered that are looked at or that an entered function brings along. -/
theorem reachable (h : g.Walks items before es after)
    (hitems : ∀ f ∈ items.flatMap Item.asks, f ∈ g.funcIds → g.Reachable f) :
    ∀ f ∈ enters es, g.Reachable f := by
  induction h with
  | nil => simp
  | script _ _ ihi ihr =>
    simp only [List.flatMap_cons, List.mem_append, ← Item.asks_inside_script] at hitems
    intro f hf
    rw [enters_script, enters_append, List.mem_append] at hf
    exact hf.elim (ihi (fun f hf => hitems f (.inl hf)) f) (ihr (fun f hf => hitems f (.inr hf)) f)
  | op _ _ ihi ihr =>
    simp only [List.flatMap_cons, List.mem_append, ← Item.asks_inside_op] at hitems
    intro f hf
    rw [enters_visit, enters_append, List.mem_append] at hf
    exact hf.elim (ihi (fun f hf => hitems f (.inl hf)) f) (ihr (fun f hf => hitems f (.inr hf)) f)
  | skip _ _ ih =>
    simp only [List.flatMap_cons, List.mem_append] at hitems
    exact ih fun f hf => hitems f (.inr hf)
  | @enter f _ _ _ _ _ _ hg _ _ _ ihb ihr =>
    simp only [List.flatMap_cons, List.mem_append] at hitems
    have hreach : g.Reachable f := hitems f (.inl List.mem_cons_self) hg
    have hbody : ∀ f' ∈ ((g.func f).ops.map .op).flatMap Item.asks,
        f' ∈ g.funcIds → g.Reachable f' := by
      intro f' hf' hg'
      rw [Item.flatMap_asks_op] at hf'
      obtain ⟨op, hop, hfunc⟩ := List.mem_filterMap.1 hf'
      exact .brought hreach hop hfunc hg'
    intro f' hf'
    rw [enters_enter, enters_append, enters_leave, List.mem_cons, List.mem_append] at hf'
    rcases hf' with rfl | hf' | hf'
    · exact hreach
    · exact ihb hbody f' hf'
    · exact ihr (fun f hf => hitems f (.inr hf)) f' hf'

/-- Each operation is visited once for each place it has in an item or in an entered function. -/
theorem visits_perm (h : g.Walks items before es after) :
    (visits es).Perm (items.flatMap Item.code ++ (enters es).flatMap g.code) := by
  induction h with
  | nil => exact .nil
  | script _ _ ihi ihr =>
    rw [Item.code_inside_script] at ihi
    have hperm := (ihi.append ihr).trans (perm_append_swap [] ..)
    simpa [Item.code] using hperm
  | @op op _ _ _ _ _ _ _ _ ihi ihr =>
    have hperm := ((ihi.append ihr).trans (perm_append_swap ..)).cons op
    simpa [← Item.code_inside_op op] using hperm
  | skip _ _ ih => exact ih
  | enter _ _ _ _ ihb ihr =>
    rw [Item.flatMap_code_op] at ihb
    have hperm := (ihb.append ihr).trans (perm_append_swap [] ..)
    simpa [Item.code, code] using hperm

theorem items_sublist (h : g.Walks items before es after) :
    (items.flatMap Item.code).Sublist (visits es) := by
  induction h with
  | nil => exact .slnil
  | script _ _ _ ihr =>
    rw [List.flatMap_cons, visits_script, visits_append]
    exact ihr.trans (List.sublist_append_right _ _)
  | @op op _ _ _ _ _ _ _ _ ihi ihr =>
    rw [List.flatMap_cons, ← Item.code_inside_op, visits_visit, visits_append]
    exact (ihi.append ihr).cons_cons op
  | skip _ _ ih => exact ih
  | enter _ _ _ _ _ ihr =>
    rw [List.flatMap_cons, visits_enter, visits_append, visits_leave]
    exact ihr.trans (List.sublist_append_right _ _)

/-- The operations of a function are visited in their order. -/
theorem code_sublist (h : g.Walks items before es after) {f : FuncId} (hf : f ∈ enters es) :
    (g.code f).Sublist (visits es) := by
  induction h with
  | nil => cases hf
  | script _ _ ihi ihr =>
    rw [enters_script, enters_append, List.mem_append] at hf
    rw [visits_script, visits_append]
    exact hf.elim (fun hf => (ihi hf).trans (List.sublist_append_left _ _))
      fun hf => (ihr hf).trans (List.sublist_append_right _ _)
  | @op op _ _ _ _ _ _ _ _ ihi ihr =>
    rw [enters_visit, enters_append, List.mem_append] at hf
    rw [visits_visit, visits_append]
    refine List.Sublist.cons op ?_
    exact hf.elim (fun hf => (ihi hf).trans (List.sublist_append_left _ _))
      fun hf => (ihr hf).trans (List.sublist_append_right _ _)
  | skip _ _ ih => exact ih hf
  | enter _ _ hbody _ ihb ihr =>
    rw [enters_enter, enters_append, enters_leave, List.mem_cons, List.mem_append] at hf
    rw [visits_enter, visits_append, visits_leave]
    rcases hf with rfl | hf | hf
    · have hown := hbody.items_sublist
      rw [Item.flatMap_code_op] at hown
      exact hown.trans (List.sublist_append_left _ _)
    · exact (ihb hf).trans (List.sublist_append_left _ _)
    · exact (ihr hf).trans (List.sublist_append_right _ _)

end Walks

theorem firstSeen_addUnseen {xs seen : List OperandId} (h : FirstSeen xs seen)
    (ys : List OperandId) : FirstSeen (xs ++ ys) (ys.foldl addUnseen seen) := by
  induction ys generalizing xs seen with
  | nil => rwa [List.append_nil]
  | cons y ys ih =>
    have hrest := ih (h.snoc y)
    rwa [List.append_assoc, List.singleton_append] at hrest

theorem firstSeen_usedOperands (g : Graph) :
    FirstSeen (g.visited.flatMap fun op => op.reads ++ op.writes) g.usedOperands :=
  firstSeen_addUnseen .nil _

theorem nodup_entered (g : Graph) : g.entered.Nodup := by
  obtain ⟨after, h⟩ := g.exists_walks_events
  have hnodup := h.nodup .nil
  rwa [h.after_eq, List.append_nil, List.nodup_reverse] at hnodup

theorem mem_entered_iff {g : Graph} {f : FuncId} : f ∈ g.entered ↔ g.Reachable f := by
  obtain ⟨after, h⟩ := g.exists_walks_events
  have hasks : ∀ f, f ∈ (g.scripts.map .script).flatMap Item.asks ↔
      ∃ s ∈ g.scripts, f ∈ s.main :: s.functions := by
    simp [List.mem_flatMap, Item.asks]
  have hafter : ∀ f, f ∈ after ↔ f ∈ g.entered := by
    simp [h.after_eq, entered]
  constructor
  · refine h.reachable (fun f hf hg => ?_) f
    obtain ⟨s, hs, hf⟩ := (hasks f).1 hf
    exact .named hs hf hg
  · intro hf
    induction hf with
    | named hs hf hg => exact (hafter _).1 (h.mem_after_of_asks ((hasks _).2 ⟨_, hs, hf⟩) hg)
    | brought _ hop hf hg ih =>
      exact (hafter _).1 (h.mem_after_of_enters ih (List.mem_filterMap.2 ⟨_, hop, hf⟩) hg)

theorem visited_perm (g : Graph) : g.visited.Perm (g.entered.flatMap g.code) := by
  obtain ⟨after, h⟩ := g.exists_walks_events
  have hcode : (g.scripts.map .script).flatMap Item.code = [] := by
    simp [Item.code, List.flatMap_map]
  have hperm := h.visits_perm
  rwa [hcode, List.nil_append] at hperm

theorem mem_visited_iff {g : Graph} {op : Op} :
    op ∈ g.visited ↔ ∃ f, g.Reachable f ∧ op ∈ g.code f := by
  simp only [g.visited_perm.mem_iff, List.mem_flatMap, mem_entered_iff]

end Graph

end TypeRecovery
