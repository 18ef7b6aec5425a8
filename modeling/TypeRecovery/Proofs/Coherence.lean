import Mathlib.Logic.Function.Iterate
import Mathlib.Logic.Relation
import Mathlib.Tactic.Tauto
import TypeRecovery.Hierarchy.Closure

/-!
# What keeps above and below in step

A hierarchy is coherent when its two tables are inverse to each other and every declared name is
above itself. Declaring a name and adding a link keep a hierarchy coherent. Closing does nothing but
add links, each of which is justified by two links that are there already; so whatever such links
preserve holds of the closed hierarchy.
-/
namespace TypeRecovery.Hierarchy
open Relation

structure Coherent (h : Hierarchy) : Prop where
  inverse : ∀ a b, b ∈ h.ancestors a ↔ a ∈ h.descendants b
  reflexive : ∀ k ∈ h.declared, k ∈ h.ancestors k

theorem coherent_empty : Coherent .empty where
  inverse _ _ := iff_of_false List.not_mem_nil List.not_mem_nil
  reflexive _ hk := absurd hk List.not_mem_nil

@[simp] theorem mem_declared_declare {h : Hierarchy} {k x : Key} :
    x ∈ (h.declare k).declared ↔ x ∈ h.declared ∨ x = k := mem_addNew

@[simp] theorem declared_link (h : Hierarchy) (child parent : Key) :
    (h.link child parent).declared = h.declared := by
  unfold link
  split <;> rfl

theorem Coherent.declare {h : Hierarchy} (hc : Coherent h) (k : Key) : Coherent (h.declare k) where
  inverse a b := by
    rw [mem_ancestors_declare, mem_descendants_declare, hc.inverse]
    exact or_congr_right and_comm
  reflexive x hx := by
    rw [mem_ancestors_declare]
    rcases mem_declared_declare.1 hx with hx | rfl
    · exact Or.inl (hc.reflexive x hx)
    · exact Or.inr ⟨rfl, rfl⟩

/-- In a coherent hierarchy an old link is in both tables, so a link acts on below as on above. -/
theorem Coherent.mem_descendants_link {h : Hierarchy} (hc : Coherent h) {child parent a b : Key} :
    b ∈ (h.link child parent).descendants a ↔ b ∈ h.descendants a ∨ (a = parent ∧ b = child) := by
  by_cases hold : parent ∈ h.ancestors child
  · rw [link, if_pos hold]
    constructor
    · exact Or.inl
    · rintro (hb | ⟨rfl, rfl⟩)
      · exact hb
      · exact (hc.inverse _ _).1 hold
  · exact Hierarchy.mem_descendants_link hold

theorem Coherent.link {h : Hierarchy} (hc : Coherent h) (child parent : Key) :
    Coherent (h.link child parent) where
  inverse a b := by
    rw [mem_ancestors_link, hc.mem_descendants_link, hc.inverse]
    exact or_congr_right and_comm
  reflexive x hx := by
    rw [declared_link] at hx
    exact mem_ancestors_link.2 (Or.inl (hc.reflexive x hx))

theorem linkAll_cons (h : Hierarchy) (child p : Key) (ps : List Key) :
    h.linkAll child (p :: ps) = (h.link child p).linkAll child ps := rfl

theorem mem_ancestors_linkAll {h : Hierarchy} {child a b : Key} {ps : List Key} :
    b ∈ (h.linkAll child ps).ancestors a ↔ b ∈ h.ancestors a ∨ (a = child ∧ b ∈ ps) := by
  induction ps generalizing h with
  | nil => simp [linkAll]
  | cons p ps ih =>
    rw [linkAll_cons, ih, mem_ancestors_link, List.mem_cons]
    tauto

theorem Coherent.linkAll {h : Hierarchy} (hc : Coherent h) (child : Key) (ps : List Key) :
    Coherent (h.linkAll child ps) := by
  induction ps generalizing h with
  | nil => exact hc
  | cons p ps ih => exact ih (hc.link child p)

@[simp] theorem declared_linkAll (h : Hierarchy) (child : Key) (ps : List Key) :
    (h.linkAll child ps).declared = h.declared := by
  induction ps generalizing h with
  | nil => rfl
  | cons p ps ih => rw [linkAll_cons, ih, declared_link]

/-- Two links lead from `child` to `parent`: up through a declared name, or down through any. -/
inductive Justified (h : Hierarchy) (child parent : Key) : Prop where
  | up (m : Key) (hm : m ∈ h.ancestors child) (hd : m ∈ h.declared) (hne : m ≠ child)
      (hp : parent ∈ h.ancestors m)
  | down (m : Key) (hm : m ∈ h.descendants parent) (hne : m ≠ parent)
      (hc : child ∈ h.descendants m)

/-- `h'` comes from `h` by one justified link between names. -/
inductive LinkStep (names : List Key) (h : Hierarchy) : Hierarchy → Prop where
  | mk (child parent : Key) (hj : Justified h child parent) (hc : child ∈ names)
      (hp : parent ∈ names) : LinkStep names h (h.link child parent)

theorem mem_descendants_link_of_mem {h : Hierarchy} {child parent a b : Key}
    (hb : b ∈ h.descendants a) : b ∈ (h.link child parent).descendants a := by
  by_cases hold : parent ∈ h.ancestors child
  · rwa [link, if_pos hold]
  · exact (mem_descendants_link hold).2 (Or.inl hb)

theorem Justified.link {h : Hierarchy} {c p : Key} (hj : Justified h c p) (child parent : Key) :
    Justified (h.link child parent) c p := by
  have hup {a b : Key} (hb : b ∈ h.ancestors a) : b ∈ (h.link child parent).ancestors a :=
    mem_ancestors_link.2 (Or.inl hb)
  cases hj with
  | up m hm hd hne hp => exact .up m (hup hm) (by rwa [declared_link]) hne (hup hp)
  | down m hm hne hc =>
    exact .down m (mem_descendants_link_of_mem hm) hne (mem_descendants_link_of_mem hc)

theorem mem_gains {names : List Key} {h : Hierarchy} {n b : Key} :
    b ∈ gains names h n ↔
      (∃ p ∈ h.ancestors n, p ≠ n ∧ p ∈ h.declared ∧ b ∈ h.ancestors p) ∧
        b ∉ h.ancestors n ∧ n ∈ names ∧ b ∈ names := by
  simp only [gains, inherited, List.mem_filter, List.mem_flatMap, Bool.and_eq_true,
    decide_eq_true_eq, isDeclared, and_assoc]

theorem mem_heirs {names : List Key} {h : Hierarchy} {n d : Key} :
    d ∈ heirs names h n ↔
      (∃ c ∈ h.descendants n, c ≠ n ∧ d ∈ h.descendants c) ∧
        n ∉ h.ancestors d ∧ n ∈ names ∧ d ∈ names := by
  simp only [heirs, bequeathed, List.mem_filter, List.mem_flatMap, Bool.and_eq_true,
    decide_eq_true_eq, and_assoc]

theorem justified_of_mem_gains {names : List Key} {h : Hierarchy} {n b : Key}
    (hb : b ∈ gains names h n) : Justified h n b ∧ n ∈ names ∧ b ∈ names := by
  obtain ⟨⟨m, hm, hne, hd, hb⟩, -, hn, hbn⟩ := mem_gains.1 hb
  exact ⟨.up m hm hd hne hb, hn, hbn⟩

theorem justified_of_mem_heirs {names : List Key} {h : Hierarchy} {n d : Key}
    (hd : d ∈ heirs names h n) : Justified h d n ∧ d ∈ names ∧ n ∈ names := by
  obtain ⟨⟨m, hm, hne, hd⟩, -, hn, hdn⟩ := mem_heirs.1 hd
  exact ⟨.down m hm hne hd, hdn, hn⟩

namespace Work

/-- Links that are justified at the start of a turn still are when those before them are added. -/
theorem addGains_linkSteps {names : List Key} (w : Work) (n : Key) (ks : List Key)
    (hks : ∀ b ∈ ks, Justified w.hierarchy n b ∧ n ∈ names ∧ b ∈ names) :
    ReflTransGen (LinkStep names) w.hierarchy (w.addGains n ks).hierarchy := by
  induction ks generalizing w with
  | nil => exact .refl
  | cons b ks ih =>
    obtain ⟨hj, hn, hb⟩ := hks b List.mem_cons_self
    refine .head (.mk n b hj hn hb) (ih (w.add n b) fun x hx => ?_)
    obtain ⟨hj', hx'⟩ := hks x (List.mem_cons_of_mem b hx)
    exact ⟨hj'.link n b, hx'⟩

theorem addHeirs_linkSteps {names : List Key} (w : Work) (n : Key) (ks : List Key)
    (hks : ∀ d ∈ ks, Justified w.hierarchy d n ∧ d ∈ names ∧ n ∈ names) :
    ReflTransGen (LinkStep names) w.hierarchy (w.addHeirs n ks).hierarchy := by
  induction ks generalizing w with
  | nil => exact .refl
  | cons d ks ih =>
    obtain ⟨hj, hd, hn⟩ := hks d List.mem_cons_self
    refine .head (.mk d n hj hd hn) (ih (w.add d n) fun x hx => ?_)
    obtain ⟨hj', hx'⟩ := hks x (List.mem_cons_of_mem d hx)
    exact ⟨hj'.link d n, hx'⟩

theorem turn_linkSteps (names : List Key) (w : Work) (n : Key) :
    ReflTransGen (LinkStep names) w.hierarchy (turn names w n).hierarchy :=
  (w.addGains_linkSteps n _ fun _ => justified_of_mem_gains).trans
    (addHeirs_linkSteps _ n _ fun _ => justified_of_mem_heirs)

theorem settle_linkSteps (names : List Key) (w : Work) :
    ReflTransGen (LinkStep names) w.hierarchy (settle names w) := by
  fun_induction settle names w with
  | case1 h => exact .refl
  | case2 h n rest ih => exact (turn_linkSteps names ⟨h, rest⟩ n).trans ih

/-- The first name that waits has its turn. -/
def next (names : List Key) : Work → Work
  | ⟨h, []⟩ => ⟨h, []⟩
  | ⟨h, n :: rest⟩ => turn names ⟨h, rest⟩ n

theorem settle_iterate_next (names : List Key) (w : Work) (n : Nat) :
    settle names ((next names)^[n] w) = settle names w := by
  induction n generalizing w with
  | zero => rfl
  | succ n ih =>
    rw [Function.iterate_succ_apply, ih]
    obtain ⟨h, _ | ⟨k, rest⟩⟩ := w
    · rfl
    · rw [next, ← settle]

end Work

/-- A number of turns is enough for closing if no name waits after them. -/
theorem close_eq_of_turns {h : Hierarchy} (n : Nat)
    (hdone : ((Work.next h.names)^[n] ⟨h, h.above.keys⟩).queue = []) :
    h.close = ((Work.next h.names)^[n] ⟨h, h.above.keys⟩).hierarchy := by
  rw [close, ← Work.settle_iterate_next h.names _ n]
  generalize (Work.next h.names)^[n] ⟨h, h.above.keys⟩ = w at hdone ⊢
  obtain ⟨g, queue⟩ := w
  obtain rfl : queue = [] := hdone
  rw [Work.settle]

/-- Closing adds justified links and does nothing else. -/
theorem close_linkSteps (h : Hierarchy) : ReflTransGen (LinkStep h.names) h h.close :=
  Work.settle_linkSteps h.names ⟨h, h.above.keys⟩

/-- What every justified link preserves holds of the closed hierarchy. -/
theorem close_preserves {P : Hierarchy → Prop} {h : Hierarchy} (h₀ : P h)
    (hstep : ∀ g child parent, P g → Justified g child parent → P (g.link child parent)) :
    P h.close := by
  have hrun := close_linkSteps h
  generalize h.close = closed at hrun ⊢
  induction hrun with
  | refl => exact h₀
  | tail _ hs ih =>
    obtain ⟨child, parent, hj, -, -⟩ := hs
    exact hstep _ child parent ih hj

@[simp] theorem declared_close (h : Hierarchy) : h.close.declared = h.declared :=
  close_preserves (P := fun g => g.declared = h.declared) rfl fun g child parent hg _ =>
    (declared_link g child parent).trans hg

end TypeRecovery.Hierarchy
