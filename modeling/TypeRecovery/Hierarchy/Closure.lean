import TypeRecovery.Hierarchy.Basic
import TypeRecovery.Visited

/-!
# Closing a hierarchy

The names of a hierarchy wait in a queue. A name whose turn comes takes over what stands above its
declared parents, and passes itself on to everything below its children; whoever may be affected by
a new link joins the queue again. Each link is added once and there are finitely many pairs of
names, so the queue runs empty.
-/
namespace TypeRecovery.Hierarchy

/-- Every name that the hierarchy mentions. -/
def names (h : Hierarchy) : List Key :=
  (h.above.keys ++ h.below.keys).foldl (fun ks k => addNew k ks) []

/-- What stands above the declared parents of a name. -/
def inherited (h : Hierarchy) (n : Key) : List Key :=
  ((h.ancestors n).filter fun p => p ≠ n && h.isDeclared p).flatMap h.ancestors

/-- What stands below the children of a name. -/
def bequeathed (h : Hierarchy) (n : Key) : List Key :=
  ((h.descendants n).filter (· ≠ n)).flatMap h.descendants

/-- The names that `n` will have above it in addition. -/
def gains (names : List Key) (h : Hierarchy) (n : Key) : List Key :=
  (h.inherited n).filter fun b => b ∉ h.ancestors n && n ∈ names && b ∈ names

/-- The names that will have `n` above them in addition. -/
def heirs (names : List Key) (h : Hierarchy) (n : Key) : List Key :=
  (h.bequeathed n).filter fun d => n ∉ h.ancestors d && n ∈ names && d ∈ names

/-- A hierarchy with the names that wait for their turn. -/
structure Work where
  hierarchy : Hierarchy
  queue : List Key

namespace Work

def enqueue (queue ks : List Key) : List Key := ks.foldl (fun q k => addNew k q) queue

/-- Adds a link. A new one queues everything below its child and above its parent. -/
def add (w : Work) (child parent : Key) : Work :=
  let h := w.hierarchy.link child parent
  ⟨h, if parent ∈ w.hierarchy.ancestors child then w.queue
    else enqueue (enqueue w.queue (h.descendants child)) (h.ancestors parent)⟩

def addGains (w : Work) (n : Key) (ks : List Key) : Work := ks.foldl (fun w b => w.add n b) w
def addHeirs (w : Work) (n : Key) (ks : List Key) : Work := ks.foldl (fun w d => w.add d n) w

/-- One turn of the name `n`. -/
def turn (names : List Key) (w : Work) (n : Key) : Work :=
  let w := w.addGains n (gains names w.hierarchy n)
  w.addHeirs n (heirs names w.hierarchy n)

end Work

/-- The total of `f` over a list. -/
def total {α : Type} (f : α → Nat) : List α → Nat
  | [] => 0
  | x :: l => f x + total f l

/-- The number of pairs of names that are not linked. -/
def missing (names : List Key) (h : Hierarchy) : Nat :=
  total (fun a => names.countP fun b => b ∉ h.ancestors a) names

/-- `h'` has every link of `h`. -/
def Extends (h h' : Hierarchy) : Prop := ∀ a b, b ∈ h.ancestors a → b ∈ h'.ancestors a

theorem Extends.refl (h : Hierarchy) : Extends h h := fun _ _ hb => hb

theorem Extends.trans {h₁ h₂ h₃ : Hierarchy} (h : Extends h₁ h₂) (h' : Extends h₂ h₃) :
    Extends h₁ h₃ := fun a b hb => h' a b (h a b hb)

theorem total_le {α : Type} {f g : α → Nat} {l : List α} (h : ∀ x ∈ l, f x ≤ g x) :
    total f l ≤ total g l := by
  induction l with
  | nil => exact Nat.le_refl _
  | cons y l ih =>
    have := h y List.mem_cons_self
    have := ih fun x hx => h x (List.mem_cons_of_mem y hx)
    simp only [total]
    omega

theorem total_lt {α : Type} {f g : α → Nat} {l : List α} (h : ∀ x ∈ l, f x ≤ g x) {x : α}
    (hx : x ∈ l) (hlt : f x < g x) : total f l < total g l := by
  induction l with
  | nil => simp at hx
  | cons y l ih =>
    have hy := h y List.mem_cons_self
    have hl := fun x hx => h x (List.mem_cons_of_mem y hx)
    simp only [total]
    rcases List.mem_cons.1 hx with rfl | hx
    · have := total_le hl
      omega
    · have := ih hl hx
      omega

theorem missing_lt {names : List Key} {h h' : Hierarchy} (he : Extends h h') {a b : Key}
    (ha : a ∈ names) (hb : b ∈ names) (hold : b ∉ h.ancestors a) (hnew : b ∈ h'.ancestors a) :
    missing names h' < missing names h := by
  have hmono : ∀ x y, decide (y ∉ h'.ancestors x) = true → decide (y ∉ h.ancestors x) = true := by
    intro x y hy
    simp only [decide_eq_true_eq] at *
    exact fun hc => hy (he x y hc)
  refine total_lt (fun x _ => List.countP_mono_left fun y _ => hmono x y) ha ?_
  exact countP_lt (fun y _ => hmono a y) hb (by simp [hold]) (by simp [hnew])

namespace Work

theorem extends_add (w : Work) (child parent : Key) :
    Extends w.hierarchy (w.add child parent).hierarchy :=
  fun _ _ hb => mem_ancestors_link.2 (Or.inl hb)

theorem extends_addGains (w : Work) (n : Key) (ks : List Key) :
    Extends w.hierarchy (w.addGains n ks).hierarchy := by
  induction ks generalizing w with
  | nil => exact Extends.refl _
  | cons k ks ih => exact (w.extends_add n k).trans (ih _)

theorem extends_addHeirs (w : Work) (n : Key) (ks : List Key) :
    Extends w.hierarchy (w.addHeirs n ks).hierarchy := by
  induction ks generalizing w with
  | nil => exact Extends.refl _
  | cons k ks ih => exact (w.extends_add k n).trans (ih _)

/-- A turn adds a link between names, or changes nothing. -/
theorem turn_progress (names : List Key) (w : Work) (n : Key) :
    missing names (turn names w n).hierarchy < missing names w.hierarchy ∨ turn names w n = w := by
  unfold turn
  cases hg : gains names w.hierarchy n with
  | cons b ks =>
    left
    have hb : b ∈ gains names w.hierarchy n := hg ▸ List.mem_cons_self
    simp only [gains, List.mem_filter, Bool.and_eq_true, decide_eq_true_eq] at hb
    have hlink : b ∈ (w.add n b).hierarchy.ancestors n := mem_ancestors_link.2 (Or.inr ⟨rfl, rfl⟩)
    have hrest := ((w.add n b).extends_addGains n ks).trans
      (extends_addHeirs ((w.add n b).addGains n ks) n
        (heirs names ((w.add n b).addGains n ks).hierarchy n))
    exact missing_lt ((w.extends_add n b).trans hrest) hb.2.1.2 hb.2.2 hb.2.1.1 (hrest n b hlink)
  | nil =>
    simp only [addGains, List.foldl_nil]
    cases hh : heirs names w.hierarchy n with
    | nil => right; rfl
    | cons d ks =>
      left
      have hd : d ∈ heirs names w.hierarchy n := hh ▸ List.mem_cons_self
      simp only [heirs, List.mem_filter, Bool.and_eq_true, decide_eq_true_eq] at hd
      have hlink : n ∈ (w.add d n).hierarchy.ancestors d :=
        mem_ancestors_link.2 (Or.inr ⟨rfl, rfl⟩)
      have hrest := (w.add d n).extends_addHeirs n ks
      exact missing_lt ((w.extends_add d n).trans hrest) hd.2.2 hd.2.1.2 hd.2.1.1 (hrest d n hlink)

/-- Gives every waiting name its turn until none waits. -/
def settle (names : List Key) (w : Work) : Hierarchy :=
  match w with
  | ⟨h, []⟩ => h
  | ⟨h, n :: rest⟩ => settle names (turn names ⟨h, rest⟩ n)
  termination_by (missing names w.hierarchy, w.queue.length)
  decreasing_by
    rcases turn_progress names ⟨h, rest⟩ n with hlt | heq
    · exact Prod.Lex.left _ _ hlt
    · rw [heq]
      exact Prod.Lex.right _ (by simp)

end Work

/-- The transitive closure: every name with something above it gets its turn. -/
def close (h : Hierarchy) : Hierarchy := Work.settle h.names ⟨h, h.above.keys⟩

end TypeRecovery.Hierarchy
