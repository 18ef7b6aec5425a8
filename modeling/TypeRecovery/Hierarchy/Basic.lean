import TypeRecovery.Key
import TypeRecovery.Table

/-!
# Hierarchies of classes

A hierarchy records, for each name, the names above it and the names below it. A name may be
declared, which places it above and below itself, and it may be mentioned as the parent or child of
an edge without being declared.
-/
namespace TypeRecovery

def addNew (k : Key) (ks : List Key) : List Key := if k ∈ ks then ks else ks ++ [k]

@[simp] theorem mem_addNew {k x : Key} {ks : List Key} : x ∈ addNew k ks ↔ x ∈ ks ∨ x = k := by
  unfold addNew
  split
  · constructor
    · exact Or.inl
    · rintro (h | rfl) <;> assumption
  · simp

structure Hierarchy where
  above : Table Key (List Key) := .empty
  below : Table Key (List Key) := .empty
  declared : List Key := []
  deriving Inhabited

namespace Hierarchy

def empty : Hierarchy := {}

def ancestors (h : Hierarchy) (k : Key) : List Key := (h.above.get? k).getD []
def descendants (h : Hierarchy) (k : Key) : List Key := (h.below.get? k).getD []
def isDeclared (h : Hierarchy) (k : Key) : Bool := k ∈ h.declared
def isSubtype (h : Hierarchy) (child parent : Key) : Bool := parent ∈ h.ancestors child

/-- The number of names that have something above them. -/
def size (h : Hierarchy) : Nat := h.above.size
def contains (h : Hierarchy) (k : Key) : Bool := h.above.contains k

def declare (h : Hierarchy) (k : Key) : Hierarchy where
  above := h.above.alter k fun ks => addNew k (ks.getD [])
  below := h.below.alter k fun ks => addNew k (ks.getD [])
  declared := addNew k h.declared

/-- Places `parent` above `child`. -/
def link (h : Hierarchy) (child parent : Key) : Hierarchy :=
  if parent ∈ h.ancestors child then h
  else { h with
    above := h.above.alter child fun ks => ks.getD [] ++ [parent]
    below := h.below.alter parent fun ks => addNew child (ks.getD []) }

def linkAll (h : Hierarchy) (child : Key) (parents : List Key) : Hierarchy :=
  parents.foldl (fun h p => h.link child p) h

/-- Whether above and below say the same, and every declared name is above and below itself. -/
def isConsistent (h : Hierarchy) : Bool :=
  (h.above.entries.all fun (child, parents) =>
    parents.all fun p => child ∈ h.descendants p) &&
  (h.below.entries.all fun (parent, children) =>
    children.all fun c => parent ∈ h.ancestors c) &&
  (h.declared.all fun k => k ∈ h.ancestors k && k ∈ h.descendants k)

theorem mem_ancestors_declare {h : Hierarchy} {k a b : Key} :
    b ∈ (h.declare k).ancestors a ↔ b ∈ h.ancestors a ∨ (a = k ∧ b = k) := by
  by_cases hk : k = a
  · subst hk
    simp [ancestors, declare]
  · simp [ancestors, declare, hk, Ne.symm hk]

theorem mem_descendants_declare {h : Hierarchy} {k a b : Key} :
    b ∈ (h.declare k).descendants a ↔ b ∈ h.descendants a ∨ (a = k ∧ b = k) := by
  by_cases hk : k = a
  · subst hk
    simp [descendants, declare]
  · simp [descendants, declare, hk, Ne.symm hk]

theorem mem_ancestors_link {h : Hierarchy} {child parent a b : Key} :
    b ∈ (h.link child parent).ancestors a ↔ b ∈ h.ancestors a ∨ (a = child ∧ b = parent) := by
  unfold link
  split
  · constructor
    · exact Or.inl
    · rintro (h | ⟨rfl, rfl⟩) <;> assumption
  · simp only [ancestors, Table.get?_alter]
    by_cases hc : child = a
    · subst hc
      simp
    · simp [hc, Ne.symm hc]

theorem mem_descendants_link {h : Hierarchy} {child parent a b : Key}
    (hnew : parent ∉ h.ancestors child) :
    b ∈ (h.link child parent).descendants a ↔ b ∈ h.descendants a ∨ (a = parent ∧ b = child) := by
  rw [link, if_neg hnew]
  by_cases hp : parent = a
  · subst hp
    simp [descendants]
  · simp [descendants, hp, Ne.symm hp]

end Hierarchy

end TypeRecovery
