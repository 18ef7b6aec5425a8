import TypeRecovery.Analysis
import TypeRecovery.DocComment
import TypeRecovery.Recovery.Inquiry
import TypeRecovery.Ty.Lattice

/-!
# Members of classes

The types of methods, properties and class constants. A class-like that declares a member itself
answers for it; otherwise the traits it uses are searched, and after them its parents. What the
signatures say about the class comes last. A search goes through each name once, so it also ends
where classes inherit from each other in a circle.
-/
namespace TypeRecovery

/-- What to look for: the member as a class-like itself declares it, and as the signatures do. -/
structure Search (α : Type) where
  own? : ClassLike → Option (List α)
  signature : Key → List α
  inTraits : Bool

/-- What a part of a search found that began when `before` had been visited. -/
structure Found (α : Type) (before : List Key) where
  items : List α
  visited : List Key
  keeps : ∀ k ∈ before, k ∈ visited

namespace Search

variable {α : Type}

theorem mem_keys_of_classesNamed {i : Index} {k : Key} {c : ClassLike} {cs : List ClassLike}
    (h : i.classesNamed k = c :: cs) : k ∈ i.byName.keys := by
  unfold Index.classesNamed at h
  cases hg : i.byName.get? k with
  | none => simp [hg] at h
  | some _ => exact Table.mem_keys_of_get? hg

theorem visited_decreases {i : Index} {visited visited' : List Key} {a b : Nat × Nat}
    (hv : ∀ k ∈ visited, k ∈ visited') (hab : Prod.Lex (· < ·) (· < ·) a b) :
    Prod.Lex (· < ·) (Prod.Lex (· < ·) (· < ·)) (unvisited i.byName.keys visited', a)
      (unvisited i.byName.keys visited, b) := by
  rcases Nat.lt_or_eq_of_le (@unvisited_le _ _ i.byName.keys _ _ hv) with h | h
  · exact Prod.Lex.left _ _ h
  · rw [h]
    exact Prod.Lex.right _ hab

mutual

def inName (s : Search α) (i : Index) (visited : List Key) (k : Key) : Found α visited :=
  if _hk : k ∈ visited then ⟨[], visited, fun _ h => h⟩
  else match _hc : i.classesNamed k with
    | [] => ⟨s.signature k, k :: visited, fun _ h => List.mem_cons_of_mem k h⟩
    | c :: cs =>
      let r := s.inClasses i (k :: visited) (c :: cs)
      ⟨r.items ++ s.signature k, r.visited, fun x h => r.keeps x (List.mem_cons_of_mem k h)⟩
  termination_by (unvisited i.byName.keys visited, 0, 0)
  decreasing_by exact Prod.Lex.left _ _ (unvisited_cons_lt (mem_keys_of_classesNamed _hc) _hk)

def inNames (s : Search α) (i : Index) (visited : List Key) (ks : List Key) : Found α visited :=
  match ks with
  | [] => ⟨[], visited, fun _ h => h⟩
  | k :: ks =>
    let first := s.inName i visited k
    let rest := s.inNames i first.visited ks
    ⟨first.items ++ rest.items, rest.visited, fun x h => rest.keeps x (first.keeps x h)⟩
  termination_by (unvisited i.byName.keys visited, 1, ks.length)
  decreasing_by
    · exact visited_decreases (fun _ h => h) (Prod.Lex.left _ _ (by decide))
    · exact visited_decreases first.keeps (Prod.Lex.right _ (by simp))

def inClass (s : Search α) (i : Index) (visited : List Key) (c : ClassLike) : Found α visited :=
  match s.own? c with
  | some items => ⟨items, visited, fun _ h => h⟩
  | none =>
    let traits := s.inNames i visited (if s.inTraits then c.heritage.traits.map Key.of else [])
    if traits.items.isEmpty then
      let parents := s.inNames i traits.visited (c.heritage.parents.map Key.of)
      ⟨parents.items, parents.visited, fun x h => parents.keeps x (traits.keeps x h)⟩
    else traits
  termination_by (unvisited i.byName.keys visited, 2, 0)
  decreasing_by
    · exact visited_decreases (fun _ h => h) (Prod.Lex.left _ _ (by decide))
    · exact visited_decreases traits.keeps (Prod.Lex.left _ _ (by decide))

def inClasses (s : Search α) (i : Index) (visited : List Key) (cs : List ClassLike) :
    Found α visited :=
  match cs with
  | [] => ⟨[], visited, fun _ h => h⟩
  | c :: cs =>
    let first := s.inClass i visited c
    let rest := s.inClasses i first.visited cs
    ⟨first.items ++ rest.items, rest.visited, fun x h => rest.keeps x (first.keeps x h)⟩
  termination_by (unvisited i.byName.keys visited, 3, cs.length)
  decreasing_by
    · exact visited_decreases (fun _ h => h) (Prod.Lex.left _ _ (by decide))
    · exact visited_decreases first.keeps (Prod.Lex.right _ (by simp))

end

/-- Everything a search finds that starts from one name. -/
def find (s : Search α) (i : Index) (cls : Key) : List α := (s.inName i [] cls).items

end Search

namespace Analysis

/-- The type that a comment and a declaration give together: the comment counts where it is more
precise. -/
def refine (a : Analysis) (comment declared : Ty) : Ty :=
  if !comment.equiv .mixed && comment.fits a.hierarchy declared then comment else declared

def functionType (f : Routine) : Ty :=
  if f.returns == "" then DocComment.declaredType .result f.comment else Ty.ofTextOrMixed f.returns

/-- The type of a method's result. Its comment counts where it fits the declaration. -/
def methodType (a : Analysis) (m : Routine) : Ty :=
  let comment := DocComment.declaredType .result m.comment
  if m.returns == "" then comment
  else
    let declared := Ty.ofTextOrMixed m.returns
    if comment.fits a.hierarchy declared then comment else declared

def propertyType? (a : Analysis) (p : Property) : Option Ty :=
  let declared := if p.declared == "" then none else some (Ty.ofTextOrMixed p.declared)
  if !a.settings.propertyComments then declared
  else
    let comment := DocComment.declaredType .variable p.comment
    match declared with
    | none => some comment
    | some t => some (a.refine comment t)

/-- A list of members, unless it is empty. -/
def declared? {α β : Type} (f : List α → List β) (xs : List α) : Option (List β) :=
  if xs.isEmpty then none else some (f xs)

/-- The classes whose objects may stand for an object of a class, in order. -/
def candidates (a : Analysis) (cls : Key) : List Key := Key.sort (a.hierarchy.descendants cls)

def methodTypes (a : Analysis) (cls name : Key) : List Ty :=
  let search : Search Ty :=
    { own? := fun c => declared? (·.map a.methodType) (c.methodsNamed name)
      signature := fun k => (a.signatures.memberType? .method k name).toList
      inTraits := a.settings.traitMembers }
  search.find a.index cls

def propertyTypes (a : Analysis) (cls name : Key) : List Ty :=
  let search : Search Ty :=
    { own? := fun c => declared? (·.filterMap a.propertyType?) (c.propertiesNamed name)
      signature := fun k => (a.signatures.memberType? .property k name).toList
      inTraits := a.settings.traitMembers }
  search.find a.index cls

/-- Where the type of a constant comes from: the operand of its value, or the signatures. -/
inductive ConstantSource where
  | value (x : Option OperandId)
  | signature (t : Ty)

def ConstantSource.type : ConstantSource → Inquiry Ty
  | value x => .known x
  | signature t => .answer t

def constantSources (a : Analysis) (cls name : Key) : List ConstantSource :=
  let search : Search ConstantSource :=
    { own? := fun c => declared? (·.map fun d => .value d.value) (c.constantsNamed name)
      signature := fun k => ((a.signatures.memberType? .constant k name).map .signature).toList
      inTraits := false }
  search.find a.index cls

def constantTypes (a : Analysis) (cls name : Key) : Inquiry (List Ty) :=
  (a.constantSources cls name).mapM ConstantSource.type

/-- The method that takes calls of methods that do not exist. -/
def catchAll (static : Bool) : Key := ⟨if static then "__callstatic" else "__call"⟩

/-- A method for one candidate, or the one that catches calls of methods that do not exist. -/
def callTypes (a : Analysis) (static : Bool) (cls name : Key) : List Ty :=
  let found := a.methodTypes cls name
  if found.isEmpty then a.methodTypes cls (catchAll static) else found

/-- A property for one candidate. The method that catches fetches of properties that do not exist
does so for objects only. -/
def fetchTypes (a : Analysis) (static : Bool) (cls name : Key) : List Ty :=
  let found := a.propertyTypes cls name
  if !found.isEmpty then found
  else if static then []
  else a.methodTypes cls ⟨"__get"⟩

end Analysis

end TypeRecovery
