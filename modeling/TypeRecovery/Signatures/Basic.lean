import TypeRecovery.Declaration.Reader
import TypeRecovery.Hierarchy.Closure

/-!
# Signatures of built-in functions and classes

What is known in advance: the types that functions return, and for each class its parent, its
interfaces and the types of its members. A declaration is kept as it was given and read when it is
asked for; one that says nothing leaves the type unknown. Later entries replace earlier ones.
-/
namespace TypeRecovery

inductive MemberKind where
  | method
  | property
  | constant
  deriving DecidableEq, Inhabited

structure Signatures where
  functions : Table Key Value := .empty
  classes : Table Key String := .empty
  parents : Table Key Key := .empty
  interfaces : Table Key (List Key) := .empty
  methods : Table Key (Table Key Value) := .empty
  properties : Table Key (Table Key Value) := .empty
  constants : Table Key (Table Key Value) := .empty
  deriving Inhabited

namespace Signatures

def empty : Signatures := {}

/-- One thing that is known. -/
inductive Entry where
  | function (name : Key) (decl : Value)
  | className (key : Key) (name : String)
  | parent (cls parent : Key)
  | interfaces (cls : Key) (parents : List Key)
  | member (kind : MemberKind) (cls name : Key) (decl : Value)

def addMember (cls name : Key) (decl : Value) (members : Table Key (Table Key Value)) :
    Table Key (Table Key Value) :=
  members.alter cls fun own => (own.getD .empty).put name decl

def add (s : Signatures) : Entry → Signatures
  | .function name decl => { s with functions := s.functions.put name decl }
  | .className key name => { s with classes := s.classes.put key name }
  | .parent cls parent => { s with parents := s.parents.put cls parent }
  | .interfaces cls parents => { s with interfaces := s.interfaces.put cls parents }
  | .member .method cls name decl => { s with methods := addMember cls name decl s.methods }
  | .member .property cls name decl => { s with properties := addMember cls name decl s.properties }
  | .member .constant cls name decl => { s with constants := addMember cls name decl s.constants }

def addAll (s : Signatures) (es : List Entry) : Signatures := es.foldl add s

def members (s : Signatures) : MemberKind → Table Key (Table Key Value)
  | .method => s.methods
  | .property => s.properties
  | .constant => s.constants

/-- The type that a declaration stands for, if it says anything. -/
def typeOf? (decl : Value) : Option Ty :=
  if decl.isPresent then some (Ty.declaredOrMixed decl) else none

def hasFunction (s : Signatures) (name : Key) : Bool := s.functions.contains name
def functionType? (s : Signatures) (name : Key) : Option Ty := (s.functions.get? name).bind typeOf?
def isClass (s : Signatures) (cls : Key) : Bool := s.classes.contains cls

/-- What a class itself declares for a member. -/
def ownDeclaration? (s : Signatures) (kind : MemberKind) (cls member : Key) : Option Value :=
  ((s.members kind).get? cls).bind (·.get? member)

/-- The class, its parent, the parent's parent and so on, up to a class without parent, a class
without name or a class that came before. -/
def lineage (s : Signatures) (visited : List Key) (cls : Key) : List Key :=
  if _hc : cls.text = "" ∨ cls ∈ visited then []
  else match _hp : s.parents.get? cls with
    | none => [cls]
    | some parent => cls :: s.lineage (cls :: visited) parent
  termination_by unvisited s.parents.keys visited
  decreasing_by exact unvisited_cons_lt (Table.mem_keys_of_get? _hp) fun hv => _hc (Or.inr hv)

/-- The type of a member. The first class of the lineage that declares it decides, even if its
declaration says nothing. -/
def memberType? (s : Signatures) (kind : MemberKind) (cls member : Key) : Option Ty :=
  ((s.lineage [] cls).findSome? fun c => s.ownDeclaration? kind c member).bind typeOf?

/-- The closed hierarchy of the classes. -/
def hierarchy (s : Signatures) : Hierarchy :=
  let h := s.classes.keys.foldl Hierarchy.declare .empty
  let h := s.parents.entries.foldl (fun h (cls, parent) => h.link cls parent) h
  let h := s.interfaces.entries.foldl (fun h (cls, parents) => h.linkAll cls parents) h
  h.close

end Signatures

end TypeRecovery
