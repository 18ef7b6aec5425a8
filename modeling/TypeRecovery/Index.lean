import TypeRecovery.Graph.Basic
import TypeRecovery.Key
import TypeRecovery.Problem.Basic
import TypeRecovery.Table

/-!
# The index of declarations

Class-likes, functions and constants by name. A name may be declared more than once, and all its
declarations are kept in order. Names are compared without regard to letter case, those of global
constants letter by letter.
-/
namespace TypeRecovery

/-- A function or method, with the declared type of its result. -/
structure Routine where
  name : String
  returns : String
  comment : Option String
  deriving Inhabited

structure Property where
  name : String
  declared : String
  comment : Option String
  deriving Inhabited

structure Constant where
  name : String
  value : Option OperandId
  deriving Inhabited

/-- A class, interface or trait with its own members by name. -/
structure ClassLike where
  name : String
  heritage : Heritage
  methods : Table Key (List Routine)
  properties : Table Key (List Property)
  constants : Table Key (List Constant)
  deriving Inhabited

structure Index where
  classLikes : List ClassLike
  byName : Table Key (List ClassLike)
  functions : Table Key (List Routine)
  constants : Table String (List Constant)
  deriving Inhabited

def Graph.routine (g : Graph) (head : Head) (f : FuncId) : Routine :=
  ⟨(g.func f).name, (g.func f).returns, head.comment⟩

/-- The methods among the operations of a body. -/
def Graph.methods (g : Graph) (body : List Op) : List Routine :=
  body.filterMap fun
    | .method head f => some (g.routine head f)
    | _ => none

def Op.properties (body : List Op) : List Property :=
  body.filterMap fun
    | .property head name declared _ => some ⟨name, declared, head.comment⟩
    | _ => none

def Op.constants (body : List Op) : List Constant :=
  body.filterMap fun
    | .classConstant _ name value => some ⟨name, value⟩
    | _ => none

namespace Index

def classLikeOf (g : Graph) (op : Op) : Except Fault ClassLike :=
  match op with
  | .classLike _ name heritage body => .ok
    { name, heritage
      methods := .group (fun m => Key.of m.name) (g.methods body)
      properties := .group (fun p => Key.of p.name) (Op.properties body)
      constants := .group (fun c => Key.of c.name) (Op.constants body) }
  | op => .error (.noPart op.sortName "stmts")

def functionOf (g : Graph) (op : Op) : Except Fault Routine :=
  match op with
  | .function head f => .ok (g.routine head f)
  | op => .error (.noPart op.sortName "func")

def constantOf (op : Op) : Except Fault Constant :=
  match op with
  | .constant _ name value => .ok ⟨name, value⟩
  | op => .error (.noPart op.sortName "const_name")

/-- The index of the declarations among some operations: interfaces first, then classes, then
traits. -/
def build (g : Graph) (ops : List Op) : Except Fault Index := do
  let declared (a : Action) : List Op := ops.filter fun op => op.action = a
  let classLikes ← (declared .interfaceDecl ++ declared .classDecl ++ declared .traitDecl).mapM
    (classLikeOf g)
  let functions ← (declared .functionDecl).mapM (functionOf g)
  let constants ← (declared .constantDecl).mapM constantOf
  return { classLikes
           byName := .group (fun c => Key.of c.name) classLikes
           functions := .group (fun f => Key.of f.name) functions
           constants := .group (fun c => c.name) constants }

def classesNamed (i : Index) (name : Key) : List ClassLike := (i.byName.get? name).getD []
def functionsNamed (i : Index) (name : Key) : List Routine := (i.functions.get? name).getD []
def constantsNamed (i : Index) (name : String) : List Constant := (i.constants.get? name).getD []

/-- The properties of all class-likes. -/
def properties (i : Index) : List Property :=
  i.classLikes.flatMap fun c => c.properties.values.flatten

end Index

namespace ClassLike

def methodsNamed (c : ClassLike) (name : Key) : List Routine := (c.methods.get? name).getD []
def propertiesNamed (c : ClassLike) (name : Key) : List Property := (c.properties.get? name).getD []
def constantsNamed (c : ClassLike) (name : Key) : List Constant := (c.constants.get? name).getD []

end ClassLike

end TypeRecovery
