import TypeRecovery.Graph.Action
import TypeRecovery.Graph.Operand

/-!
# Operations

An operation reads operands and writes at most one. Most operations are an action with operands in
named slots; parameters, functions, class-likes and their members, constants and assertions have
parts of their own. A class-like holds the operations of its body, a function is referred to by
number so that it can be shared and can mention itself.
-/
namespace TypeRecovery

/-- The place of an operation in the analysed program. -/
structure Place where
  file : String := "<unknown>"
  line : Int := 0
  deriving Inhabited

def Place.text (p : Place) : String := p.file ++ ":" ++ toString p.line

structure FuncId where
  index : Nat
  deriving DecidableEq, Inhabited

inductive Slot where
  | left
  | right
  | expr
  | var
  | name
  | cls
  | nsName
  | fallback
  | args
  | values
  | vars
  deriving DecidableEq, Inhabited

def Slot.ofWord? : String → Option Slot
  | "left" => some left
  | "right" => some right
  | "expr" => some expr
  | "var" => some var
  | "name" => some name
  | "class_" => some cls
  | "ns_name" => some nsName
  | "default_var" => some fallback
  | "args" => some args
  | "values" => some values
  | "vars" => some vars
  | _ => none

/-- What stands in a slot; an operand may be left out. -/
inductive Argument where
  | one (x : Option OperandId)
  | many (xs : List (Option OperandId))
  deriving Inhabited

def Argument.operands : Argument → List OperandId
  | one x => x.toList
  | many xs => xs.filterMap id

/-- What an assertion says about the type of a value. -/
inductive Assertion where
  /-- The value has the type that the operand stands for. -/
  | isType (x : OperandId)
  | nested (c : Combinator) (parts : List Assertion)
  /-- The first of the parts does not hold. -/
  | negation (first : Assertion) (rest : List Assertion)
  /-- Nothing that a rule understands. -/
  | other
  deriving Inhabited

/-- What a class-like takes over from others, by their names. -/
inductive Heritage where
  | ofClass (parent : Option String) (interfaces traits : List String)
  | ofInterface (parents : List String)
  | ofTrait (traits : List String)
  deriving Inhabited

namespace Heritage

/-- What a class takes over. An empty name stands for no parent. -/
def classOf (parent : Option String) (interfaces traits : List String) : Heritage :=
  ofClass (parent.filter (· != "")) interfaces traits

def action : Heritage → Action
  | ofClass .. => .classDecl
  | ofInterface _ => .interfaceDecl
  | ofTrait _ => .traitDecl

/-- The names of all direct supertypes. -/
def supertypes : Heritage → List String
  | ofClass parent interfaces traits => parent.toList ++ interfaces ++ traits
  | ofInterface parents => parents
  | ofTrait traits => traits

def traits : Heritage → List String
  | ofClass _ _ traits | ofTrait traits => traits
  | ofInterface _ => []

/-- The supertypes whose members count as inherited. -/
def parents : Heritage → List String
  | ofClass parent _ _ => parent.toList
  | ofInterface parents => parents
  | ofTrait _ => []

end Heritage

/-- What operations of all sorts have. -/
structure Head where
  place : Place := {}
  result : Option OperandId := none
  comment : Option String := none
  deriving Inhabited

/-- A declared type is empty where nothing is declared. -/
inductive Op where
  | plain (head : Head) (action : Action) (slots : List (Slot × Argument))
  /-- A parameter knows the doc comment of its function. -/
  | parameter (head : Head) (name declared : String) (fallback : Option OperandId)
      (funcComment : Option String)
  | closure (head : Head) (func : FuncId)
  | function (head : Head) (func : FuncId)
  | method (head : Head) (func : FuncId)
  | property (head : Head) (name declared : String) (fallback : Option OperandId)
  | classConstant (head : Head) (name : String) (value : Option OperandId)
  | constant (head : Head) (name : String) (value : Option OperandId)
  | assertion (head : Head) (subject : Option OperandId) (test : Assertion)
  | classLike (head : Head) (name : String) (heritage : Heritage) (body : List Op)
  deriving Inhabited

namespace Op

def head : Op → Head
  | plain h .. | parameter h .. | closure h _ | function h _ | method h _ | property h ..
  | classConstant h .. | constant h .. | assertion h .. | classLike h .. => h

def action : Op → Action
  | plain _ a _ => a
  | parameter .. => .parameter
  | closure .. => .closureValue
  | function .. => .functionDecl
  | method .. => .methodDecl
  | property .. => .propertyDecl
  | classConstant .. => .classConstantDecl
  | constant .. => .constantDecl
  | assertion .. => .assertion
  | classLike _ _ heritage _ => heritage.action

/-- The operands that the operation reads, in the order of its slots. -/
def reads : Op → List OperandId
  | plain _ _ slots => slots.flatMap fun (_, a) => a.operands
  | parameter _ _ _ x _ | property _ _ _ x | classConstant _ _ x | constant _ _ x
  | assertion _ x _ => x.toList
  | _ => []

def writes (op : Op) : List OperandId := op.head.result.toList

/-- What stands in a slot. -/
def slot? (s : Slot) : Op → Option Argument
  | plain _ _ slots => (slots.find? fun e => e.1 = s).map Prod.snd
  | parameter _ _ _ (some x) _ | property _ _ _ (some x) =>
    if s = .fallback then some (.one (some x)) else none
  | classConstant _ _ x | constant _ _ x | assertion _ x _ =>
    if s = .expr then some (.one x) else none
  | _ => none

/-- The function that the operation brings into the program. -/
def func? : Op → Option FuncId
  | closure _ f | function _ f | method _ f => some f
  | _ => none

/-- The name of the operation's sort in messages. -/
def sortName : Op → String
  | plain .. => "Op"
  | parameter .. => "Param"
  | closure .. => "ClosureExpr"
  | function .. => "FunctionStmt"
  | method .. => "ClassMethod"
  | property .. => "PropertyStmt"
  | classConstant .. => "ClassConstStmt"
  | constant .. => "ConstStmt"
  | assertion .. => "AssertionOp"
  | classLike _ _ (.ofClass ..) _ => "ClassStmt"
  | classLike _ _ (.ofInterface _) _ => "InterfaceStmt"
  | classLike _ _ (.ofTrait _) _ => "TraitStmt"

def describe (op : Op) : String :=
  op.sortName ++ "(" ++ op.action.word ++ "@" ++ op.head.place.text ++ ")"

end Op

end TypeRecovery
