import TypeRecovery.Graph.Op
import TypeRecovery.Text.Lowercase

/-!
# Program graphs

A program graph holds the operands and functions of a program by their numbers, all operations in
the order in which they came, and the scripts that lead to them. The operations that write or read
an operand are found among all operations.
-/
namespace TypeRecovery

structure Func where
  name : String
  params : List Op := []
  /-- The declared type of the result, empty where nothing is declared. -/
  returns : String := ""
  comment : Option String := none
  /-- The class of a method, empty for other functions. -/
  owner : String := ""
  blocks : List (List Op) := []
  deriving Inhabited

namespace Func

/-- The operations of the body. -/
def body (f : Func) : List Op := f.blocks.flatten

/-- The parameters and the body. -/
def ops (f : Func) : List Op := f.params ++ f.body

def describe (f : Func) : String :=
  "Func(" ++ (if f.owner == "" then "" else f.owner ++ "::") ++ f.name ++ ")"

end Func

structure Script where
  file : String
  main : FuncId
  functions : List FuncId := []
  deriving Inhabited

structure Graph where
  operands : Array Operand := #[]
  funcs : Array Func := #[]
  /-- All operations, those inside of others included. -/
  log : Array Op := #[]
  scripts : List Script := []
  deriving Inhabited

namespace Graph

def empty : Graph := {}

def operand (g : Graph) (x : OperandId) : Operand := (g.operands[x.index]?).getD ⟨.temporary, .unknown⟩
def literal? (g : Graph) (x : OperandId) : Option Value := (g.operand x).literal?
def func? (g : Graph) (f : FuncId) : Option Func := g.funcs[f.index]?
def func (g : Graph) (f : FuncId) : Func := (g.func? f).getD { name := "" }
def funcIds (g : Graph) : List FuncId := (List.range g.funcs.size).map FuncId.mk

/-- The operations that write an operand. -/
def producers (g : Graph) (x : OperandId) : List Op :=
  g.log.toList.filter fun op => op.head.result = some x

/-- The operations that read an operand, one time for each time they do. -/
def usages (g : Graph) (x : OperandId) : List Op :=
  g.log.toList.flatMap fun op => (op.reads.filter (· = x)).map fun _ => op

def addOperand (g : Graph) (x : Operand) : OperandId × Graph :=
  (⟨g.operands.size⟩, { g with operands := g.operands.push x })

def addFunc (g : Graph) (f : Func) : FuncId × Graph :=
  (⟨g.funcs.size⟩, { g with funcs := g.funcs.push f })

def setFunc (g : Graph) (id : FuncId) (f : Func) : Graph :=
  { g with funcs := g.funcs.modify id.index fun _ => f }

def addOp (g : Graph) (op : Op) : Graph := { g with log := g.log.push op }
def addScript (g : Graph) (s : Script) : Graph := { g with scripts := g.scripts ++ [s] }

def setType (g : Graph) (x : OperandId) (t : Ty) : Graph :=
  { g with operands := g.operands.modify x.index fun o => { o with type := t } }

/-- The statement that declares a function or a method. Where it has no doc comment of its own it has
that of the function. -/
def declaration (g : Graph) (make : Head → FuncId → Op) (place : Place) (comment : Option String)
    (f : FuncId) : Op :=
  make { place, comment := (comment.filter (· != "")).or (g.func f).comment } f

/-- Whether an operation fetches the constant `null`. -/
def fetchesNull (g : Graph) (op : Op) : Bool :=
  op.action = .constFetch &&
    match op.slot? .name with
    | some (.one (some x)) => match g.literal? x with
      | some (.text s) => Text.lower s == "null"
      | _ => false
    | _ => false

/-- Whether an operand is `null`, as a literal or by a constant. -/
def isNull (g : Graph) (x : OperandId) : Bool :=
  match g.literal? x with
  | some .null => true
  | _ => (g.producers x).any g.fetchesNull

theorem mem_funcIds {g : Graph} {f : FuncId} {fn : Func} (h : g.func? f = some fn) :
    f ∈ g.funcIds := by
  obtain ⟨i⟩ := f
  simp only [funcIds, List.mem_map, List.mem_range]
  refine ⟨i, ?_, rfl⟩
  simp only [func?] at h
  exact (Array.getElem?_eq_some_iff.1 h).1

end Graph

end TypeRecovery
