import TypeRecovery.Recovery.Members
import TypeRecovery.Ty.Build

/-!
# Rules

What each action makes of the types of its operands. A rule answers with a list of types, whose
merge is the type of the result, or waits for operands that are not known. A merge of incoming
values guesses from those that are.
-/
namespace TypeRecovery.Analysis

open Inquiry

/-- The operand in a slot. -/
def operandIn (op : Op) (s : Slot) : Inquiry (Option OperandId) :=
  match op.slot? s with
  | none => answer none
  | some (.one x) => answer x
  | some (.many _) => fault (.noPart "tuple" "id")

/-- The operands in a slot that holds several. -/
def operandsIn (a : Analysis) (op : Op) (s : Slot) : Inquiry (List (Option OperandId)) :=
  match op.slot? s with
  | none => answer []
  | some (.many xs) => answer xs
  | some (.one none) => fault (.notListable "NoneType")
  | some (.one (some x)) => fault (.notListable (a.graph.operand x).sortName)

def typeIn? (op : Op) (s : Slot) : Inquiry (Option Ty) := do known? (← operandIn op s)
def typeIn (op : Op) (s : Slot) : Inquiry Ty := do known (← operandIn op s)

/-- The types in two slots; both are asked for before either is missed. -/
def typesIn (op : Op) (s t : Slot) : Inquiry (Ty × Ty) := do
  let left ← typeIn? op s
  let right ← typeIn? op t
  return (← ofOption left, ← ofOption right)

/-- The literal in a slot. -/
def literalIn? (a : Analysis) (op : Op) (s : Slot) : Option Value :=
  match op.slot? s with
  | some (.one (some x)) => a.graph.literal? x
  | _ => none

def requireName (v : Value) : Inquiry String :=
  match Fault.requireName v with
  | .ok s => answer s
  | .error f => fault f

def bitwise (left right : Ty) : Ty :=
  if left.kind = .string ∧ right.kind = .string then .string else .int

def arrayWith (element : Option Ty) : Ty :=
  match element with
  | none => .array
  | some t => .arrayOf t

def arithmetic (left right : Ty) : Ty :=
  match left.kind, right.kind with
  | .int, .int => .int
  | .int, .float | .float, .int | .float, .float => .float
  | .array, .array =>
    arrayWith (Ty.unionOf? (left.elementType?.toList ++ right.elementType?.toList))
  | _, _ => .mixed

def signed (t : Ty) : Ty := if t.kind = .int ∨ t.kind = .float then t else .numeric

/-- What is fetched from a container by an index. -/
def elementOf (t : Ty) : Ty :=
  match t.elementType? with
  | some e => e
  | none => if t.kind = .string then t else .mixed

/-- The union of the incoming types that are known; a guess if some are not. -/
def merge (a : Analysis) (op : Op) : Inquiry (List Ty) := do
  let incoming ← (← a.operandsIn op .vars).mapM known?
  let merged ← ofOption (Ty.unionOf? (incoming.filterMap id))
  if incoming.all (·.isSome) then answer [merged] else guess merged

mutual

/-- The type that an assertion about types stands for. -/
def assertedType (a : Analysis) : Assertion → Inquiry Ty
  | .isType x => match a.graph.literal? x with
    | some v => answer (Ty.declaredOrMixed v)
    | none => known (some x)
  | .nested c parts => do ofOption (Ty.combineAll? c (← a.assertedTypes parts))
  | .negation first rest => do
    let t ← a.assertedType first
    ofOption (Ty.combineAll? .intersection (t :: (← a.assertedTypes rest)))
  | .other => fault (.noPart "Assertion" "value")

def assertedTypes (a : Analysis) : List Assertion → Inquiry (List Ty)
  | [] => answer []
  | p :: ps => do
    let t ← a.assertedType p
    return t :: (← a.assertedTypes ps)

end

/-- The type of a value for which an assertion holds. -/
def narrowed (a : Analysis) (subject : Option OperandId) : Assertion → Inquiry Ty
  | .negation first _ => do
    let excluded ← a.narrowed subject first
    return ((← known? subject).getD .mixed).remove excluded
  | .other => wait
  | test => a.assertedType test

def parameterType (a : Analysis) (name declared : String) (fallback : Option OperandId)
    (comment : Option String) : Ty :=
  let comment := DocComment.declaredType (.parameter name) comment
  if declared == "" then comment
  else
    let t := Ty.ofTextOrMixed declared
    a.refine comment (if fallback.any a.graph.isNull then t.unionWith .null else t)

def constantFetch (a : Analysis) (op : Op) : Inquiry (List Ty) := do
  let name ← requireName (← ofOption (a.literalIn? op .name))
  match Text.lower name with
  | "true" | "false" => answer [.bool]
  | "null" => answer [.null]
  | _ => types (← (a.index.constantsNamed name).mapM fun c => known c.value)

def newObject (a : Analysis) (op : Op) : Inquiry (List Ty) := do
  let x ← operandIn op .cls
  match x.bind a.graph.literal?, x.bind fun x => (a.graph.operand x).objectClass? with
  | some (.text name), _ => answer [.named name]
  | _, some cls => answer [Ty.declaredOrMixed cls]
  | _, _ =>
    match ← known? x with
    | some t => answer [if t.kind = .object then t else .object]
    | none => answer [.object]

def packagedFunction (a : Analysis) (name : String) : Inquiry (List Ty) := do
  return [← ofOption (a.signatures.functionType? (Key.of name))]

def functionCall (a : Analysis) (op : Op) : Inquiry (List Ty) := do
  let name ← requireName (← ofOption (a.literalIn? op .name))
  match a.index.functionsNamed (Key.of name) with
  | [] => a.packagedFunction name
  | fs => answer (fs.map functionType)

/-- A function of the namespace comes before one without. -/
def namespacedCall (a : Analysis) (op : Op) : Inquiry (List Ty) := do
  let _ ← ofOption (a.literalIn? op .name)
  let qualified ← requireName (← ofOption (a.literalIn? op .nsName))
  match a.index.functionsNamed (Key.of qualified) with
  | [] => a.functionCall op
  | fs => answer (fs.map functionType)

/-- The classes that a type names. -/
def classesOf : Ty → List Key
  | .named name => if name == "" then [] else [Key.of name]
  | .compound .union x y rest => classesOf x ++ classesOf y ++ classesOfAll rest
  | _ => []
where
  classesOfAll : List Ty → List Key
  | [] => []
  | t :: ts => classesOf t ++ classesOfAll ts

/-- The classes that an operand may denote: those of its type, or the one a literal names. -/
def classNames (a : Analysis) (x : Option OperandId) : Inquiry (List Key) := do
  match ← known? x with
  | none => answer []
  | some t =>
    if t.kind = .string then
      match x.bind a.graph.literal? with
      | some (.text name) => answer [Key.of name]
      | _ => answer []
    else answer (classesOf t)

/-- The types of a member over all classes whose objects may stand in a slot. -/
def memberTypes (a : Analysis) (op : Op) (receiver : Slot)
    (lookup : Key → Key → Inquiry (List Ty)) : Inquiry (List Ty) := do
  let name ← ofOption (a.literalIn? op .name)
  let classes ← a.classNames (← operandIn op receiver)
  let candidates := classes.flatMap a.candidates
  if candidates.isEmpty then wait
  else
    let member := Key.of (← requireName name)
    types (← candidates.mapM fun c => lookup c member).flatten

/-- Whether there is a rule for an action. -/
def handles (action : Action) : Bool :=
  match action with
  | .classDecl | .interfaceDecl | .traitDecl | .functionDecl | .methodDecl | .propertyDecl
  | .classConstantDecl | .constantDecl => false
  | _ => true

def rule (a : Analysis) (op : Op) : Inquiry (List Ty) :=
  match op.action with
  | .instanceOf | .equal | .notEqual | .greater | .greaterOrEqual | .identical | .notIdentical
  | .smaller | .smallerOrEqual | .logicalAnd | .logicalOr | .logicalXor | .booleanNot | .castBool
  | .isEmpty | .isSet | .iteratorValid => answer [.bool]
  | .bitwiseAnd | .bitwiseOr | .bitwiseXor => do
    let (left, right) ← typesIn op .left .right
    return [bitwise left right]
  | .bitwiseNot => do
    let t ← typeIn op .expr
    return [bitwise t t]
  | .plus | .minus | .times | .divide => do
    let (left, right) ← typesIn op .left .right
    return [arithmetic left right]
  | .concat | .concatList | .castString => answer [.string]
  | .modulo | .shiftLeft | .shiftRight | .castInt | .printText => answer [.int]
  | .castDouble => answer [.float]
  | .unaryMinus | .unaryPlus => do return [signed (← typeIn op .expr)]
  | .exitProgram | .iteratorReset => answer [.null]
  | .evaluate | .includeFile | .yieldValue | .iteratorKey => wait
  | .iteratorValue => do return [← ofOption (← typeIn op .var).elementType?]
  | .newArray => do
    let ts ← (← a.operandsIn op .values).mapM known
    return [arrayWith (Ty.unionOf? ts)]
  | .castArray => answer [.array]
  | .arrayDimFetch => do return [elementOf (← typeIn op .var)]
  | .assign | .assignRef | .cloneObject => do return [← typeIn op .expr]
  | .castObject => do
    let t ← typeIn op .expr
    return [if t.fits a.hierarchy .object then t else .named "stdClass"]
  | .closureValue => answer [.named "Closure"]
  | .staticVar => do
    match ← operandIn op .fallback with
    | none => answer [.null]
    | some x => return [← known (some x)]
  | .phi => a.merge op
  | .assertion => match op with
    | .assertion _ subject test => do return [← a.narrowed subject test]
    | op => fault (.noPart op.sortName "assertion")
  | .constFetch => a.constantFetch op
  | .parameter => match op with
    | .parameter _ name declared fallback comment =>
      answer [a.parameterType name declared fallback comment]
    | op => fault (.noPart op.sortName "func")
  | .newObject => a.newObject op
  | .funcCall => a.functionCall op
  | .nsFuncCall => a.namespacedCall op
  | .methodCall => a.memberTypes op .var fun c m => answer (a.callTypes false c m)
  | .staticCall => a.memberTypes op .cls fun c m => answer (a.callTypes true c m)
  | .propertyFetch => a.memberTypes op .var fun c m => answer (a.fetchTypes false c m)
  | .staticPropertyFetch => a.memberTypes op .cls fun c m => answer (a.fetchTypes true c m)
  | .classConstFetch => a.memberTypes op .cls a.constantTypes
  | .classDecl | .interfaceDecl | .traitDecl | .functionDecl | .methodDecl | .propertyDecl
  | .classConstantDecl | .constantDecl =>
    fault (.problem (.unhandledOperation op.action.word op.head.place.text))

/-- A fault of a rule that is no problem in itself becomes one of the operation. -/
def blame (op : Op) : Fault → Fault
  | .problem p => .problem p
  | f => .problem (.failedRule op.action.word op.head.place.text f.message)

/-- The type of an operand from all operations that write it. -/
def inquiry (a : Analysis) (x : OperandId) : Inquiry Ty := do
  let answers ← (a.graph.producers x).mapM fun op => (a.rule op).mapFault (blame op)
  return Ty.lubAll (← types answers.flatten)

end TypeRecovery.Analysis
