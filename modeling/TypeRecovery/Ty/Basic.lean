import TypeRecovery.Key

/-!
# Types

A type is one of the primitives, an object of a named class, an array with or without an element
type, or a compound of two or more members: a union or an intersection. `unknown` stands for a type
about which nothing has been found out. Members keep their order, their nesting and their
repetitions; what is identified beyond that is the business of `Ty.equiv`.
-/
namespace TypeRecovery

/-- How the members of a compound type are combined. -/
inductive Combinator where
  | union
  | intersection
  deriving DecidableEq, Inhabited

inductive Ty where
  | unknown
  | null
  | bool
  | int
  | float
  | string
  | object
  | named (name : String)
  | array
  | arrayOf (element : Ty)
  | callable
  | compound (c : Combinator) (first second : Ty) (rest : List Ty)
  deriving Inhabited

inductive Kind where
  | unknown
  | null
  | bool
  | int
  | float
  | string
  | object
  | array
  | callable
  | union
  | intersection
  deriving DecidableEq, Inhabited

namespace Kind

def all : List Kind :=
  [unknown, null, bool, int, float, string, object, array, callable, union, intersection]

def code : Kind → Int
  | unknown => -1
  | null => 1
  | bool => 2
  | int => 3
  | float => 4
  | string => 5
  | object => 6
  | array => 7
  | callable => 8
  | union => 10
  | intersection => 11

def ofCode? (n : Int) : Option Kind := all.find? (·.code == n)

def word : Kind → String
  | unknown => "unknown"
  | null => "null"
  | bool => "bool"
  | int => "int"
  | float => "float"
  | string => "string"
  | object => "object"
  | array => "array"
  | callable => "callable"
  | union => "union"
  | intersection => "intersection"

def ofWord? (w : String) : Option Kind := all.find? (·.word == w)

/-- The name of a kind in messages. -/
def title (k : Kind) : String := k.word.map Char.toUpper

def isCompound : Kind → Bool
  | union | intersection => true
  | _ => false

end Kind

def Combinator.kind : Combinator → Kind
  | .union => .union
  | .intersection => .intersection

namespace Ty

def kind : Ty → Kind
  | unknown => .unknown
  | null => .null
  | bool => .bool
  | int => .int
  | float => .float
  | string => .string
  | object | named _ => .object
  | array | arrayOf _ => .array
  | callable => .callable
  | compound c _ _ _ => c.kind

def isCompound (t : Ty) : Bool := t.kind.isCompound
def isUnknown (t : Ty) : Bool := t.kind == .unknown
def hasSubtypes (t : Ty) : Bool := t.isCompound || t.kind == .array

def elementType? : Ty → Option Ty
  | arrayOf t => some t
  | _ => none

/-- The members of a compound type, in order. -/
def members : Ty → List Ty
  | compound _ a b rest => a :: b :: rest
  | _ => []

/-- The operands that the type contributes to a compound of kind `c`. -/
def parts (c : Combinator) (t : Ty) : List Ty :=
  match t with
  | compound d a b rest => if d = c then a :: b :: rest else [t]
  | _ => [t]

/-- The compound of a list of members; a single member stands for itself. -/
def join (c : Combinator) : List Ty → Ty
  | [] => unknown
  | [t] => t
  | a :: b :: rest => compound c a b rest

def numeric : Ty := compound .union int float []

/-- Any value at all. -/
def mixed : Ty := compound .union null bool [int, float, string, object, array, callable]

/-- The type of a kind that takes no further parts. -/
def ofKind? : Kind → Option Ty
  | .unknown => some unknown
  | .null => some null
  | .bool => some bool
  | .int => some int
  | .float => some float
  | .string => some string
  | .object => some object
  | .array => some array
  | .callable => some callable
  | .union | .intersection => none

mutual

def allowsNull : Ty → Bool
  | null => true
  | compound .union a b rest => a.allowsNull || b.allowsNull || anyAllowsNull rest
  | compound .intersection a b rest => a.allowsNull && b.allowsNull && allAllowNull rest
  | _ => false

def anyAllowsNull : List Ty → Bool
  | [] => false
  | t :: ts => t.allowsNull || anyAllowsNull ts

def allAllowNull : List Ty → Bool
  | [] => true
  | t :: ts => t.allowsNull && allAllowNull ts

end

end Ty

end TypeRecovery
