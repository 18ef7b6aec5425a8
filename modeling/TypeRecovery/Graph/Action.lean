/-!
# What operations do

The actions of operations, with the words by which programs and messages name them. The last ones
are declarations.
-/
namespace TypeRecovery

inductive Action where
  | instanceOf
  | equal
  | notEqual
  | greater
  | greaterOrEqual
  | identical
  | notIdentical
  | smaller
  | smallerOrEqual
  | logicalAnd
  | logicalOr
  | logicalXor
  | booleanNot
  | castBool
  | isEmpty
  | isSet
  | bitwiseAnd
  | bitwiseOr
  | bitwiseXor
  | bitwiseNot
  | plus
  | minus
  | times
  | divide
  | modulo
  | shiftLeft
  | shiftRight
  | unaryMinus
  | unaryPlus
  | concat
  | concatList
  | castString
  | castInt
  | castDouble
  | castArray
  | castObject
  | newArray
  | arrayDimFetch
  | assign
  | assignRef
  | cloneObject
  | closureValue
  | printText
  | exitProgram
  | funcCall
  | nsFuncCall
  | methodCall
  | staticCall
  | newObject
  | parameter
  | propertyFetch
  | staticPropertyFetch
  | constFetch
  | classConstFetch
  | staticVar
  | assertion
  | phi
  | iteratorKey
  | iteratorReset
  | iteratorValid
  | iteratorValue
  | evaluate
  | includeFile
  | yieldValue
  | classDecl
  | interfaceDecl
  | traitDecl
  | functionDecl
  | methodDecl
  | propertyDecl
  | classConstantDecl
  | constantDecl
  deriving DecidableEq, Inhabited

namespace Action

def all : List Action :=
  [instanceOf, equal, notEqual, greater, greaterOrEqual, identical, notIdentical, smaller,
   smallerOrEqual, logicalAnd, logicalOr, logicalXor, booleanNot, castBool, isEmpty, isSet,
   bitwiseAnd, bitwiseOr, bitwiseXor, bitwiseNot, plus, minus, times, divide, modulo, shiftLeft,
   shiftRight, unaryMinus, unaryPlus, concat, concatList, castString, castInt, castDouble,
   castArray, castObject, newArray, arrayDimFetch, assign, assignRef, cloneObject, closureValue,
   printText, exitProgram, funcCall, nsFuncCall, methodCall, staticCall, newObject, parameter,
   propertyFetch, staticPropertyFetch, constFetch, classConstFetch, staticVar, assertion, phi,
   iteratorKey, iteratorReset, iteratorValid, iteratorValue, evaluate, includeFile, yieldValue,
   classDecl, interfaceDecl, traitDecl, functionDecl, methodDecl, propertyDecl,
   classConstantDecl, constantDecl]

def word : Action → String
  | instanceOf => "instanceof"
  | equal => "equal"
  | notEqual => "not_equal"
  | greater => "greater"
  | greaterOrEqual => "greater_or_equal"
  | identical => "identical"
  | notIdentical => "not_identical"
  | smaller => "smaller"
  | smallerOrEqual => "smaller_or_equal"
  | logicalAnd => "logical_and"
  | logicalOr => "logical_or"
  | logicalXor => "logical_xor"
  | booleanNot => "boolean_not"
  | castBool => "cast_bool"
  | isEmpty => "empty"
  | isSet => "isset"
  | bitwiseAnd => "bitwise_and"
  | bitwiseOr => "bitwise_or"
  | bitwiseXor => "bitwise_xor"
  | bitwiseNot => "bitwise_not"
  | plus => "plus"
  | minus => "minus"
  | times => "mul"
  | divide => "div"
  | modulo => "mod"
  | shiftLeft => "shift_left"
  | shiftRight => "shift_right"
  | unaryMinus => "unary_minus"
  | unaryPlus => "unary_plus"
  | concat => "concat"
  | concatList => "concat_list"
  | castString => "cast_string"
  | castInt => "cast_int"
  | castDouble => "cast_double"
  | castArray => "cast_array"
  | castObject => "cast_object"
  | newArray => "array"
  | arrayDimFetch => "array_dim_fetch"
  | assign => "assign"
  | assignRef => "assign_ref"
  | cloneObject => "clone"
  | closureValue => "closure"
  | printText => "print"
  | exitProgram => "exit"
  | funcCall => "func_call"
  | nsFuncCall => "ns_func_call"
  | methodCall => "method_call"
  | staticCall => "static_call"
  | newObject => "new"
  | parameter => "param"
  | propertyFetch => "property_fetch"
  | staticPropertyFetch => "static_property_fetch"
  | constFetch => "const_fetch"
  | classConstFetch => "class_const_fetch"
  | staticVar => "static_var"
  | assertion => "assertion"
  | phi => "phi"
  | iteratorKey => "iterator_key"
  | iteratorReset => "iterator_reset"
  | iteratorValid => "iterator_valid"
  | iteratorValue => "iterator_value"
  | evaluate => "eval"
  | includeFile => "include"
  | yieldValue => "yield"
  | classDecl => "class"
  | interfaceDecl => "interface"
  | traitDecl => "trait"
  | functionDecl => "function"
  | methodDecl => "class_method"
  | propertyDecl => "property"
  | classConstantDecl => "class_const"
  | constantDecl => "const"

def ofWord? (w : String) : Option Action := all.find? (·.word == w)

end Action

end TypeRecovery
