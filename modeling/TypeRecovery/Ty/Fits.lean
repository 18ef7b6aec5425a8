import TypeRecovery.Hierarchy.Basic
import TypeRecovery.Ty.Equiv

/-!
# Where a type fits

`fits h a b` says that a value of type `a` may stand where `b` is expected, with the classes related
as in the hierarchy `h`. A union fits where all its members do, and an intersection where one of
them does; something fits a union if it fits one member, and an intersection if it fits all.
-/
namespace TypeRecovery.Ty

mutual

/-- Whether a target is met when `same` and `direct` decide on targets that are not compound; `same`
may also accept a compound as it stands. -/
def meets (same direct : Ty → Bool) : Ty → Bool
  | compound .union x y rest =>
    same (compound .union x y rest) ||
      (meets same direct x || meets same direct y || meetsAny same direct rest)
  | compound .intersection x y rest =>
    same (compound .intersection x y rest) ||
      (meets same direct x && meets same direct y && meetsAll same direct rest)
  | t => same t || direct t

def meetsAny (same direct : Ty → Bool) : List Ty → Bool
  | [] => false
  | t :: ts => meets same direct t || meetsAny same direct ts

def meetsAll (same direct : Ty → Bool) : List Ty → Bool
  | [] => true
  | t :: ts => meets same direct t && meetsAll same direct ts

end

/-- The rule for two types of which neither is compound and the first is no array. -/
def fitsPlain (h : Hierarchy) : Ty → Ty → Bool
  | named _, object => true
  | named a, named b => h.isSubtype (Key.of a) (Key.of b)
  | object, named _ => false
  | a, b => a.kind == b.kind

mutual

def fits (h : Hierarchy) : Ty → Ty → Bool
  | compound .union x y rest, b =>
    equiv (compound .union x y rest) b || (fits h x b && fits h y b && allFit h rest b)
  | compound .intersection x y rest, b =>
    meets (equiv (compound .intersection x y rest))
      (fun t => fits h x t || fits h y t || anyFits h rest t) b
  | arrayOf e, b =>
    meets (equiv (arrayOf e))
      (fun
        | array => true
        | arrayOf e' => fits h e e'
        | _ => false) b
  | array, b => meets (equiv array) (fun t => t matches array) b
  | a, b => meets (equiv a) (fitsPlain h a) b

def allFit (h : Hierarchy) : List Ty → Ty → Bool
  | [], _ => true
  | t :: ts, b => fits h t b && allFit h ts b

def anyFits (h : Hierarchy) : List Ty → Ty → Bool
  | [], _ => false
  | t :: ts, b => fits h t b || anyFits h ts b

end

end TypeRecovery.Ty
