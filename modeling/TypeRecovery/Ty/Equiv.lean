import TypeRecovery.Ty.Basic

/-!
# Equality of types

Class names are compared without regard to letter case, an unnamed object is the same as one with
an empty name, and compounds are compared as collections: the members of one are paired off with
equal members of the other, and none may be left over.
-/
namespace TypeRecovery.Ty

/-- The key of an object's class, empty for any object. -/
def classKey? : Ty → Option Key
  | object => some (Key.of "")
  | named name => some (Key.of name)
  | _ => none

/-- Takes the first member that satisfies `p` out of a list. -/
def pluck (p : Ty → Bool) : List Ty → Option (List Ty)
  | [] => none
  | t :: ts => if p t then some ts else (pluck p ts).map (t :: ·)

mutual

def equiv : Ty → Ty → Bool
  | unknown, unknown | null, null | bool, bool | int, int | float, float | string, string
  | array, array | callable, callable => true
  | object, t => t.classKey? == some (Key.of "")
  | named name, t => t.classKey? == some (Key.of name)
  | arrayOf a, arrayOf b => equiv a b
  | compound c x y rest, compound d x' y' rest' =>
    c == d &&
      (match pluck (equiv x) (x' :: y' :: rest') with
        | none => false
        | some others => match pluck (equiv y) others with
          | none => false
          | some others => pairOff rest others)
  | _, _ => false

/-- Whether the members can be paired off with equal ones, with none left over. -/
def pairOff : List Ty → List Ty → Bool
  | [], others => others.isEmpty
  | t :: ts, others => match pluck (equiv t) others with
    | none => false
    | some others => pairOff ts others

end

/-- One type for each class of equal types, the first of each. -/
def unique (ts : List Ty) : List Ty :=
  ts.foldl (fun kept t => if kept.any (equiv t) then kept else kept ++ [t]) []

end TypeRecovery.Ty
