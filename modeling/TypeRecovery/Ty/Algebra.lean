import TypeRecovery.Ty.Equiv

/-!
# Operations on types

Flattening of nested compounds, union and intersection of two types and of a list, and removal of a
member. Equal members are kept once, in the place of the first.
-/
namespace TypeRecovery.Ty

theorem parts_ne_nil (c : Combinator) (t : Ty) : t.parts c ≠ [] := by
  cases t with
  | compound d a b rest => by_cases h : d = c <;> simp [parts, h]
  | _ => simp [parts]

/-- A type is the compound of its parts. -/
theorem join_parts (c : Combinator) (t : Ty) : join c (t.parts c) = t := by
  cases t with
  | compound d a b rest => by_cases h : d = c <;> simp [parts, join, h]
  | _ => rfl

mutual

/-- Merges every compound into the compound of the same kind around it. -/
def simplify : Ty → Ty
  | arrayOf t => arrayOf t.simplify
  | compound c a b rest => join c (a.simplify.parts c ++ (b.simplify.parts c ++ simplifyParts c rest))
  | t => t

def simplifyParts (c : Combinator) : List Ty → List Ty
  | [] => []
  | t :: ts => t.simplify.parts c ++ simplifyParts c ts

end

def combine (c : Combinator) (a b : Ty) : Ty :=
  if a.equiv b then a else join c (unique (a.parts c ++ b.parts c))

def unionWith (a b : Ty) : Ty := combine .union a b
def intersectionWith (a b : Ty) : Ty := combine .intersection a b

/-- The combination of all types of a list, from the left; there is none of no types. -/
def combineAll? (c : Combinator) : List Ty → Option Ty
  | [] => none
  | t :: ts => some (ts.foldl (combine c) t)

def unionOf? (ts : List Ty) : Option Ty := combineAll? .union ts
def intersectionOf? (ts : List Ty) : Option Ty := combineAll? .intersection ts

/-- Drops every member equal to `t` from a union. What would have nothing left is `null`. -/
def remove (u t : Ty) : Ty :=
  if u.equiv t then null
  else match u with
    | compound .union a b rest =>
      match (a :: b :: rest).filter fun m => !m.equiv t with
      | [] => null
      | kept => join .union kept
    | _ => u

end TypeRecovery.Ty
