import TypeRecovery.Ty.Algebra
import TypeRecovery.Ty.Fits

/-!
# Merging what is known about a value

Types are ordered by how much they say: `unknown` is below everything, and the least upper bound of
two other types is their union.
-/
namespace TypeRecovery.Ty

def bottom : Ty := unknown
def top : Ty := mixed

/-- The union of two types, of which an unknown one has no part. -/
def lub (a b : Ty) : Ty :=
  if a.isUnknown then b
  else if b.isUnknown then a
  else a.unionWith b

def lubAll (ts : List Ty) : Ty := ts.foldl lub bottom

def le (h : Hierarchy) (a b : Ty) : Bool :=
  if a.isUnknown then true
  else if b.isUnknown then false
  else fits h a b

@[simp] theorem lub_unknown_left (t : Ty) : lub unknown t = t := rfl

end TypeRecovery.Ty
