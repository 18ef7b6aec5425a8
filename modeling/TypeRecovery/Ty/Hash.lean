import TypeRecovery.Ty.Equiv

/-!
# Hashes of types

The hash of a type is put together from hashes of numbers, texts, tuples and sets, whatever functions
these are. The members of a compound enter as the set of their hashes, so that neither their order nor
their repetitions count. A set of types is searched by hash: a type is compared with those elements
only that have the same hash.
-/
namespace TypeRecovery

/-- How numbers and texts are hashed, tuples by the hashes of their items, and sets of numbers by
their elements in increasing order. -/
structure Hashing where
  number : Int → Int
  text : String → Int
  tuple : List Int → Int
  set : List Int → Int

/-- The hash of a pair of a kind and something that is hashed already. -/
def Hashing.tagged (f : Hashing) (k : Kind) (content : Int) : Int :=
  f.tuple [f.number k.code, content]

/-- Adds a number to a set that is kept as an increasing list. -/
def insertNumber (n : Int) : List Int → List Int
  | [] => [n]
  | m :: ms => if n < m then n :: m :: ms else if n = m then m :: ms else m :: insertNumber n ms

namespace Ty

mutual

def hash (f : Hashing) : Ty → Int
  | object => f.tagged .object (f.text (Key.of "").text)
  | named name => f.tagged .object (f.text (Key.of name).text)
  | arrayOf t => f.tagged .array (f.set [t.hash f])
  | compound c a b rest =>
    f.tagged c.kind
      (f.set (insertNumber (a.hash f) (insertNumber (b.hash f) (hashSet f rest))))
  | t => f.number t.kind.code

def hashSet (f : Hashing) : List Ty → List Int
  | [] => []
  | t :: ts => insertNumber (t.hash f) (hashSet f ts)

end

end Ty

structure HashedSet (f : Hashing) where
  elements : List Ty := []

namespace HashedSet

variable {f : Hashing}

def contains (s : HashedSet f) (t : Ty) : Bool :=
  s.elements.any fun u => u.hash f == t.hash f && u.equiv t

def insert (s : HashedSet f) (t : Ty) : HashedSet f :=
  if s.contains t then s else ⟨s.elements ++ [t]⟩

def ofList (f : Hashing) (ts : List Ty) : HashedSet f := ts.foldl insert {}

def size (s : HashedSet f) : Nat := s.elements.length

end HashedSet

end TypeRecovery
