import TypeRecovery.Text.Lowercase

/-!
# Case-insensitive names

Names of classes, functions and members are compared without regard to letter case. A key is the
lowercase form of such a name.
-/
namespace TypeRecovery

structure Key where
  text : String
  deriving DecidableEq, Inhabited

namespace Key

def of (name : String) : Key := ⟨Text.lower name⟩

/-- Keys in the order of their code points. -/
def sort (keys : List Key) : List Key := keys.mergeSort fun a b => a.text ≤ b.text

end Key

end TypeRecovery
