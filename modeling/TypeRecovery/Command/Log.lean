/-!
# Log lines

Lines about the course of the work, each with a level and the part of the program that wrote it. The
verbosity says how much is shown.
-/
namespace TypeRecovery.Command

inductive Level where
  | debug
  | info
  deriving DecidableEq

namespace Level

/-- The level in five places. -/
def title : Level → String
  | debug => "DEBUG"
  | info => "INFO "

/-- The verbosity from which on a level is shown. -/
def threshold : Level → Nat
  | debug => 2
  | info => 1

end Level

structure LogLine where
  level : Level
  part : String
  message : String

def LogLine.text (l : LogLine) : String :=
  "[" ++ l.level.title ++ "] phptypes." ++ l.part ++ ": " ++ l.message

/-- The lines that are shown. -/
def shownLines (verbosity : Nat) (lines : List LogLine) : List String :=
  (lines.filter fun l => l.level.threshold ≤ verbosity).map LogLine.text

end TypeRecovery.Command
