import TypeRecovery.Recovery.Rules

/-!
# Recovery of types

Rounds over the operands that are not settled. An operand is settled when all operations that write
it answer from settled operands; an answer that hears a guess is itself a guess. When a round
settles nothing and changes no guess, the guesses are final. The number of rounds is bounded by the
settings.
-/
namespace TypeRecovery

namespace Analysis

/-- What is found about an operand before any round. -/
def seedOne (a : Analysis) (f : Findings) (x : OperandId) : Except Fault Findings :=
  let o := a.graph.operand x
  if !o.type.isUnknown then .ok (f.settle x o.type)
  else match o.objectClass?, o.literal? with
    | some cls, _ => .ok (f.settle x (Ty.declaredOrMixed cls))
    | none, some v => match Ty.ofValue v with
      | .ok t => .ok (f.settle x t)
      | .error p => .error (.problem p)
    | none, none => .ok (f.add x)

def seed (a : Analysis) : Except Fault Findings := a.operands.foldlM a.seedOne .empty

/-- Tries one operand, and says whether it is settled now. -/
def attempt (a : Analysis) (f : Findings) (x : OperandId) : Except Fault (Findings × Bool) :=
  let i := a.inquiry x
  match i.outcome f.known? with
  | .answer t => if i.hearsGuess f then .ok (f.suggest x t, false) else .ok (f.settle x t, true)
  | .wait => .ok (f, false)
  | .guess t => .ok (f.suggest x t, false)
  | .fault e => .error e

/-- Tries operands in order, and counts those that are settled. -/
def attemptAll (a : Analysis) (f : Findings) (xs : List OperandId) :
    Except Fault (Findings × Nat) :=
  xs.foldlM (fun (f, n) x => do
    let (f, settled) ← a.attempt f x
    return (f, if settled then n + 1 else n)) (f, 0)

/-- The end of the rounds. -/
structure Ending where
  findings : Findings
  rounds : Nat
  converged : Bool

/-- At most `limit` rounds. -/
def solve (a : Analysis) : (limit : Nat) → Findings → Except Fault Ending
  | 0, f => .ok ⟨f, 0, f.pending.isEmpty⟩
  | limit + 1, f =>
    if f.pending.isEmpty then .ok ⟨f, 0, true⟩
    else do
      let (f, settled) ← a.attemptAll f f.pending
      let (changes, f) := f.takeChanges
      if settled = 0 ∧ changes = 0 then return ⟨f.promote, 1, true⟩
      let ending ← a.solve limit f
      return { ending with rounds := ending.rounds + 1 }

end Analysis

structure Recovery where
  analysis : Analysis
  findings : Findings
  rounds : Nat
  converged : Bool

namespace Recovery

def run (a : Analysis) : Except Fault Recovery := do
  let ending ← a.solve a.settings.maxRounds (← a.seed)
  return ⟨a, ending.findings, ending.rounds, ending.converged⟩

/-- The type of each operand of the program, in order. -/
def types (r : Recovery) : List (OperandId × Ty) :=
  r.analysis.operands.map fun x => (x, r.findings.final x)

/-- The type of an operand; unknown for one that the program does not use. -/
def typeOf (r : Recovery) (x : OperandId) : Ty :=
  if x ∈ r.analysis.operands then r.findings.final x else .unknown

def unresolved (r : Recovery) : List OperandId :=
  (r.types.filter fun e => e.2.isUnknown).map Prod.fst

def resolvedCount (r : Recovery) : Nat := r.types.countP fun e => !e.2.isUnknown

/-- The program graph with the types that were found. -/
def graph (r : Recovery) : Graph := r.types.foldl (fun g (x, t) => g.setType x t) r.analysis.graph

def warnings (r : Recovery) : List String :=
  if r.converged then []
  else ["Stopped after " ++ toString r.rounds ++ " rounds with " ++
    toString r.findings.pending.length ++ " operands pending"]

end Recovery

end TypeRecovery
