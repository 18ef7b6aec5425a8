import TypeRecovery.Findings
import TypeRecovery.Problem.Basic

/-!
# Inquiries

A rule finds a type by asking what is known of operands. An inquiry is such a rule laid out as a
tree: each question goes on according to its answer, and each path ends in a result, in the verdict
that it is too early to tell, in a guess, or in a fault. What an inquiry comes to depends on nothing
but the answers to its questions.
-/
namespace TypeRecovery

inductive Inquiry (α : Type) where
  | answer (a : α)
  | wait
  | guess (t : Ty)
  | fault (f : Fault)
  | ask (x : OperandId) (next : Option Ty → Inquiry α)

/-- What an inquiry comes to. -/
inductive Outcome (α : Type) where
  | answer (a : α)
  | wait
  | guess (t : Ty)
  | fault (f : Fault)

namespace Inquiry

variable {α β : Type}

protected def bind : Inquiry α → (α → Inquiry β) → Inquiry β
  | answer a, k => k a
  | wait, _ => wait
  | guess t, _ => guess t
  | fault f, _ => fault f
  | ask x next, k => ask x fun t => (next t).bind k

instance : Monad Inquiry where
  pure := answer
  bind := Inquiry.bind

/-- The type that is known of an operand, if there is one. -/
def known? (x : Option OperandId) : Inquiry (Option Ty) :=
  match x with
  | none => answer none
  | some x => ask x answer

/-- The type of an operand, which has to be known. -/
def known (x : Option OperandId) : Inquiry Ty := do
  match ← known? x with
  | none => wait
  | some t => answer t

def ofOption (a : Option α) : Inquiry α :=
  match a with
  | none => wait
  | some a => answer a

/-- No types are no result. -/
def types (ts : List Ty) : Inquiry (List Ty) := if ts.isEmpty then wait else answer ts

/-- Puts a fault into other words. -/
def mapFault (g : Fault → Fault) : Inquiry α → Inquiry α
  | fault f => fault (g f)
  | ask x next => ask x fun t => (next t).mapFault g
  | i => i

/-- What the inquiry comes to when `known` answers the questions. -/
def outcome (known : OperandId → Option Ty) : Inquiry α → Outcome α
  | answer a => .answer a
  | wait => .wait
  | guess t => .guess t
  | fault f => .fault f
  | ask x next => (next (known x)).outcome known

/-- The operands asked about when `known` answers the questions. -/
def asked (known : OperandId → Option Ty) : Inquiry α → List OperandId
  | ask x next => x :: (next (known x)).asked known
  | _ => []

/-- Whether the inquiry hears a guess. -/
def hearsGuess (f : Findings) (i : Inquiry α) : Bool :=
  (i.asked f.known?).any fun x => (f.about x).isGuess

@[simp] theorem pure_bind (a : α) (k : α → Inquiry β) : (pure a >>= k) = k a := rfl

/-- An inquiry that goes on comes to what its continuation comes to. -/
theorem outcome_bind (known : OperandId → Option Ty) (i : Inquiry α) (k : α → Inquiry β) :
    (i >>= k).outcome known =
      match i.outcome known with
      | .answer a => (k a).outcome known
      | .wait => .wait
      | .guess t => .guess t
      | .fault f => .fault f := by
  induction i with
  | answer a => rfl
  | wait => rfl
  | guess t => rfl
  | fault f => rfl
  | ask x next ih => exact ih (known x)

/-- The questions of an inquiry come before those of its continuation. -/
theorem asked_bind (known : OperandId → Option Ty) (i : Inquiry α) (k : α → Inquiry β) :
    (i >>= k).asked known =
      i.asked known ++ match i.outcome known with
        | .answer a => (k a).asked known
        | _ => [] := by
  induction i with
  | answer a => rfl
  | wait => rfl
  | guess t => rfl
  | fault f => rfl
  | ask x next ih => exact congrArg (x :: ·) (ih (known x))

end Inquiry

end TypeRecovery
