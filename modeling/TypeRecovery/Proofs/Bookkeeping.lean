import TypeRecovery.Proofs.Attempts
import TypeRecovery.Proofs.FirstSeen

/-!
# Findings under any sequence of calls

Findings are changed by calls that may come in any order and on any operands. An operand goes from
nothing to a guess and from there to a settled type, and never back. What is pending are the
operands that came and are not settled, in the order in which they came. A count of no new guesses
means that every guess there is was there at the last count, up to equality: a guess that is new or
differs from the one it replaces is counted before it is put in its place, and equality of types is
transitive.
-/
namespace TypeRecovery

namespace Finding

/-- From one finding to a later one: not back, and not to another settled type. -/
structure Onward (v w : Finding) : Prop where
  rank : v.rank ≤ w.rank
  settled : ∀ t, v = .settled t → w = .settled t

theorem Onward.refl (v : Finding) : Onward v v := ⟨Nat.le_refl _, fun _ h => h⟩

theorem Onward.trans {u v w : Finding} (h : Onward u v) (h' : Onward v w) : Onward u w :=
  ⟨Nat.le_trans h.rank h'.rank, fun t ht => h'.settled t (h.settled t ht)⟩

theorem onward_settled {v : Finding} (hv : v.isSettled = false) (t : Ty) :
    Onward v (.settled t) := by
  cases v with
  | settled u => cases hv
  | _ => exact ⟨by simp [Finding.rank], fun t h => by cases h⟩

theorem onward_guess {v : Finding} (hv : v.isSettled = false) (t : Ty) : Onward v (.guess t) := by
  cases v with
  | settled u => cases hv
  | _ => exact ⟨by simp [Finding.rank], fun t h => by cases h⟩

theorem onward_promote (v : Finding) : Onward v v.promote := by
  cases v with
  | guess t => exact onward_settled rfl t
  | _ => exact Onward.refl _

end Finding

namespace Findings

inductive Call where
  | add (x : OperandId)
  | settle (x : OperandId) (t : Ty)
  | suggest (x : OperandId) (t : Ty)
  | promote
  | take

namespace Call

/-- The operand that a call brings in. -/
def operand? : Call → Option OperandId
  | add x | settle x _ | suggest x _ => some x
  | promote | take => none

/-- Only operands that are not settled may be settled. -/
def Allowed (f : Findings) : Call → Prop
  | settle x _ => (f.about x).isSettled = false
  | _ => True

end Call

def perform (f : Findings) : Call → Findings
  | .add x => f.add x
  | .settle x t => f.settle x t
  | .suggest x t => f.suggest x t
  | .promote => f.promote
  | .take => f.takeChanges.2

def performAll (f : Findings) (calls : List Call) : Findings := calls.foldl perform f

/-- Every call is allowed at its time. -/
def Lawful (f : Findings) : List Call → Prop
  | [] => True
  | c :: calls => c.Allowed f ∧ (f.perform c).Lawful calls

@[simp] theorem performAll_nil (f : Findings) : f.performAll [] = f := rfl

@[simp] theorem performAll_cons (f : Findings) (c : Call) (calls : List Call) :
    f.performAll (c :: calls) = (f.perform c).performAll calls := rfl

theorem performAll_append (f : Findings) (calls calls' : List Call) :
    f.performAll (calls ++ calls') = (f.performAll calls).performAll calls' := List.foldl_append

theorem lawful_append {f : Findings} {calls calls' : List Call} :
    f.Lawful (calls ++ calls') ↔ f.Lawful calls ∧ (f.performAll calls).Lawful calls' := by
  induction calls generalizing f with
  | nil => simp [Lawful]
  | cons c calls ih => simp [Lawful, ih, and_assoc]

theorem onward_perform {f : Findings} {c : Call} (h : c.Allowed f) (x : OperandId) :
    (f.about x).Onward ((f.perform c).about x) := by
  cases c with
  | add y =>
    rw [perform, about_add]
    exact Finding.Onward.refl _
  | settle y t =>
    rw [perform, about_settle]
    split
    · rename_i hy
      subst hy
      exact Finding.onward_settled h t
    · exact Finding.Onward.refl _
  | suggest y t =>
    rw [perform, about_suggest]
    split
    · rename_i hy
      obtain ⟨rfl, hnot⟩ := hy
      exact Finding.onward_guess hnot t
    · exact Finding.Onward.refl _
  | promote =>
    rw [perform, about_promote]
    exact Finding.onward_promote _
  | take => exact Finding.Onward.refl _

theorem onward_performAll {f : Findings} {calls : List Call} (h : f.Lawful calls) (x : OperandId) :
    (f.about x).Onward ((f.performAll calls).about x) := by
  induction calls generalizing f with
  | nil => exact Finding.Onward.refl _
  | cons c calls ih => exact (onward_perform h.1 x).trans (ih h.2)

theorem mem_keys_of_isSettled {f : Findings} {x : OperandId} (h : (f.about x).isSettled = true) :
    x ∈ f.table.keys := by
  by_contra hx
  rw [about_of_not_mem hx] at h
  cases h

theorem firstSeen_perform {f : Findings} {xs : List OperandId} (h : FirstSeen xs f.table.keys)
    (c : Call) : FirstSeen (xs ++ c.operand?.toList) (f.perform c).table.keys := by
  have hsame : FirstSeen (xs ++ []) f.table.keys := by rwa [List.append_nil]
  cases c with
  | add x => exact h.keys_alter x _
  | settle x t => exact h.keys_alter x _
  | suggest x t =>
    rw [perform, suggest]
    split
    · rename_i hx
      have hsnoc := h.snoc x
      rwa [if_pos (mem_keys_of_isSettled hx)] at hsnoc
    · exact h.keys_alter x _
  | promote =>
    have hkeys : (f.table.mapValues Finding.promote).keys = f.table.keys := by
      simp [Table.keys, Table.mapValues]
    rw [perform, promote, hkeys]
    exact hsame
  | take => exact hsame

theorem firstSeen_performAll {f : Findings} {xs : List OperandId} (h : FirstSeen xs f.table.keys)
    (calls : List Call) :
    FirstSeen (xs ++ calls.filterMap Call.operand?) (f.performAll calls).table.keys := by
  induction calls generalizing f xs with
  | nil => simpa using h
  | cons c calls ih =>
    have hrest := ih (firstSeen_perform h c)
    rw [List.append_assoc] at hrest
    cases hc : c.operand? with
    | none => simpa [hc] using hrest
    | some x => simpa [hc] using hrest

/-- Every guess of `g` is one of `f`, up to equality. -/
def Confirms (f g : Findings) : Prop :=
  ∀ x t, g.about x = .guess t → ∃ u, f.about x = .guess u ∧ u.equiv t = true

theorem Confirms.refl (f : Findings) : Confirms f f := fun _ t h => ⟨t, h, Ty.equiv_refl t⟩

theorem Confirms.trans {f g k : Findings} (h : Confirms f g) (h' : Confirms g k) :
    Confirms f k := by
  intro x t ht
  obtain ⟨u, hu, hut⟩ := h' x t ht
  obtain ⟨v, hv, hvu⟩ := h x u hu
  exact ⟨v, hv, Ty.equiv_trans hvu hut⟩

theorem confirms_suggest {f : Findings} {x : OperandId} {t : Ty}
    (h : Finding.Same (f.about x) (.guess t)) : Confirms f (f.suggest x t) := by
  intro y u hu
  rw [about_suggest] at hu
  split at hu
  · rename_i hy
    obtain ⟨rfl, -⟩ := hy
    obtain rfl := Finding.guess.inj hu
    cases hv : f.about x with
    | guess v =>
      rw [hv] at h
      cases h with | guess hequiv => exact ⟨v, rfl, hequiv⟩
    | _ =>
      rw [hv] at h
      cases h
  · exact ⟨u, hu, Ty.equiv_refl u⟩

/-- The count does not go down, and if it stays, no guess is new. -/
theorem changes_perform (f : Findings) {c : Call} (hc : c ≠ .take) :
    f.changes ≤ (f.perform c).changes ∧
      ((f.perform c).changes = f.changes → Confirms f (f.perform c)) := by
  cases c with
  | add x =>
    refine ⟨Nat.le_refl _, fun _ y t ht => ?_⟩
    rw [perform, about_add] at ht
    exact Confirms.refl f y t ht
  | settle x t =>
    refine ⟨Nat.le_refl _, fun _ y u hu => ?_⟩
    rw [perform, about_settle] at hu
    split at hu
    · cases hu
    · exact Confirms.refl f y u hu
  | suggest x t =>
    cases hx : (f.about x).isSettled with
    | true =>
      have hsame : f.perform (.suggest x t) = f := if_pos hx
      rw [hsame]
      exact ⟨Nat.le_refl _, fun _ => Confirms.refl f⟩
    | false =>
      obtain ⟨-, -, -, hle, hsame⟩ := Analysis.suggest_spec hx t
      exact ⟨hle, fun heq => confirms_suggest (hsame.1 heq)⟩
  | promote =>
    refine ⟨Nat.le_refl _, fun _ y t ht => ?_⟩
    rw [perform, about_promote] at ht
    cases hv : f.about y <;> simp [hv, Finding.promote] at ht
  | take => exact absurd rfl hc

theorem changes_performAll (f : Findings) {calls : List Call} (hc : .take ∉ calls) :
    f.changes ≤ (f.performAll calls).changes ∧
      ((f.performAll calls).changes = f.changes → Confirms f (f.performAll calls)) := by
  induction calls generalizing f with
  | nil => exact ⟨Nat.le_refl _, fun _ => Confirms.refl f⟩
  | cons c calls ih =>
    obtain ⟨hfirst, hrest⟩ := not_or.1 (mt List.mem_cons.2 hc)
    obtain ⟨hle, hsame⟩ := changes_perform f (Ne.symm hfirst)
    obtain ⟨hle', hsame'⟩ := ih (f.perform c) hrest
    rw [performAll_cons]
    refine ⟨Nat.le_trans hle hle', fun heq => ?_⟩
    -- a count that is the same at the end was the same on the way
    exact (hsame (by omega)).trans (hsame' (by omega))

/-- The findings after calls that start with none. -/
def after (calls : List Call) : Findings := empty.performAll calls

theorem after_append (calls calls' : List Call) :
    after (calls ++ calls') = (after calls).performAll calls' := performAll_append _ _ _

theorem onward_after {calls front : List Call} (h : empty.Lawful calls) (hfront : front <+: calls)
    (x : OperandId) : ((after front).about x).Onward ((after calls).about x) := by
  obtain ⟨back, rfl⟩ := hfront
  rw [after_append]
  exact onward_performAll (lawful_append.1 h).2 x

theorem firstSeen_after (calls : List Call) :
    FirstSeen (calls.filterMap Call.operand?) (after calls).table.keys := by
  have hempty : FirstSeen [] empty.table.keys := .nil
  exact firstSeen_performAll hempty calls

theorem confirms_after_take {front back : List Call} (hback : .take ∉ back)
    (hzero : (after (front ++ .take :: back)).changes = 0) :
    Confirms (after (front ++ [.take])) (after (front ++ .take :: back)) := by
  have hsplit : front ++ .take :: back = front ++ [.take] ++ back := by simp
  have htaken : (after (front ++ [.take])).changes = 0 := by
    rw [after_append]
    rfl
  rw [hsplit, after_append (front ++ [Call.take]) back] at hzero ⊢
  exact (changes_performAll _ hback).2 (hzero.trans htaken.symm)

/-- Operands only move on, and a settled type stays. The operands that came and are not settled are
pending, in the order in which they came. If there is nothing to count, all guesses were there at
the last count, and there are none where nothing was counted before. -/
theorem course_of_calls {calls : List Call} (h : empty.Lawful calls) :
    (∀ front, front <+: calls → ∀ x,
      ((after front).about x).rank ≤ ((after calls).about x).rank ∧
      ∀ t, (after front).about x = .settled t → (after calls).about x = .settled t) ∧
    ((after calls).pending.Nodup ∧
      (∀ x, x ∈ (after calls).pending ↔
        x ∈ calls.filterMap Call.operand? ∧ ((after calls).about x).isSettled = false) ∧
      (after calls).pending.Pairwise fun x y =>
        (calls.filterMap Call.operand?).idxOf x < (calls.filterMap Call.operand?).idxOf y) ∧
    ((after calls).takeChanges.1 = 0 →
      (∀ front back, calls = front ++ .take :: back → .take ∉ back → ∀ x t,
        (after calls).about x = .guess t →
          ∃ u, (after (front ++ [.take])).about x = .guess u ∧ u.equiv t = true) ∧
      (.take ∉ calls → ∀ x t, (after calls).about x ≠ .guess t)) := by
  have hkeys := firstSeen_after calls
  refine ⟨fun front hfront x => ?_, ⟨nodup_pending hkeys.nodup, fun x => ?_, ?_⟩,
    fun hzero => ⟨?_, ?_⟩⟩
  · have hlater := onward_after h hfront x
    exact ⟨hlater.rank, hlater.settled⟩
  · rw [mem_pending hkeys.nodup, hkeys.mem]
  · exact hkeys.order.sublist (List.filter_sublist.map Prod.fst)
  · rintro front back rfl hback
    exact confirms_after_take hback hzero
  · intro htake x t ht
    obtain ⟨u, hu, -⟩ := (changes_performAll empty htake).2 hzero x t ht
    cases hu

/-- A guess is repeated in other letters, another one is settled, and one operand comes late. -/
def mixedCalls : List Call :=
  [.suggest ⟨0⟩ (.named "Foo"), .suggest ⟨1⟩ .int, .take, .settle ⟨1⟩ .string, .suggest ⟨1⟩ .bool,
    .suggest ⟨0⟩ (.named "FOO"), .add ⟨2⟩]

theorem course_of_mixedCalls :
    empty.Lawful mixedCalls ∧ (after mixedCalls).takeChanges.1 = 0 ∧
      (after mixedCalls).about ⟨0⟩ = .guess (.named "FOO") ∧
      (after mixedCalls).pending = [⟨0⟩, ⟨2⟩] ∧
      ∃ u, (after [.suggest ⟨0⟩ (.named "Foo"), .suggest ⟨1⟩ .int, .take]).about ⟨0⟩ = .guess u ∧
        u.equiv (.named "FOO") = true := by
  have hlawful : empty.Lawful mixedCalls :=
    ⟨trivial, trivial, trivial, rfl, trivial, trivial, trivial, trivial⟩
  have hzero : (after mixedCalls).takeChanges.1 = 0 := by decide
  have habout : (after mixedCalls).about ⟨0⟩ = .guess (.named "FOO") := rfl
  obtain ⟨-, -, hcount⟩ := course_of_calls hlawful
  exact ⟨hlawful, hzero, habout, rfl,
    (hcount hzero).1 [.suggest ⟨0⟩ (.named "Foo"), .suggest ⟨1⟩ .int] _ rfl (by simp) ⟨0⟩ _ habout⟩

end Findings

end TypeRecovery
