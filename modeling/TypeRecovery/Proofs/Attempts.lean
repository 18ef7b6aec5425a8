import Mathlib.Data.List.Nodup
import Mathlib.Tactic.ByContra
import TypeRecovery.Proofs.Equality
import TypeRecovery.Recovery.Solver

/-!
# What a round does to each operand

A round tries the pending operands one after the other. Each is tried once, with findings in which
those before it have been tried and those behind it have not. So a round is described operand by
operand: what it leaves of each is what one attempt makes of it. A round without progress leaves
everything as it was, up to equality of guesses.
-/
namespace TypeRecovery

namespace Finding

/-- How far an operand has come. -/
def rank : Finding → Nat
  | nothing => 0
  | guess _ => 1
  | settled _ => 2

/-- The same up to equality of guesses. -/
inductive Same : Finding → Finding → Prop
  | nothing : Same .nothing .nothing
  | guess {t u : Ty} (h : t.equiv u = true) : Same (.guess t) (.guess u)
  | settled (t : Ty) : Same (.settled t) (.settled t)

theorem Same.refl (v : Finding) : Same v v := by
  cases v with
  | nothing => exact .nothing
  | guess t => exact .guess (Ty.equiv_refl t)
  | settled t => exact .settled t

theorem Same.symm {v w : Finding} (h : Same v w) : Same w v := by
  cases h with
  | nothing => exact .nothing
  | guess h => exact .guess (Ty.equiv_symm h)
  | settled t => exact .settled t

theorem Same.trans {u v w : Finding} (h : Same u v) (h' : Same v w) : Same u w := by
  cases h with
  | nothing => exact h'
  | guess h => cases h' with | guess h' => exact .guess (Ty.equiv_trans h h')
  | settled t => exact h'

theorem Same.known? {v w : Finding} (h : Same v w) :
    Option.Rel (fun t u => Ty.equiv t u = true) v.known? w.known? := by
  cases h with
  | nothing => exact .none
  | guess h => exact .some h
  | settled t => exact .some (Ty.equiv_refl t)

theorem same_guess_iff {v : Finding} {t : Ty} (hv : v.isSettled = false) :
    Same v (.guess t) ↔ v.isNews t = false := by
  cases v with
  | nothing =>
    simp only [isNews, Bool.true_eq_false, iff_false]
    intro h
    cases h
  | guess u =>
    simp only [isNews, Bool.not_eq_false']
    constructor
    · intro h
      cases h with | guess h => exact h
    · exact .guess
  | settled u => simp [isSettled] at hv

end Finding

namespace Findings

theorem mem_pending {f : Findings} (hn : f.table.keys.Nodup) {x : OperandId} :
    x ∈ f.pending ↔ x ∈ f.table.keys ∧ (f.about x).isSettled = false := by
  have hget {v : Finding} (hv : (x, v) ∈ f.table.entries) : f.about x = v := by
    rw [about, Table.get?, (Table.lookupIn_eq_some hn).2 hv, Option.getD_some]
  simp only [pending, Table.keys, List.mem_map, List.mem_filter]
  constructor
  · rintro ⟨⟨y, v⟩, ⟨hv, hs⟩, rfl⟩
    refine ⟨⟨_, hv, rfl⟩, ?_⟩
    rw [hget hv]
    simpa using hs
  · rintro ⟨⟨⟨y, v⟩, hv, rfl⟩, hs⟩
    rw [hget hv] at hs
    exact ⟨_, ⟨hv, by simpa using hs⟩, rfl⟩

theorem nodup_pending {f : Findings} (hn : f.table.keys.Nodup) : f.pending.Nodup :=
  hn.sublist (List.filter_sublist.map Prod.fst)

theorem about_of_not_mem {f : Findings} {x : OperandId} (h : x ∉ f.table.keys) :
    f.about x = .nothing := by
  unfold about
  cases hg : f.table.get? x with
  | none => rfl
  | some v => exact absurd (Table.mem_keys_of_get? hg) h

theorem mem_pending_of_guess {f : Findings} (hn : f.table.keys.Nodup) {x : OperandId} {t : Ty}
    (h : f.about x = .guess t) : x ∈ f.pending := by
  rw [mem_pending hn, h]
  refine ⟨?_, rfl⟩
  by_contra hk
  rw [about_of_not_mem hk] at h
  cases h

/-- The count of new guesses says nothing about operands. -/
@[simp] theorem about_takeChanges (f : Findings) (x : OperandId) :
    f.takeChanges.2.about x = f.about x := rfl

end Findings

namespace Analysis

/-- What an attempt at an operand leaves of it. -/
def Attempted (a : Analysis) (f : Findings) (x : OperandId) (v : Finding) : Prop :=
  match (a.inquiry x).outcome f.known? with
  | .answer t => v = if (a.inquiry x).hearsGuess f then .guess t else .settled t
  | .wait => v = f.about x
  | .guess t => v = .guess t
  | .fault _ => False

/-- What an attempt does. -/
structure AttemptSpec (a : Analysis) (f : Findings) (x : OperandId) (g : Findings)
    (settled : Bool) : Prop where
  attempted : a.Attempted f x (g.about x)
  others : ∀ y, y ≠ x → g.about y = f.about y
  keys : x ∈ f.table.keys → g.table.keys = f.table.keys
  changes : f.changes ≤ g.changes
  still : settled = false ∧ g.changes = f.changes ↔ Finding.Same (f.about x) (g.about x)

theorem suggest_spec {f : Findings} {x : OperandId} (hx : (f.about x).isSettled = false) (t : Ty) :
    (f.suggest x t).about x = .guess t ∧ (∀ y, y ≠ x → (f.suggest x t).about y = f.about y) ∧
      (x ∈ f.table.keys → (f.suggest x t).table.keys = f.table.keys) ∧
      f.changes ≤ (f.suggest x t).changes ∧
      ((f.suggest x t).changes = f.changes ↔ Finding.Same (f.about x) (.guess t)) := by
  refine ⟨?_, ?_, ?_, ?_, ?_⟩
  · simp [Findings.about_suggest, hx]
  · intro y hy
    rw [Findings.about_suggest, if_neg fun h => hy h.1.symm]
  · intro hk
    rw [Findings.suggest, if_neg (by simp [hx])]
    exact Table.keys_put_of_mem hk _
  · rw [Findings.suggest, if_neg (by simp [hx])]
    exact Nat.le_add_right _ _
  · rw [Findings.suggest, if_neg (by simp [hx]), Finding.same_guess_iff hx]
    cases (f.about x).isNews t <;> simp

theorem attempt_spec {a : Analysis} {f g : Findings} {x : OperandId} {settled : Bool}
    (h : a.attempt f x = .ok (g, settled)) (hx : (f.about x).isSettled = false) :
    AttemptSpec a f x g settled := by
  have suggested {t : Ty} (hg : f.suggest x t = g) (hs : settled = false)
      (ht : a.Attempted f x (.guess t)) : AttemptSpec a f x g settled := by
    obtain ⟨hself, hothers, hkeys, hle, hsame⟩ := suggest_spec hx t
    rw [hg] at hself hothers hkeys hle hsame
    refine ⟨by rwa [hself], hothers, hkeys, hle, ?_⟩
    rw [hself, ← hsame]
    exact and_iff_right hs
  unfold attempt at h
  simp only at h
  cases ho : (a.inquiry x).outcome f.known? with
  | fault e => simp [ho] at h
  | wait =>
    simp only [ho, Except.ok.injEq, Prod.mk.injEq] at h
    obtain ⟨rfl, rfl⟩ := h
    refine ⟨by simp [Attempted, ho], fun _ _ => rfl, fun _ => rfl, Nat.le_refl _, ?_⟩
    simp [Finding.Same.refl]
  | guess t =>
    simp only [ho, Except.ok.injEq, Prod.mk.injEq] at h
    exact suggested h.1 h.2.symm (by simp [Attempted, ho])
  | answer t =>
    cases hh : (a.inquiry x).hearsGuess f with
    | true =>
      simp only [ho, hh, if_true, Except.ok.injEq, Prod.mk.injEq] at h
      exact suggested h.1 h.2.symm (by simp [Attempted, ho, hh])
    | false =>
      simp only [ho, hh, Bool.false_eq_true, if_false, Except.ok.injEq, Prod.mk.injEq] at h
      obtain ⟨rfl, rfl⟩ := h
      refine ⟨by simp [Attempted, ho, hh], ?_, ?_, Nat.le_refl _, ?_⟩
      · intro y hy
        rw [Findings.about_settle, if_neg hy.symm]
      · intro hk
        exact Table.keys_put_of_mem hk _
      · rw [Findings.about_settle, if_pos rfl]
        constructor
        · rintro ⟨h, -⟩
          cases h
        · intro h
          rw [← Bool.not_eq_true] at hx
          cases hf : f.about x <;> rw [hf] at h hx <;> cases h
          exact absurd rfl hx

/-- The findings that recovery comes by: those at the start, those that an attempt at a pending
operand leaves, and those that stay when new guesses have been counted. -/
inductive Meets (a : Analysis) : Findings → Prop
  | seed {f : Findings} (h : a.seed = .ok f) : Meets a f
  | attempt {f g : Findings} {x : OperandId} {settled : Bool} (hf : Meets a f)
      (hk : x ∈ f.table.keys) (hx : (f.about x).isSettled = false)
      (h : a.attempt f x = .ok (g, settled)) : Meets a g
  | count {f : Findings} (hf : Meets a f) : Meets a f.takeChanges.2

/-- The attempts at a list of operands, of which `n` settle theirs. -/
inductive Tries (a : Analysis) : Findings → List OperandId → Findings → Nat → Prop
  | nil (f : Findings) : Tries a f [] f 0
  | cons {f g h : Findings} {x : OperandId} {xs : List OperandId} {settled : Bool} {n : Nat}
      (hx : a.attempt f x = .ok (g, settled)) (hxs : Tries a g xs h n) :
      Tries a f (x :: xs) h (n + settled.toNat)

theorem tries_of_attemptAll {a : Analysis} {f g : Findings} {xs : List OperandId} {n : Nat}
    (h : a.attemptAll f xs = .ok (g, n)) : Tries a f xs g n := by
  have hfold {step : Findings × Nat → OperandId → Except Fault (Findings × Nat)}
      (hstep : ∀ f k x, step (f, k) x =
        (a.attempt f x).map fun r => (r.1, if r.2 then k + 1 else k)) (k : Nat)
      (h : xs.foldlM step (f, k) = .ok (g, n)) : ∃ m, n = k + m ∧ Tries a f xs g m := by
    clear ‹a.attemptAll f xs = .ok (g, n)›
    induction xs generalizing f k with
    | nil =>
      obtain ⟨rfl, rfl⟩ : f = g ∧ k = n := by simpa [pure, Except.pure] using h
      exact ⟨0, rfl, .nil f⟩
    | cons x xs ih =>
      rw [List.foldlM_cons, hstep] at h
      cases hx : a.attempt f x with
      | error e => simp [hx, Except.map, bind, Except.bind] at h
      | ok r =>
        obtain ⟨f', settled⟩ := r
        simp only [hx, Except.map, bind, Except.bind] at h
        obtain ⟨m, hm, ht⟩ := ih _ h
        refine ⟨m + settled.toNat, ?_, .cons hx ht⟩
        cases settled with
        | false => exact hm
        | true =>
          have hm' : n = k + 1 + m := hm
          rw [hm', Bool.toNat_true]
          omega
  unfold attemptAll at h
  obtain ⟨m, hm, ht⟩ := hfold (fun f k x => by simp only; cases a.attempt f x <;> rfl) 0 h
  rw [Nat.zero_add] at hm
  exact hm ▸ ht

/-- What a sequence of attempts does. An operand is tried when those before it have been tried and
nothing else has happened. -/
structure TriesSpec (a : Analysis) (f : Findings) (xs : List OperandId) (g : Findings) (n : Nat) :
    Prop where
  meets : a.Meets g
  tried : ∀ front x back, xs = front ++ x :: back → ∃ f', a.Meets f' ∧
    (∀ y, f'.about y = if y ∈ front then g.about y else f.about y) ∧ a.Attempted f' x (g.about x)
  others : ∀ y, y ∉ xs → g.about y = f.about y
  keys : g.table.keys = f.table.keys
  changes : f.changes ≤ g.changes
  still : n = 0 ∧ g.changes = f.changes ↔ ∀ x ∈ xs, Finding.Same (f.about x) (g.about x)

theorem Tries.spec {a : Analysis} {f g : Findings} {xs : List OperandId} {n : Nat}
    (h : Tries a f xs g n) (hf : a.Meets f) (hn : xs.Nodup)
    (hs : ∀ x ∈ xs, x ∈ f.table.keys ∧ (f.about x).isSettled = false) : TriesSpec a f xs g n := by
  induction h with
  | nil f =>
    refine ⟨hf, ?_, fun _ _ => rfl, rfl, Nat.le_refl _, by simp⟩
    intro front x back hsplit
    simp at hsplit
  | @cons f f₁ g x xs settled n hx _ ih =>
    rw [List.nodup_cons] at hn
    obtain ⟨hk, hpending⟩ := hs x List.mem_cons_self
    have hfirst := attempt_spec hx hpending
    have hrest : ∀ y ∈ xs, f₁.about y = f.about y :=
      fun y hy => hfirst.others y fun hyx => hn.1 (hyx ▸ hy)
    have hspec := ih (.attempt hf hk hpending hx) hn.2 fun y hy => by
      rw [hrest y hy, hfirst.keys hk]
      exact hs y (List.mem_cons_of_mem x hy)
    have hself : g.about x = f₁.about x := hspec.others x hn.1
    refine ⟨hspec.meets, ?_, ?_, hspec.keys.trans (hfirst.keys hk),
      Nat.le_trans hfirst.changes hspec.changes, ?_⟩
    · intro front y back hsplit
      cases front with
      | nil =>
        obtain rfl := (List.cons.inj hsplit).1
        exact ⟨f, hf, by simp, by rw [hself]; exact hfirst.attempted⟩
      | cons x' front =>
        obtain ⟨rfl, htail⟩ := List.cons.inj hsplit
        obtain ⟨f', hmeets, habout, hattempted⟩ := hspec.tried front y back htail
        refine ⟨f', hmeets, ?_, hattempted⟩
        intro z
        rw [habout z]
        by_cases hz : z = x
        · subst hz
          simp [hself]
        · simp [hz, hfirst.others z hz]
    · intro y hy
      rw [List.mem_cons, not_or] at hy
      rw [hspec.others y hy.2, hfirst.others y hy.1]
    · have hle₁ := hfirst.changes
      have hle₂ := hspec.changes
      rw [List.forall_mem_cons, hself, ← hfirst.still]
      have htail : (∀ y ∈ xs, Finding.Same (f.about y) (g.about y)) ↔
          n = 0 ∧ g.changes = f₁.changes := by
        rw [hspec.still]
        exact forall₂_congr fun y hy => by rw [hrest y hy]
      rw [htail]
      cases settled with
      | false =>
        simp only [Bool.toNat_false, true_and]
        omega
      | true => simp

/-- What a round makes of each operand. -/
structure RoundSpec (a : Analysis) (f g : Findings) : Prop where
  tried : ∀ front x back, f.pending = front ++ x :: back → ∃ f', a.Meets f' ∧
    (∀ y, f'.about y = if y ∈ front then g.about y else f.about y) ∧ a.Attempted f' x (g.about x)
  others : ∀ y, y ∉ f.pending → g.about y = f.about y
  keys : g.table.keys = f.table.keys

/-- An operand is tried with findings that are, of every operand, those from before the round or
those from behind it. -/
theorem RoundSpec.attempted {a : Analysis} {f g : Findings} (h : RoundSpec a f g)
    (hn : f.table.keys.Nodup) {x : OperandId} (hx : x ∈ f.pending) :
    ∃ f', a.Meets f' ∧ (∀ y, f'.about y = f.about y ∨ f'.about y = g.about y) ∧
      f'.about x = f.about x ∧ a.Attempted f' x (g.about x) := by
  obtain ⟨front, back, hsplit⟩ := List.append_of_mem hx
  obtain ⟨f', hf', habout, hattempted⟩ := h.tried front x back hsplit
  have hfront : x ∉ front := by
    have hnodup := Findings.nodup_pending hn
    rw [hsplit, List.nodup_append] at hnodup
    exact fun hmem => hnodup.2.2 x hmem x List.mem_cons_self rfl
  refine ⟨f', hf', ?_, by rw [habout, if_neg hfront], hattempted⟩
  intro y
  rw [habout]
  split
  · exact Or.inr rfl
  · exact Or.inl rfl

theorem round_spec {a : Analysis} {f g : Findings} {n : Nat} (hf : a.Meets f)
    (hn : f.table.keys.Nodup) (h : a.attemptAll f f.pending = .ok (g, n)) :
    a.Meets g ∧ RoundSpec a f g ∧
      (n = 0 ∧ g.changes = f.changes ↔ ∀ x, Finding.Same (f.about x) (g.about x)) := by
  have hspec := (tries_of_attemptAll h).spec hf (Findings.nodup_pending hn)
    fun x hx => (Findings.mem_pending hn).1 hx
  refine ⟨hspec.meets, ⟨hspec.tried, hspec.others, hspec.keys⟩, ?_⟩
  rw [hspec.still]
  refine ⟨fun hall x => ?_, fun hall x _ => hall x⟩
  by_cases hx : x ∈ f.pending
  · exact hall x hx
  · rw [hspec.others x hx]
    exact .refl _

end Analysis

end TypeRecovery
