import Mathlib.Tactic.ByContra
import Mathlib.Tactic.Choose
import Mathlib.Tactic.Push
import TypeRecovery.Proofs.Rounds

/-!
# Recovery that never ends by itself

Without a bound on the rounds, recovery goes on for ever exactly when the guess for some operand does:
either it takes more types than any list can hold, or it keeps leaving one type and coming back to
it. Operands are settled once and first guessed once, so after finitely many rounds progress can only
come from guesses that change.
-/
namespace TypeRecovery

theorem eventually_forall {α : Type} {xs : List α} {P : α → Nat → Prop}
    (h : ∀ x ∈ xs, ∃ n, ∀ m, n ≤ m → P x m) : ∃ n, ∀ x ∈ xs, ∀ m, n ≤ m → P x m := by
  induction xs with
  | nil => exact ⟨0, by simp⟩
  | cons x xs ih =>
    obtain ⟨n, hn⟩ := h x List.mem_cons_self
    obtain ⟨n', hn'⟩ := ih fun y hy => h y (List.mem_cons_of_mem x hy)
    refine ⟨n + n', ?_⟩
    intro y hy m hm
    rcases List.mem_cons.1 hy with rfl | hy
    · exact hn m (by omega)
    · exact hn' y hy m (by omega)

theorem le_of_le_succ {s : Nat → Nat} (h : ∀ n, s n ≤ s (n + 1)) {n m : Nat} (hm : n ≤ m) :
    s n ≤ s m := by
  induction hm with
  | refl => exact Nat.le_refl _
  | step _ ih => exact Nat.le_trans ih (h _)

/-- A sequence that grows below a bound comes to a stop. -/
theorem eventually_constant {s : Nat → Nat} {b : Nat} (h : ∀ n, s n ≤ s (n + 1))
    (hb : ∀ n, s n ≤ b) : ∃ n, ∀ m, n ≤ m → s m = s n := by
  have hroom : ∀ k n, b - s n ≤ k → ∃ n', ∀ m, n' ≤ m → s m = s n' := by
    intro k
    induction k with
    | zero =>
      intro n hn
      refine ⟨n, ?_⟩
      intro m hm
      have hle := le_of_le_succ h hm
      have := hb n
      have := hb m
      omega
    | succ k ih =>
      intro n hn
      by_cases hstop : ∀ m, n ≤ m → s m = s n
      · exact ⟨n, hstop⟩
      · push Not at hstop
        obtain ⟨m, hm, hne⟩ := hstop
        have hle := le_of_le_succ h hm
        have := hb m
        exact ih m (by omega)
  exact hroom b 0 (by omega)

theorem Finding.exists_guess_of_rank {v : Finding} {t : Ty} (h : v.rank = (guess t).rank) :
    ∃ u, v = guess u := by
  cases v with
  | guess u => exact ⟨u, rfl⟩
  | _ => simp [rank] at h

namespace Analysis

variable {a : Analysis}

theorem Reaches.step {n : Nat} {f g : Findings} (hf : a.Reaches n f) (hg : a.Reaches (n + 1) g) :
    f.pending ≠ [] ∧ RoundSpec a f g ∧ ¬∀ x, Finding.Same (f.about x) (g.about x) := by
  obtain ⟨f', hf', h⟩ := hg.cases
  rw [hf.unique hf']
  exact h

theorem rank_le_of_attempted {f : Findings} {x : OperandId} {v : Finding}
    (hx : (f.about x).isSettled = false) (h : a.Attempted f x v) : (f.about x).rank ≤ v.rank := by
  have hle : (f.about x).rank ≤ 1 := by
    cases hv : f.about x with
    | settled t => simp [hv, Finding.isSettled] at hx
    | _ => simp [Finding.rank]
  unfold Attempted at h
  split at h
  · rw [h]
    split
    · exact hle
    · exact Nat.le_trans hle (by simp [Finding.rank])
  · exact Nat.le_of_eq (by rw [h])
  · rw [h]
    exact hle
  · exact h.elim

theorem RoundSpec.rank_le {f g : Findings} (hn : f.table.keys.Nodup) (h : RoundSpec a f g)
    (x : OperandId) : (f.about x).rank ≤ (g.about x).rank := by
  by_cases hx : x ∈ f.pending
  · obtain ⟨f', -, -, hself, hattempted⟩ := h.attempted hn hx
    rw [← hself]
    apply rank_le_of_attempted _ hattempted
    rw [hself]
    exact ((Findings.mem_pending hn).1 hx).2
  · exact Nat.le_of_eq (by rw [h.others x hx])

/-- An operand that comes no further and is not what it was has another guess. -/
theorem RoundSpec.guess_changes {f g : Findings} (hn : f.table.keys.Nodup) (h : RoundSpec a f g)
    {x : OperandId} (hrank : (g.about x).rank = (f.about x).rank)
    (hx : ¬Finding.Same (f.about x) (g.about x)) :
    ∃ t u, f.about x = .guess t ∧ g.about x = .guess u ∧ t.equiv u = false := by
  cases hf : f.about x with
  | nothing =>
    cases hg : g.about x with
    | nothing =>
      rw [hf, hg] at hx
      exact absurd .nothing hx
    | _ => simp [hf, hg, Finding.rank] at hrank
  | settled t =>
    have hp : x ∉ f.pending := by
      rw [Findings.mem_pending hn, hf]
      simp [Finding.isSettled]
    rw [h.others x hp] at hx
    exact absurd (.refl _) hx
  | guess t =>
    cases hg : g.about x with
    | guess u =>
      refine ⟨t, u, rfl, rfl, ?_⟩
      rw [hf, hg] at hx
      rw [← Bool.not_eq_true]
      exact fun he => hx (.guess he)
    | _ => simp [hf, hg, Finding.rank] at hrank

/-- After `n` rounds, the guess for an operand is `t`. -/
def Guessed (a : Analysis) (n : Nat) (x : OperandId) (t : Ty) : Prop :=
  ∃ f, a.Reaches n f ∧ f.about x = .guess t

/-- No list holds all types that are guessed for an operand. -/
def Grows (a : Analysis) (x : OperandId) : Prop :=
  ∀ bound : List Ty, ∃ n t, a.Guessed n x t ∧ ∀ b ∈ bound, t.equiv b = false

/-- There is a type that the guess for an operand takes and leaves again and again. -/
def Alternates (a : Analysis) (x : OperandId) : Prop :=
  ∃ t, ∀ n, (∃ m, n ≤ m ∧ ∃ u, a.Guessed m x u ∧ u.equiv t = true) ∧
    ∃ m, n ≤ m ∧ ∃ u, a.Guessed m x u ∧ u.equiv t = false

/-- There is always one more round that makes progress. -/
def Endless (a : Analysis) : Prop := ∀ n, ∃ f, a.Reaches n f

theorem Guessed.unique {n : Nat} {x : OperandId} {t u : Ty} (ht : a.Guessed n x t)
    (hu : a.Guessed n x u) : t = u := by
  obtain ⟨f, hf, hft⟩ := ht
  obtain ⟨g, hg, hgu⟩ := hu
  rw [hf.unique hg, hgu] at hft
  exact (Finding.guess.inj hft).symm

/-- Finitely many rounds bring finitely many guesses. -/
theorem exists_guesses (a : Analysis) (x : OperandId) (n : Nat) :
    ∃ ts : List Ty, ∀ m, m < n → ∀ t, a.Guessed m x t → t ∈ ts := by
  induction n with
  | zero => exact ⟨[], by simp⟩
  | succ n ih =>
    obtain ⟨ts, hts⟩ := ih
    by_cases h : ∃ t, a.Guessed n x t
    · obtain ⟨t, ht⟩ := h
      refine ⟨t :: ts, ?_⟩
      intro m hm u hu
      by_cases hmn : m = n
      · subst hmn
        rw [hu.unique ht]
        exact List.mem_cons_self
      · exact List.mem_cons_of_mem t (hts m (by omega) u hu)
    · refine ⟨ts, ?_⟩
      intro m hm u hu
      by_cases hmn : m = n
      · subst hmn
        exact absurd ⟨u, hu⟩ h
      · exact hts m (by omega) u hu

theorem endless_of_restless {x : OperandId} (h : a.Grows x ∨ a.Alternates x) : a.Endless := by
  by_contra hend
  unfold Endless at hend
  push Not at hend
  obtain ⟨n, hn⟩ := hend
  have hlate : ∀ m t, a.Guessed m x t → m < n := by
    rintro m t ⟨f, hf, -⟩
    by_contra hm
    obtain ⟨g, hg⟩ := hf.earlier (m := n) (by omega)
    exact hn g hg
  rcases h with hgrows | ⟨t, halt⟩
  · obtain ⟨ts, hts⟩ := exists_guesses a x n
    obtain ⟨m, t, ht, hnew⟩ := hgrows ts
    have hself := hnew t (hts m (hlate m t ht) t ht)
    rw [Ty.equiv_refl] at hself
    cases hself
  · obtain ⟨⟨m, hm, u, hu, -⟩, -⟩ := halt n
    have := hlate m u hu
    omega

/-- The finding of an operand does not change any more. -/
def Rests (F : Nat → Findings) (x : OperandId) : Prop :=
  ∃ n, ∀ m, n ≤ m → Finding.Same ((F m).about x) ((F (m + 1)).about x)

section

variable {F : Nat → Findings} (hF : ∀ n, a.Reaches n (F n))

include hF

theorem keys_eq (n : Nat) : (F n).table.keys = (F 0).table.keys := by
  induction n with
  | zero => rfl
  | succ n ih => rw [((hF n).step (hF (n + 1))).2.1.keys, ih]

/-- Nothing is ever found about an operand that is not there at the start. -/
theorem about_eq_nothing {x : OperandId} (hx : x ∉ (F 0).table.keys) (n : Nat) :
    (F n).about x = .nothing := by
  apply Findings.about_of_not_mem
  rwa [keys_eq hF n]

/-- What holds of each operand from some round on holds of all operands from some round on. -/
theorem eventually_about {P : OperandId → Finding → Finding → Prop}
    (hnothing : ∀ x, P x .nothing .nothing)
    (h : ∀ x, ∃ n, ∀ m, n ≤ m → P x ((F m).about x) ((F (m + 1)).about x)) :
    ∃ n, ∀ x m, n ≤ m → P x ((F m).about x) ((F (m + 1)).about x) := by
  obtain ⟨n, hn⟩ := eventually_forall fun x (_ : x ∈ (F 0).table.keys) => h x
  refine ⟨n, ?_⟩
  intro x m hm
  by_cases hx : x ∈ (F 0).table.keys
  · exact hn x hx m hm
  · rw [about_eq_nothing hF hx, about_eq_nothing hF hx]
    exact hnothing x

/-- After finitely many rounds no operand comes any further. -/
theorem eventually_rank : ∃ n, ∀ x, ∀ m, n ≤ m → ((F m).about x).rank = ((F n).about x).rank := by
  have hstep : ∀ x, ∃ n, ∀ m, n ≤ m → ((F (m + 1)).about x).rank = ((F m).about x).rank := by
    intro x
    obtain ⟨n, hn⟩ := eventually_constant (s := fun n => ((F n).about x).rank) (b := 2)
      (fun n => ((hF n).step (hF (n + 1))).2.1.rank_le (hF n).meets.nodup x)
      fun n => by cases (F n).about x <;> simp [Finding.rank]
    refine ⟨n, ?_⟩
    intro m hm
    rw [hn m hm, hn (m + 1) (by omega)]
  obtain ⟨n, hn⟩ := eventually_about hF (P := fun _ v w => w.rank = v.rank) (fun _ => rfl) hstep
  refine ⟨n, ?_⟩
  intro x m hm
  induction hm with
  | refl => rfl
  | step hm ih => rw [← ih, hn x _ hm]

/-- Some operand never comes to rest. -/
theorem exists_restless : ∃ x, ¬Rests F x := by
  by_contra hrest
  push Not at hrest
  obtain ⟨n, hn⟩ := eventually_about hF (P := fun _ => Finding.Same) (fun _ => .nothing) hrest
  apply ((hF n).step (hF (n + 1))).2.2
  intro x
  exact hn x n (Nat.le_refl n)

theorem restless_of_reaches : ∃ x, a.Grows x ∨ a.Alternates x := by
  obtain ⟨x, hx⟩ := exists_restless hF
  unfold Rests at hx
  push Not at hx
  obtain ⟨n₀, hrank⟩ := eventually_rank hF
  -- from round `n₀` on there is a guess for `x`, and it changes again and again
  have hchange : ∀ n, n₀ ≤ n → ¬Finding.Same ((F n).about x) ((F (n + 1)).about x) →
      ∃ t u, (F n).about x = .guess t ∧ (F (n + 1)).about x = .guess u ∧ t.equiv u = false := by
    intro n hn
    apply ((hF n).step (hF (n + 1))).2.1.guess_changes (hF n).meets.nodup
    rw [hrank x n hn, hrank x (n + 1) (by omega)]
  have hguess : ∀ n, n₀ ≤ n → ∃ t, (F n).about x = .guess t := by
    intro n hn
    obtain ⟨m, hm, hsame⟩ := hx n₀
    obtain ⟨t, -, ht, -⟩ := hchange m hm hsame
    have hn' := hrank x n hn
    rw [← hrank x m hm, ht] at hn'
    exact Finding.exists_guess_of_rank hn'
  refine ⟨x, ?_⟩
  by_cases hgrows : a.Grows x
  · exact Or.inl hgrows
  right
  unfold Grows at hgrows
  push Not at hgrows
  obtain ⟨bound, hbound⟩ := hgrows
  -- one of the finitely many types comes back again and again
  obtain ⟨b, hb⟩ : ∃ b, ∀ n, ∃ m, n ≤ m ∧ ∃ u, (F m).about x = .guess u ∧ u.equiv b = true := by
    by_contra hnone
    push Not at hnone
    have hleft : ∀ b ∈ bound, ∃ n, ∀ m, n ≤ m → ∀ u, (F m).about x = .guess u → u.equiv b ≠ true :=
      fun b _ => hnone b
    obtain ⟨n, hn⟩ := eventually_forall hleft
    obtain ⟨u, hu⟩ := hguess (n₀ + n) (by omega)
    obtain ⟨b, hb, hub⟩ := hbound (n₀ + n) u ⟨_, hF _, hu⟩
    exact hn b hb (n₀ + n) (by omega) u hu (by simpa using hub)
  refine ⟨b, ?_⟩
  intro n
  obtain ⟨m, hm, u, hu, hub⟩ := hb n
  refine ⟨⟨m, hm, u, ⟨_, hF m, hu⟩, hub⟩, ?_⟩
  obtain ⟨k, hk, hsame⟩ := hx (n₀ + n)
  obtain ⟨t, v, ht, hv, htv⟩ := hchange k (by omega) hsame
  -- of two guesses that are not equal, one is not `b`
  by_cases htb : t.equiv b = true
  · refine ⟨k + 1, by omega, v, ⟨_, hF _, hv⟩, ?_⟩
    rw [← Bool.not_eq_true]
    intro hvb
    rw [Ty.equiv_trans htb (Ty.equiv_symm hvb)] at htv
    cases htv
  · exact ⟨k, by omega, t, ⟨_, hF _, ht⟩, by simpa using htb⟩

end

/-- Recovery goes on for ever exactly when the guess for some operand grows or alternates. -/
theorem endless_iff : a.Endless ↔ ∃ x, a.Grows x ∨ a.Alternates x := by
  constructor
  · intro h
    choose F hF using h
    exact restless_of_reaches hF
  · rintro ⟨x, hx⟩
    exact endless_of_restless hx

end Analysis

end TypeRecovery
