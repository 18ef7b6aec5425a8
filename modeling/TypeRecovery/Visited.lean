/-!
# Walks that visit each place once

A walk over finitely many places that remembers where it has been comes to an end: each step takes
one place out of those not visited.
-/
namespace TypeRecovery

theorem countP_lt {α : Type} {p q : α → Bool} {l : List α} (hpq : ∀ x ∈ l, p x → q x) {x : α}
    (hx : x ∈ l) (hq : q x) (hp : p x = false) : l.countP p < l.countP q := by
  induction l with
  | nil => simp at hx
  | cons y l ih =>
    have hle := List.countP_mono_left fun z hz => hpq z (List.mem_cons_of_mem y hz)
    have hy := hpq y List.mem_cons_self
    rcases List.mem_cons.1 hx with rfl | hx
    · simp [hq, hp]
      omega
    · have hlt := ih (fun z hz => hpq z (List.mem_cons_of_mem y hz)) hx
      simp only [List.countP_cons]
      by_cases h : p y = true
      · simp [h, hy h]
        exact hlt
      · simp [h]
        omega

variable {α : Type} [DecidableEq α]

/-- The number of places not visited yet. -/
def unvisited (places visited : List α) : Nat := places.countP fun x => x ∉ visited

theorem unvisited_le {places visited visited' : List α} (h : ∀ x ∈ visited, x ∈ visited') :
    unvisited places visited' ≤ unvisited places visited := by
  refine List.countP_mono_left fun x _ hx => ?_
  simp only [decide_eq_true_eq] at *
  exact fun hc => hx (h x hc)

theorem unvisited_cons_lt {places visited : List α} {x : α} (hx : x ∈ places) (hn : x ∉ visited) :
    unvisited places (x :: visited) < unvisited places visited := by
  refine countP_lt (fun y _ hy => ?_) hx (by simp [hn]) (by simp)
  simp only [decide_eq_true_eq, List.mem_cons, not_or] at *
  exact hy.2

end TypeRecovery
