import Mathlib.Data.List.Basic
import TypeRecovery.Table

/-!
# Lists in the order in which things are first seen

A list that grows by what has not been seen before holds every item once, and the items stand in the
order of their first places. The keys of a table are such a list.
-/
namespace TypeRecovery

variable {α β : Type} [DecidableEq α]

/-- The list `kept` holds the items of `xs`, each once, in the order of their first places. -/
structure FirstSeen (xs kept : List α) : Prop where
  nodup : kept.Nodup
  mem : ∀ x, x ∈ kept ↔ x ∈ xs
  order : kept.Pairwise fun x y => xs.idxOf x < xs.idxOf y

namespace FirstSeen

theorem nil : FirstSeen ([] : List α) [] := ⟨.nil, fun _ => Iff.rfl, .nil⟩

/-- One more item is added at the end, unless it has been seen. -/
theorem snoc {xs kept : List α} (h : FirstSeen xs kept) (x : α) :
    FirstSeen (xs ++ [x]) (if x ∈ kept then kept else kept ++ [x]) := by
  have horder : kept.Pairwise fun y z => (xs ++ [x]).idxOf y < (xs ++ [x]).idxOf z := by
    refine h.order.imp_of_mem fun {y z} hy hz hlt => ?_
    rwa [List.idxOf_append_of_mem ((h.mem y).1 hy), List.idxOf_append_of_mem ((h.mem z).1 hz)]
  split
  · rename_i hx
    refine ⟨h.nodup, fun y => ?_, horder⟩
    have hxs := (h.mem x).1 hx
    rw [h.mem, List.mem_append, List.mem_singleton]
    exact ⟨Or.inl, fun hy => hy.elim id fun hy => hy ▸ hxs⟩
  · rename_i hx
    have hxs : x ∉ xs := fun hmem => hx ((h.mem x).2 hmem)
    refine ⟨?_, fun y => ?_, ?_⟩
    · rw [List.nodup_append]
      refine ⟨h.nodup, List.pairwise_singleton _ _, fun y hy z hz hyz => ?_⟩
      rw [hyz, List.mem_singleton.1 hz] at hy
      exact hx hy
    · rw [List.mem_append, h.mem, List.mem_append]
    · refine List.pairwise_append.2 ⟨horder, List.pairwise_singleton _ _, fun y hy z hz => ?_⟩
      have hmem := (h.mem y).1 hy
      rw [List.mem_singleton.1 hz, List.idxOf_append_of_mem hmem, List.idxOf_append_of_notMem hxs]
      exact Nat.lt_of_lt_of_le (List.idxOf_lt_length_of_mem hmem) (Nat.le_add_right _ _)

/-- The keys of a table stay in the order in which they came. -/
theorem keys_alter {xs : List α} {t : Table α β} (h : FirstSeen xs t.keys) (k : α)
    (f : Option β → β) : FirstSeen (xs ++ [k]) (t.alter k f).keys := by
  rw [Table.keys_alter]
  exact h.snoc k

end FirstSeen

end TypeRecovery
