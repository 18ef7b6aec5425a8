/-!
# Tables in order of insertion

A table holds one entry for each of its keys, in the order in which the keys first came.
-/
namespace TypeRecovery

structure Table (α β : Type) where
  entries : List (α × β) := []

namespace Table

variable {α β : Type} [DecidableEq α]

def empty : Table α β := ⟨[]⟩

instance : Inhabited (Table α β) := ⟨empty⟩

def keys (t : Table α β) : List α := t.entries.map Prod.fst
def values (t : Table α β) : List β := t.entries.map Prod.snd
def size (t : Table α β) : Nat := t.entries.length

def lookupIn (k : α) : List (α × β) → Option β
  | [] => none
  | (k', v) :: rest => if k' = k then some v else lookupIn k rest

def get? (t : Table α β) (k : α) : Option β := lookupIn k t.entries
def contains (t : Table α β) (k : α) : Bool := (t.get? k).isSome

def alterIn (k : α) (f : Option β → β) : List (α × β) → List (α × β)
  | [] => [(k, f none)]
  | (k', v) :: rest => if k' = k then (k', f (some v)) :: rest else (k', v) :: alterIn k f rest

/-- Replaces the entry of a key, or adds one at the end. -/
def alter (t : Table α β) (k : α) (f : Option β → β) : Table α β := ⟨alterIn k f t.entries⟩

def put (t : Table α β) (k : α) (v : β) : Table α β := t.alter k fun _ => v

/-- The entry stays as it is when the key has one. -/
def ensure (t : Table α β) (k : α) (v : β) : Table α β := t.alter k (·.getD v)

def mapValues {γ : Type} (g : β → γ) (t : Table α β) : Table α γ :=
  ⟨t.entries.map fun (k, v) => (k, g v)⟩

/-- The items under each key, in order. -/
def group {γ : Type} (key : γ → α) (xs : List γ) : Table α (List γ) :=
  xs.foldl (fun t x => t.alter (key x) fun ys => ys.getD [] ++ [x]) empty

theorem lookupIn_alterIn (k k' : α) (f : Option β → β) (es : List (α × β)) :
    lookupIn k' (alterIn k f es) = if k = k' then some (f (lookupIn k es)) else lookupIn k' es := by
  induction es with
  | nil => simp [alterIn, lookupIn]
  | cons e rest ih =>
    obtain ⟨k₀, v⟩ := e
    by_cases h : k₀ = k
    · subst h
      by_cases h' : k₀ = k' <;> simp [alterIn, lookupIn, h']
    · by_cases h' : k₀ = k'
      · subst h'
        simp [alterIn, lookupIn, h, Ne.symm h]
      · simp [alterIn, lookupIn, h, h', ih]

@[simp] theorem get?_alter (t : Table α β) (k k' : α) (f : Option β → β) :
    (t.alter k f).get? k' = if k = k' then some (f (t.get? k)) else t.get? k' :=
  lookupIn_alterIn k k' f t.entries

@[simp] theorem get?_put (t : Table α β) (k k' : α) (v : β) :
    (t.put k v).get? k' = if k = k' then some v else t.get? k' := by
  simp [put]

@[simp] theorem get?_ensure (t : Table α β) (k k' : α) (v : β) :
    (t.ensure k v).get? k' = if k = k' then some ((t.get? k).getD v) else t.get? k' := by
  simp [ensure]

@[simp] theorem get?_mapValues {γ : Type} (g : β → γ) (t : Table α β) (k : α) :
    (t.mapValues g).get? k = (t.get? k).map g := by
  obtain ⟨es⟩ := t
  simp only [get?, mapValues]
  induction es with
  | nil => rfl
  | cons e rest ih =>
    obtain ⟨k₀, v⟩ := e
    by_cases h : k₀ = k
    · simp [lookupIn, h]
    · simp [lookupIn, h, ih]

theorem keys_alterIn (k : α) (f : Option β → β) (es : List (α × β)) :
    (alterIn k f es).map Prod.fst =
      if k ∈ es.map Prod.fst then es.map Prod.fst else es.map Prod.fst ++ [k] := by
  induction es with
  | nil => simp [alterIn]
  | cons e rest ih =>
    obtain ⟨k₀, v⟩ := e
    by_cases h : k₀ = k
    · simp [alterIn, h]
    · by_cases h' : k ∈ rest.map Prod.fst
      · rw [if_pos h'] at ih
        simp only [alterIn, h, if_false, List.map_cons, ih]
        rw [if_pos (List.mem_cons_of_mem k₀ h')]
      · rw [if_neg h'] at ih
        simp only [alterIn, h, if_false, List.map_cons, ih]
        rw [if_neg (fun hm => (List.mem_cons.1 hm).elim (fun hk => h hk.symm) h')]
        rfl

/-- A key that is new comes last. -/
theorem keys_alter (t : Table α β) (k : α) (f : Option β → β) :
    (t.alter k f).keys = if k ∈ t.keys then t.keys else t.keys ++ [k] :=
  keys_alterIn k f t.entries

theorem mem_keys_alter {t : Table α β} {k k' : α} {f : Option β → β} :
    k' ∈ (t.alter k f).keys ↔ k' ∈ t.keys ∨ k' = k := by
  rw [keys_alter]
  split
  · rename_i hk
    exact ⟨Or.inl, fun h => h.elim id fun hk' => hk' ▸ hk⟩
  · simp

theorem getD_get?_foldl_alter {γ : Type} (key : γ → α) (xs : List γ) (t : Table α (List γ)) (k : α) :
    ((xs.foldl (fun t x => t.alter (key x) fun ys => ys.getD [] ++ [x]) t).get? k).getD [] =
      (t.get? k).getD [] ++ xs.filter fun x => key x = k := by
  induction xs generalizing t with
  | nil => simp
  | cons x xs ih =>
    rw [List.foldl_cons, ih]
    by_cases h : key x = k <;> simp [h]

/-- Grouping keeps the items of a key in their order. -/
theorem getD_get?_group {γ : Type} (key : γ → α) (xs : List γ) (k : α) :
    ((group key xs).get? k).getD [] = xs.filter fun x => key x = k := by
  rw [group, getD_get?_foldl_alter]
  rfl

theorem mem_keys_of_get? {t : Table α β} {k : α} {v : β} (h : t.get? k = some v) : k ∈ t.keys := by
  obtain ⟨es⟩ := t
  simp only [get?, keys] at *
  induction es with
  | nil => simp [lookupIn] at h
  | cons e rest ih =>
    obtain ⟨k₀, w⟩ := e
    by_cases hk : k₀ = k
    · simp [hk]
    · simp only [lookupIn, hk, if_false] at h
      simp [ih h]

theorem lookupIn_eq_some {es : List (α × β)} {k : α} {v : β} (hn : (es.map Prod.fst).Nodup) :
    lookupIn k es = some v ↔ (k, v) ∈ es := by
  induction es with
  | nil => simp [lookupIn]
  | cons e rest ih =>
    obtain ⟨k', v'⟩ := e
    rw [List.map_cons, List.nodup_cons] at hn
    by_cases h : k' = k
    · subst h
      have hk : (k', v) ∉ rest := fun hm => hn.1 (List.mem_map.2 ⟨_, hm, rfl⟩)
      simp [lookupIn, hk, eq_comm]
    · simp [lookupIn, h, Ne.symm h, ih hn.2]

theorem keys_put_of_mem {t : Table α β} {k : α} (h : k ∈ t.keys) (v : β) :
    (t.put k v).keys = t.keys := by
  rw [put, keys_alter, if_pos h]

theorem nodup_keys_alter {t : Table α β} (h : t.keys.Nodup) (k : α) (f : Option β → β) :
    (t.alter k f).keys.Nodup := by
  rw [keys_alter]
  split
  · exact h
  · rename_i hk
    rw [List.nodup_append]
    refine ⟨h, by simp, ?_⟩
    intro x hx y hy hxy
    rw [List.mem_singleton.1 hy] at hxy
    exact hk (hxy ▸ hx)

end Table

end TypeRecovery
