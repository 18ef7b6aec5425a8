import Mathlib.Logic.Relation
import TypeRecovery.Recovery.Members

/-!
# How a search for a member goes

The rules of a search, written down without anything that would keep it from going on forever. Every
search comes to an end by them, also where classes inherit from each other in a circle, with the one
answer that is computed. What is then said about searches goes by induction over the rules. The main
result says when a search finds something at all: exactly if some name that it can get to has an
answer. The names that were visited before, and the parents that are left out because a trait has
answered, never hide the only answer there is.
-/
namespace TypeRecovery.Search

variable {α : Type}

/-- The traits of a class-like that count. -/
def traitsOf (s : Search α) (c : ClassLike) : List Key :=
  if s.inTraits then c.heritage.traits.map Key.of else []

theorem mem_traitsOf {s : Search α} {c : ClassLike} {k : Key} :
    k ∈ s.traitsOf c ↔ s.inTraits = true ∧ k ∈ c.heritage.traits.map Key.of := by
  unfold traitsOf
  split <;> simp_all

def parentsOf (c : ClassLike) : List Key := c.heritage.parents.map Key.of

/-- What a search has before it. -/
inductive Task where
  | name (k : Key)
  | names (ks : List Key)
  | classLike (c : ClassLike)
  | classLikes (cs : List ClassLike)

/-- `s.Finds i task before items after`: a search that has visited `before` does its task, finds the
items and has then visited `after`. -/
inductive Finds (s : Search α) (i : Index) : Task → List Key → List α → List Key → Prop
  | seen {k : Key} {before : List Key} (hk : k ∈ before) : s.Finds i (.name k) before [] before
  | fresh {k : Key} {before after : List Key} {items : List α} (hk : k ∉ before)
      (h : s.Finds i (.classLikes (i.classesNamed k)) (k :: before) items after) :
      s.Finds i (.name k) before (items ++ s.signature k) after
  | noName {before : List Key} : s.Finds i (.names []) before [] before
  | nextName {k : Key} {ks before between after : List Key} {xs ys : List α}
      (h : s.Finds i (.name k) before xs between) (hs : s.Finds i (.names ks) between ys after) :
      s.Finds i (.names (k :: ks)) before (xs ++ ys) after
  | own {c : ClassLike} {before : List Key} {items : List α} (ho : s.own? c = some items) :
      s.Finds i (.classLike c) before items before
  | traits {c : ClassLike} {before after : List Key} {items : List α} (ho : s.own? c = none)
      (ht : s.Finds i (.names (s.traitsOf c)) before items after) (hne : items ≠ []) :
      s.Finds i (.classLike c) before items after
  | parents {c : ClassLike} {before between after : List Key} {items : List α}
      (ho : s.own? c = none) (ht : s.Finds i (.names (s.traitsOf c)) before [] between)
      (hp : s.Finds i (.names (parentsOf c)) between items after) :
      s.Finds i (.classLike c) before items after
  | noClassLike {before : List Key} : s.Finds i (.classLikes []) before [] before
  | nextClassLike {c : ClassLike} {cs : List ClassLike} {before between after : List Key}
      {xs ys : List α} (h : s.Finds i (.classLike c) before xs between)
      (hs : s.Finds i (.classLikes cs) between ys after) :
      s.Finds i (.classLikes (c :: cs)) before (xs ++ ys) after

theorem inName_of_not_mem (s : Search α) (i : Index) {visited : List Key} {k : Key}
    (hk : k ∉ visited) :
    (s.inName i visited k).items =
        (s.inClasses i (k :: visited) (i.classesNamed k)).items ++ s.signature k ∧
      (s.inName i visited k).visited =
        (s.inClasses i (k :: visited) (i.classesNamed k)).visited := by
  rw [inName, dif_neg hk]
  split
  · rename_i hc
    rw [hc, inClasses]
    exact ⟨rfl, rfl⟩
  · rename_i c cs hc
    rw [hc]
    exact ⟨rfl, rfl⟩

theorem items_inClass_of_own {s : Search α} {i : Index} {c : ClassLike} {items : List α}
    (ho : s.own? c = some items) (visited : List Key) : (s.inClass i visited c).items = items := by
  rw [inClass, ho]

/-- A single class-like of the name that declares the member answers for it, together with the
signatures. -/
theorem find_of_own {s : Search α} {i : Index} {k : Key} {c : ClassLike} {items : List α}
    (hc : i.classesNamed k = [c]) (ho : s.own? c = some items) :
    s.find i k = items ++ s.signature k := by
  rw [find, (s.inName_of_not_mem i List.not_mem_nil).1, hc, inClasses]
  simp [items_inClass_of_own ho, inClasses]

/-- A class-like that declares a member itself answers with it, whatever was visited before. -/
theorem mem_find {s : Search α} {i : Index} {k : Key} {c : ClassLike} {items : List α} {x : α}
    (hc : c ∈ i.classesNamed k) (ho : s.own? c = some items) (hx : x ∈ items) :
    x ∈ s.find i k := by
  have hclasses (visited : List Key) (cs : List ClassLike) (hc : c ∈ cs) :
      x ∈ (s.inClasses i visited cs).items := by
    induction cs generalizing visited with
    | nil => cases hc
    | cons d cs ih =>
      rw [inClasses]
      rcases List.mem_cons.1 hc with rfl | hc
      · apply List.mem_append_left
        rwa [items_inClass_of_own ho]
      · exact List.mem_append_right _ (ih _ hc)
  rw [find, (s.inName_of_not_mem i List.not_mem_nil).1]
  exact List.mem_append_left _ (hclasses _ _ hc)

/-- The rules lead to what is computed. -/
theorem finds_inName (s : Search α) (i : Index) (visited : List Key) (k : Key) :
    s.Finds i (.name k) visited (s.inName i visited k).items (s.inName i visited k).visited := by
  have hfresh {visited : List Key} {k : Key} (hk : k ∉ visited)
      (ih : s.Finds i (.classLikes (i.classesNamed k)) (k :: visited)
        (s.inClasses i (k :: visited) (i.classesNamed k)).items
        (s.inClasses i (k :: visited) (i.classesNamed k)).visited) :
      s.Finds i (.name k) visited (s.inName i visited k).items (s.inName i visited k).visited := by
    obtain ⟨hitems, hvisited⟩ := s.inName_of_not_mem i hk
    rw [hitems, hvisited]
    exact .fresh hk ih
  refine Search.inName.induct s i
    (fun visited k => s.Finds i (.name k) visited (s.inName i visited k).items
      (s.inName i visited k).visited)
    (fun visited cs => s.Finds i (.classLikes cs) visited (s.inClasses i visited cs).items
      (s.inClasses i visited cs).visited)
    (fun visited c => s.Finds i (.classLike c) visited (s.inClass i visited c).items
      (s.inClass i visited c).visited)
    (fun visited ks => s.Finds i (.names ks) visited (s.inNames i visited ks).items
      (s.inNames i visited ks).visited)
    ?_ ?_ ?_ ?_ ?_ ?_ ?_ ?_ ?_ ?_ visited k
  · intro visited k hk
    rw [inName, dif_pos hk]
    exact .seen hk
  · intro visited k hk hc
    refine hfresh hk ?_
    rw [hc, inClasses]
    exact .noClassLike
  · intro visited k hk c cs hc ih
    exact hfresh hk (hc ▸ ih)
  · intro visited
    rw [inClasses]
    exact .noClassLike
  · intro visited c cs first ihc ihcs _
    rw [inClasses]
    exact .nextClassLike ihc ihcs
  · intro visited c items ho
    rw [inClass, ho]
    exact .own ho
  · intro visited c ho
    simp only [dite_eq_ite]
    intro hempty iht ihp _
    rw [inClass, ho]
    simp only [if_pos hempty]
    rw [List.isEmpty_iff.1 hempty] at iht
    exact .parents ho iht ihp
  · intro visited c ho
    simp only [dite_eq_ite]
    intro hempty iht
    rw [inClass, ho]
    simp only [if_neg hempty]
    exact .traits ho iht fun hnil => hempty (List.isEmpty_iff.2 hnil)
  · intro visited
    rw [inNames]
    exact .noName
  · intro visited k ks first ihk ihks _
    rw [inNames]
    exact .nextName ihk ihks

section

variable {s : Search α} {i : Index} {task : Task} {before after : List Key} {items : List α}

/-- No two ways through the rules lead to different ends. -/
theorem Finds.unique {items' : List α} {after' : List Key} (h : s.Finds i task before items after)
    (h' : s.Finds i task before items' after') : items = items' ∧ after = after' := by
  induction h generalizing items' after' with
  | seen hk =>
    cases h' with
    | seen => exact ⟨rfl, rfl⟩
    | fresh hk' => exact absurd hk hk'
  | fresh hk _ ih =>
    cases h' with
    | seen hk' => exact absurd hk' hk
    | fresh _ h' =>
      obtain ⟨rfl, rfl⟩ := ih h'
      exact ⟨rfl, rfl⟩
  | noName =>
    cases h'
    exact ⟨rfl, rfl⟩
  | nextName _ _ ih ihs =>
    cases h' with
    | nextName h' hs' =>
      obtain ⟨rfl, rfl⟩ := ih h'
      obtain ⟨rfl, rfl⟩ := ihs hs'
      exact ⟨rfl, rfl⟩
  | own ho =>
    cases h' with
    | own ho' => exact ⟨Option.some.inj (ho.symm.trans ho'), rfl⟩
    | traits ho' => exact absurd (ho.symm.trans ho') (by simp)
    | parents ho' => exact absurd (ho.symm.trans ho') (by simp)
  | traits ho _ hne ih =>
    cases h' with
    | own ho' => exact absurd (ho.symm.trans ho') (by simp)
    | traits _ ht' => exact ih ht'
    | parents _ ht' => exact absurd (ih ht').1 hne
  | parents ho _ _ iht ihp =>
    cases h' with
    | own ho' => exact absurd (ho.symm.trans ho') (by simp)
    | traits _ ht' hne => exact absurd (iht ht').1.symm hne
    | parents _ ht' hp' =>
      obtain ⟨-, rfl⟩ := iht ht'
      exact ihp hp'
  | noClassLike =>
    cases h'
    exact ⟨rfl, rfl⟩
  | nextClassLike _ _ ih ihs =>
    cases h' with
    | nextClassLike h' hs' =>
      obtain ⟨rfl, rfl⟩ := ih h'
      obtain ⟨rfl, rfl⟩ := ihs hs'
      exact ⟨rfl, rfl⟩

theorem Finds.subset (h : s.Finds i task before items after) : before ⊆ after := by
  induction h with
  | fresh _ _ ih => exact fun k hk => ih (List.mem_cons_of_mem _ hk)
  | nextName _ _ ih ihs => exact List.Subset.trans ih ihs
  | traits _ _ _ ih => exact ih
  | parents _ _ _ iht ihp => exact List.Subset.trans iht ihp
  | nextClassLike _ _ ih ihs => exact List.Subset.trans ih ihs
  | _ => exact List.Subset.refl _

/-- No name is entered twice. -/
theorem Finds.nodup (h : s.Finds i task before items after) (hn : before.Nodup) : after.Nodup := by
  induction h with
  | fresh hk _ ih => exact ih (List.nodup_cons.2 ⟨hk, hn⟩)
  | nextName _ _ ih ihs => exact ihs (ih hn)
  | traits _ _ _ ih => exact ih hn
  | parents _ _ _ iht ihp => exact ihp (iht hn)
  | nextClassLike _ _ ih ihs => exact ihs (ih hn)
  | _ => exact hn

/-- What is found is declared by some class-like or said by the signatures. -/
theorem Finds.forall_items {P : α → Prop}
    (hown : ∀ c items, s.own? c = some items → ∀ x ∈ items, P x)
    (hsig : ∀ k, ∀ x ∈ s.signature k, P x) (h : s.Finds i task before items after) :
    ∀ x ∈ items, P x := by
  induction h with
  | seen | noName | noClassLike => exact List.forall_mem_nil P
  | @fresh k _ _ _ _ _ ih => exact List.forall_mem_append.2 ⟨ih, hsig k⟩
  | nextName _ _ ih ihs => exact List.forall_mem_append.2 ⟨ih, ihs⟩
  | own ho => exact hown _ _ ho
  | traits _ _ _ ih => exact ih
  | parents _ _ _ _ ihp => exact ihp
  | nextClassLike _ _ ih ihs => exact List.forall_mem_append.2 ⟨ih, ihs⟩

theorem of_mem_find {P : α → Prop} {cls : Key}
    (hown : ∀ c items, s.own? c = some items → ∀ x ∈ items, P x)
    (hsig : ∀ k, ∀ x ∈ s.signature k, P x) : ∀ x ∈ s.find i cls, P x :=
  (s.finds_inName i [] cls).forall_items hown hsig

end

/-- The names to which a class-like passes a search on. -/
def nextOf (s : Search α) (c : ClassLike) : List Key := s.traitsOf c ++ parentsOf c

def Step (s : Search α) (i : Index) (k k' : Key) : Prop := ∃ c ∈ i.classesNamed k, k' ∈ s.nextOf c

/-- The name itself has an answer. -/
def Answers (s : Search α) (i : Index) (k : Key) : Prop :=
  (∃ c ∈ i.classesNamed k, s.own? c ≠ none) ∨ s.signature k ≠ []

/-- The class-likes that are asked for a member of their own. -/
def Task.asked : Task → List ClassLike
  | name _ | names _ => []
  | classLike c => [c]
  | classLikes cs => cs

/-- The names to which the task leads next. -/
def Task.ahead (s : Search α) : Task → List Key
  | name k => [k]
  | names ks => ks
  | classLike c => s.nextOf c
  | classLikes cs => cs.flatMap s.nextOf

section

open Relation

variable {s : Search α} {i : Index} {task : Task} {before between after : List Key} {items : List α}

/-- What is found comes from a class-like that is asked, or from a name that can be got to. -/
theorem Finds.answered (h : s.Finds i task before items after) (hne : items ≠ []) :
    (∃ c ∈ task.asked, s.own? c ≠ none) ∨
      ∃ k ∈ task.ahead s, ∃ k', ReflTransGen (s.Step i) k k' ∧ s.Answers i k' := by
  induction h with
  | seen | noName | noClassLike => exact absurd rfl hne
  | @fresh k _ _ items _ _ ih =>
    refine Or.inr ⟨k, List.mem_singleton_self k, ?_⟩
    by_cases hsig : s.signature k = []
    · rw [hsig, List.append_nil] at hne
      rcases ih hne with hown | ⟨k', hk', k'', hreach, hanswers⟩
      · exact ⟨k, .refl, Or.inl hown⟩
      · obtain ⟨c, hc, hnext⟩ := List.mem_flatMap.1 hk'
        exact ⟨k'', .head ⟨c, hc, hnext⟩ hreach, hanswers⟩
    · exact ⟨k, .refl, Or.inr hsig⟩
  | @nextName k ks _ _ _ xs _ _ _ ih ihs =>
    right
    by_cases hxs : xs = []
    · rw [hxs, List.nil_append] at hne
      obtain ⟨k', hk', hreach⟩ := (ihs hne).resolve_left (by simp [Task.asked])
      exact ⟨k', List.mem_cons_of_mem k hk', hreach⟩
    · obtain ⟨k', hk', hreach⟩ := (ih hxs).resolve_left (by simp [Task.asked])
      exact ⟨k', List.mem_cons.2 (Or.inl (List.mem_singleton.1 hk')), hreach⟩
  | own ho => exact Or.inl ⟨_, List.mem_singleton_self _, by simp [ho]⟩
  | traits _ _ _ ih =>
    obtain ⟨k, hk, hreach⟩ := (ih hne).resolve_left (by simp [Task.asked])
    exact Or.inr ⟨k, List.mem_append_left _ hk, hreach⟩
  | parents _ _ _ _ ihp =>
    obtain ⟨k, hk, hreach⟩ := (ihp hne).resolve_left (by simp [Task.asked])
    exact Or.inr ⟨k, List.mem_append_right _ hk, hreach⟩
  | @nextClassLike c cs _ _ _ xs _ _ _ ih ihs =>
    by_cases hxs : xs = []
    · rw [hxs, List.nil_append] at hne
      rcases ihs hne with ⟨d, hd, hown⟩ | ⟨k, hk, hreach⟩
      · exact Or.inl ⟨d, List.mem_cons_of_mem c hd, hown⟩
      · exact Or.inr ⟨k, List.mem_append_right _ hk, hreach⟩
    · rcases ih hxs with ⟨d, hd, hown⟩ | ⟨k, hk, hreach⟩
      · exact Or.inl ⟨d, List.mem_cons.2 (Or.inl (List.mem_singleton.1 hd)), hown⟩
      · exact Or.inr ⟨k, List.mem_append_left _ hk, hreach⟩

/-- None of the names entered in between has an answer, or leads to a name that is not entered. -/
def Closed (s : Search α) (i : Index) (before after : List Key) : Prop :=
  ∀ k ∈ after, k ∉ before → ¬s.Answers i k ∧ ∀ k', s.Step i k k' → k' ∈ after

theorem Closed.refl : s.Closed i before before := fun _ hk hnot => absurd hk hnot

theorem Closed.trans (h : s.Closed i before between) (h' : s.Closed i between after)
    (hsub : between ⊆ after) : s.Closed i before after := by
  intro k hk hnot
  by_cases hb : k ∈ between
  · obtain ⟨hanswers, hstep⟩ := h k hb hnot
    exact ⟨hanswers, fun k' hk' => hsub (hstep k' hk')⟩
  · exact h' k hk hb

/-- A task that is done without leaving anything out. -/
structure Exhausted (s : Search α) (i : Index) (task : Task) (before after : List Key) : Prop where
  silent : ∀ c ∈ task.asked, s.own? c = none
  entered : task.ahead s ⊆ after
  closed : s.Closed i before after

/-- Parents are left out only where something was found, so a search that finds nothing leaves
nothing out. -/
theorem Finds.exhausted (hown : ∀ c, s.own? c ≠ some []) (h : s.Finds i task before items after)
    (hnil : items = []) : s.Exhausted i task before after := by
  induction h with
  | seen hk => exact ⟨by simp [Task.asked], by simpa [Task.ahead] using hk, .refl⟩
  | @fresh k before after _ _ h ih =>
    obtain ⟨hitems, hsig⟩ := List.append_eq_nil_iff.1 hnil
    have ih := ih hitems
    have hk : k ∈ after := h.subset List.mem_cons_self
    refine ⟨by simp [Task.asked], by simpa [Task.ahead] using hk, fun x hx hnot => ?_⟩
    by_cases hxk : x = k
    · subst hxk
      constructor
      · rintro (⟨c, hc, hne⟩ | hne)
        · exact hne (ih.silent c hc)
        · exact hne hsig
      · rintro k' ⟨c, hc, hk'⟩
        exact ih.entered (List.mem_flatMap.2 ⟨c, hc, hk'⟩)
    · refine ih.closed x hx fun hx' => ?_
      exact (List.mem_cons.1 hx').elim hxk hnot
  | noName | noClassLike => exact ⟨by simp [Task.asked], by simp [Task.ahead], .refl⟩
  | nextName _ hs ih ihs =>
    obtain ⟨hxs, hys⟩ := List.append_eq_nil_iff.1 hnil
    refine ⟨by simp [Task.asked], ?_, (ih hxs).closed.trans (ihs hys).closed hs.subset⟩
    intro x hx
    rcases List.mem_cons.1 hx with rfl | hx
    · exact hs.subset ((ih hxs).entered (List.mem_singleton_self x))
    · exact (ihs hys).entered hx
  | own ho => exact absurd (hnil ▸ ho) (hown _)
  | traits _ _ hne => exact absurd hnil hne
  | parents ho _ hp iht ihp =>
    have iht := iht rfl
    have ihp := ihp hnil
    refine ⟨by simpa [Task.asked] using ho, ?_, iht.closed.trans ihp.closed hp.subset⟩
    intro x hx
    rcases List.mem_append.1 hx with hx | hx
    · exact hp.subset (iht.entered hx)
    · exact ihp.entered hx
  | nextClassLike _ hs ih ihs =>
    obtain ⟨hxs, hys⟩ := List.append_eq_nil_iff.1 hnil
    have ih := ih hxs
    have ihs := ihs hys
    refine ⟨?_, ?_, ih.closed.trans ihs.closed hs.subset⟩
    · intro d hd
      rcases List.mem_cons.1 hd with rfl | hd
      · exact ih.silent d (List.mem_singleton_self d)
      · exact ihs.silent d hd
    · intro x hx
      rcases List.mem_append.1 hx with hx | hx
      · exact hs.subset (ih.entered hx)
      · exact ihs.entered hx

/-- A search finds something exactly if a name with an answer can be got to. -/
theorem find_ne_nil_iff (hown : ∀ c, s.own? c ≠ some []) {k : Key} :
    s.find i k ≠ [] ↔ ∃ k', ReflTransGen (s.Step i) k k' ∧ s.Answers i k' := by
  have h := s.finds_inName i [] k
  constructor
  · intro hne
    rcases h.answered hne with ⟨c, hc, -⟩ | ⟨k₀, hk₀, hreach⟩
    · exact absurd hc List.not_mem_nil
    · rwa [List.mem_singleton.1 hk₀] at hreach
  · rintro ⟨k', hreach, hanswers⟩ hnil
    have hex := h.exhausted hown hnil
    have hentered {x : Key} (hx : ReflTransGen (s.Step i) k x) : x ∈ (s.inName i [] k).visited := by
      induction hx with
      | refl => exact hex.entered (List.mem_singleton_self k)
      | tail _ hstep ih => exact (hex.closed _ ih List.not_mem_nil).2 _ hstep
    exact (hex.closed k' (hentered hreach) List.not_mem_nil).1 hanswers

end

end TypeRecovery.Search
