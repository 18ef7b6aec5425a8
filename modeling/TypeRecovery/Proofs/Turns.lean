import Mathlib.Data.List.Nodup
import Mathlib.Data.List.Perm.Subperm
import TypeRecovery.Proofs.Consistency

/-!
# Closing in any order

A closing gives waiting names their turns. Which of them comes next, and in which order a turn adds
its links, is left open here. Whatever the order, a turn takes over what stands above the declared
parents of its name, hands the name down to everything below its children, and adds nothing else.

A turn that adds a link leaves fewer pairs of names without one, and a turn that adds none leaves
fewer names waiting. So there is a bound on the number of turns, which depends on nothing but the
number of names.
-/
namespace TypeRecovery.Hierarchy
open Relation

theorem Coherent.linkSteps {names : List Key} {h g : Hierarchy} (hc : Coherent h)
    (hs : ReflTransGen (LinkStep names) h g) : Coherent g := by
  induction hs with
  | refl => exact hc
  | tail _ hs ih =>
    obtain ⟨child, parent, -, -, -⟩ := hs
    exact ih.link child parent

theorem Within.linkSteps {names : List Key} {h g : Hierarchy} (hw : Within names h)
    (hs : ReflTransGen (LinkStep names) h g) : Within names g := by
  induction hs with
  | refl => exact hw
  | tail _ hs ih =>
    obtain ⟨child, parent, -, hc, hp⟩ := hs
    exact ih.link hc hp

theorem extends_linkSteps {names : List Key} {h g : Hierarchy}
    (hs : ReflTransGen (LinkStep names) h g) : Extends h g := by
  induction hs with
  | refl => exact Extends.refl h
  | tail _ hs ih =>
    obtain ⟨child, parent, -, -, -⟩ := hs
    exact ih.trans fun _ _ hb => mem_ancestors_link.2 (Or.inl hb)

theorem declared_linkSteps {names : List Key} {h g : Hierarchy}
    (hs : ReflTransGen (LinkStep names) h g) : g.declared = h.declared := by
  induction hs with
  | refl => rfl
  | tail _ hs ih =>
    obtain ⟨child, parent, -, -, -⟩ := hs
    rw [declared_link, ih]

namespace Work

/-- Adds links one after the other. -/
def addAll (w : Work) (ls : List (Key × Key)) : Work := ls.foldl (fun w l => w.add l.1 l.2) w

theorem addAll_cons (w : Work) (l : Key × Key) (ls : List (Key × Key)) :
    w.addAll (l :: ls) = (w.add l.1 l.2).addAll ls := rfl

theorem addAll_append (w : Work) (ls ls' : List (Key × Key)) :
    w.addAll (ls ++ ls') = (w.addAll ls).addAll ls' := List.foldl_append

theorem addGains_eq (w : Work) (n : Key) (ks : List Key) :
    w.addGains n ks = w.addAll (ks.map fun b => (n, b)) := by
  rw [addAll, List.foldl_map, addGains]

theorem addHeirs_eq (w : Work) (n : Key) (ks : List Key) :
    w.addHeirs n ks = w.addAll (ks.map fun d => (d, n)) := by
  rw [addAll, List.foldl_map, addHeirs]

theorem mem_ancestors_addAll {w : Work} {ls : List (Key × Key)} {a b : Key} :
    b ∈ (w.addAll ls).hierarchy.ancestors a ↔ b ∈ w.hierarchy.ancestors a ∨ (a, b) ∈ ls := by
  induction ls generalizing w with
  | nil => simp [addAll]
  | cons l ls ih =>
    have hadd : b ∈ (w.add l.1 l.2).hierarchy.ancestors a ↔
        b ∈ w.hierarchy.ancestors a ∨ (a = l.1 ∧ b = l.2) := mem_ancestors_link
    rw [addAll_cons, ih, hadd, List.mem_cons, Prod.ext_iff]
    exact or_assoc

theorem mem_descendants_addAll_of_mem {w : Work} {a b : Key} (ls : List (Key × Key))
    (hb : b ∈ w.hierarchy.descendants a) : b ∈ (w.addAll ls).hierarchy.descendants a := by
  induction ls generalizing w with
  | nil => exact hb
  | cons l ls ih => exact ih (w := w.add l.1 l.2) (mem_descendants_link_of_mem hb)

theorem mem_queue_add_of_mem {w : Work} {m : Key} (child parent : Key) (hm : m ∈ w.queue) :
    m ∈ (w.add child parent).queue := by
  by_cases hold : parent ∈ w.hierarchy.ancestors child
  · rwa [add_of_mem hold]
  · exact (mem_queue_add hold).2 (Or.inl hm)

theorem mem_queue_addAll_of_mem {w : Work} {m : Key} (ls : List (Key × Key)) (hm : m ∈ w.queue) :
    m ∈ (w.addAll ls).queue := by
  induction ls generalizing w with
  | nil => exact hm
  | cons l ls ih => exact ih (mem_queue_add_of_mem l.1 l.2 hm)

theorem mem_queue_addAll_of_new {w : Work} {ls : List (Key × Key)} {x y b : Key}
    (hl : (x, y) ∈ ls) (hnew : y ∉ w.hierarchy.ancestors x) (hb : b ∈ w.hierarchy.ancestors y) :
    b ∈ (w.addAll ls).queue := by
  induction ls generalizing w with
  | nil => exact absurd hl List.not_mem_nil
  | cons l ls ih =>
    have hb' : b ∈ (w.add l.1 l.2).hierarchy.ancestors y := mem_ancestors_link.2 (Or.inl hb)
    rw [addAll_cons]
    by_cases hxy : l = (x, y)
    · subst hxy
      exact mem_queue_addAll_of_mem ls ((mem_queue_add hnew).2 (Or.inr (Or.inr hb')))
    · refine ih ((List.mem_cons.1 hl).resolve_left fun h => hxy h.symm) (fun hy => ?_) hb'
      rcases mem_ancestors_link.1 hy with hy | ⟨rfl, rfl⟩
      · exact hnew hy
      · exact hxy rfl

theorem mem_queue_addAll {w : Work} {ls : List (Key × Key)} {m : Key}
    (hm : m ∈ (w.addAll ls).queue) : m ∈ w.queue ∨
      ∃ x y, (x, y) ∈ ls ∧ y ∉ w.hierarchy.ancestors x ∧
        (m ∈ (w.addAll ls).hierarchy.descendants x ∨ m ∈ (w.addAll ls).hierarchy.ancestors y) := by
  induction ls generalizing w with
  | nil => exact Or.inl hm
  | cons l ls ih =>
    rw [addAll_cons] at hm ⊢
    rcases ih hm with hm | ⟨x, y, hl, hnew, hxy⟩
    · by_cases hold : l.2 ∈ w.hierarchy.ancestors l.1
      · rw [add_of_mem hold] at hm
        exact Or.inl hm
      · rcases (mem_queue_add hold).1 hm with hm | hm | hm
        · exact Or.inl hm
        · have hdown := mem_descendants_addAll_of_mem (w := w.add l.1 l.2) ls hm
          exact Or.inr ⟨l.1, l.2, List.mem_cons_self, hold, Or.inl hdown⟩
        · have hup : m ∈ ((w.add l.1 l.2).addAll ls).hierarchy.ancestors l.2 :=
            mem_ancestors_addAll.2 (Or.inl hm)
          exact Or.inr ⟨l.1, l.2, List.mem_cons_self, hold, Or.inr hup⟩
    · refine Or.inr ⟨x, y, List.mem_cons_of_mem l hl, fun hy => hnew ?_, hxy⟩
      exact mem_ancestors_link.2 (Or.inl hy)

/-- The turn of `n` adds the links `ls`, all of them new. It takes over what is above the declared
parents of `n`, and passes `n` on to everything below its children. -/
structure TurnSpec (names : List Key) (w : Work) (n : Key) (rest : List Key) (ls : List (Key × Key))
    (w' : Work) : Prop where
  waiting : w.queue.Perm (n :: rest)
  eq : w' = addAll ⟨w.hierarchy, rest⟩ ls
  new : ∀ x y, (x, y) ∈ ls → y ∉ w.hierarchy.ancestors x ∧ x ∈ names ∧ y ∈ names
  only : ∀ x y, (x, y) ∈ ls →
    (x = n ∧ ∃ p ∈ w.hierarchy.ancestors n, p ∈ w.hierarchy.declared ∧
      y ∈ w.hierarchy.ancestors p) ∨ y = n
  takes : ∀ p ∈ w.hierarchy.ancestors n, p ∈ w.hierarchy.declared →
    ∀ b ∈ w.hierarchy.ancestors p, b ∈ w'.hierarchy.ancestors n
  passes : ∀ c x, n ∈ w.hierarchy.ancestors c → c ∈ w'.hierarchy.ancestors x →
    n ∈ w'.hierarchy.ancestors x
  steps : ReflTransGen (LinkStep names) w.hierarchy w'.hierarchy

namespace TurnSpec

variable {names : List Key} {w w' : Work} {n : Key} {rest : List Key} {ls : List (Key × Key)}

theorem mem_ancestors (hs : TurnSpec names w n rest ls w') {a b : Key} :
    b ∈ w'.hierarchy.ancestors a ↔ b ∈ w.hierarchy.ancestors a ∨ (a, b) ∈ ls := by
  rw [hs.eq, mem_ancestors_addAll]

theorem mem_queue_of_mem (hs : TurnSpec names w n rest ls w') {m : Key} (hm : m ∈ w.queue) :
    m = n ∨ m ∈ w'.queue := by
  rcases List.mem_cons.1 (hs.waiting.mem_iff.1 hm) with hm | hm
  · exact Or.inl hm
  · rw [hs.eq]
    exact Or.inr (mem_queue_addAll_of_mem ls hm)

/-- A new link lets everything wait that is above its parent. -/
theorem mem_queue_of_new (hs : TurnSpec names w n rest ls w') {x y b : Key} (hl : (x, y) ∈ ls)
    (hb : b ∈ w.hierarchy.ancestors y) : b ∈ w'.queue := by
  rw [hs.eq]
  exact mem_queue_addAll_of_new hl (hs.new x y hl).1 hb

/-- Who waits after a turn waited before, or is below the child or above the parent of a new
link. -/
theorem mem_queue_cases (hs : TurnSpec names w n rest ls w') {m : Key} (hm : m ∈ w'.queue) :
    m ∈ w.queue ∨ ∃ x y, (x, y) ∈ ls ∧ y ∉ w.hierarchy.ancestors x ∧
      (m ∈ w'.hierarchy.descendants x ∨ m ∈ w'.hierarchy.ancestors y) := by
  rw [hs.eq] at hm ⊢
  exact (mem_queue_addAll hm).imp_left fun hr => hs.waiting.mem_iff.2 (List.mem_cons_of_mem n hr)

end TurnSpec

/-- What is below a child of `n` is below `n` already or will be. -/
theorem mem_heirs_of_child {names : List Key} {h : Hierarchy} (hc : Coherent h)
    (hw : Within names h) {n c x : Key} (hn : n ∈ h.ancestors c) (hx : c ∈ h.ancestors x) :
    n ∈ h.ancestors x ∨ x ∈ heirs names h n := by
  by_cases hcn : c = n
  · exact Or.inl (hcn ▸ hx)
  by_cases hxn : n ∈ h.ancestors x
  · exact Or.inl hxn
  exact Or.inr (mem_heirs.2 ⟨⟨c, (hc.inverse c n).1 hn, hcn, (hc.inverse x c).1 hx⟩, hxn,
    (hw c n hn).2, (hw x c hx).1⟩)

theorem Turn.spec {names : List Key} {w w' : Work} (hc : Coherent w.hierarchy)
    (hw : Within names w.hierarchy) (h : Turn names w w') :
    ∃ n rest ls, TurnSpec names w n rest ls w' := by
  obtain ⟨hq, hg, hd⟩ := h
  rename_i n rest gs ds
  have hgains : ∀ b ∈ gs, Justified w.hierarchy n b ∧ n ∈ names ∧ b ∈ names :=
    fun b hb => justified_of_mem_gains (hg.mem_iff.1 hb)
  have hheirs : ∀ d ∈ ds, Justified (addGains ⟨w.hierarchy, rest⟩ n gs).hierarchy d n ∧
      d ∈ names ∧ n ∈ names := fun d hd' => justified_of_mem_heirs (hd.mem_iff.1 hd')
  have hup := addGains_linkSteps ⟨w.hierarchy, rest⟩ n gs hgains
  have hdown := addHeirs_linkSteps (addGains ⟨w.hierarchy, rest⟩ n gs) n ds hheirs
  have heq : (addGains ⟨w.hierarchy, rest⟩ n gs).addHeirs n ds =
      addAll ⟨w.hierarchy, rest⟩ (gs.map (fun b => (n, b)) ++ ds.map fun d => (d, n)) := by
    rw [addAll_append, addHeirs_eq, addGains_eq]
  have hls {x y : Key} : (x, y) ∈ gs.map (fun b => (n, b)) ++ ds.map (fun d => (d, n)) ↔
      x = n ∧ y ∈ gs ∨ y = n ∧ x ∈ ds := by
    simp [eq_comm, and_comm]
  refine ⟨n, rest, _, hq, heq, ?new, ?only, ?takes, ?passes, hup.trans hdown⟩
  case new =>
    intro x y hxy
    rcases hls.1 hxy with ⟨rfl, hy⟩ | ⟨rfl, hx⟩
    · exact (mem_gains.1 (hg.mem_iff.1 hy)).2
    · obtain ⟨-, hnew, hy, hx⟩ := mem_heirs.1 (hd.mem_iff.1 hx)
      exact ⟨fun hold => hnew (extends_linkSteps hup _ _ hold), hx, hy⟩
  case only =>
    intro x y hxy
    rcases hls.1 hxy with ⟨rfl, hy⟩ | ⟨rfl, -⟩
    · obtain ⟨⟨p, hp, -, hpd, hy⟩, -⟩ := mem_gains.1 (hg.mem_iff.1 hy)
      exact Or.inl ⟨rfl, p, hp, hpd, hy⟩
    · exact Or.inr rfl
  case takes =>
    intro p hp hpd b hb
    rw [heq, mem_ancestors_addAll, hls]
    rcases mem_gains_of_declared hw hp hpd hb with hold | hgain
    · exact Or.inl hold
    · exact Or.inr (Or.inl ⟨rfl, hg.mem_iff.2 hgain⟩)
  case passes =>
    intro c x hn hx
    have hheir {d y : Key} : (d, y) ∈ ds.map (fun d => (d, n)) ↔ y = n ∧ d ∈ ds := by
      simp [eq_comm, and_comm]
    rw [addHeirs_eq, mem_ancestors_addAll, hheir] at hx ⊢
    rcases hx with hx | ⟨rfl, hx⟩
    · -- the links that were there before the name is passed on
      have hn := extends_linkSteps hup c n hn
      rcases mem_heirs_of_child (hc.linkSteps hup) (hw.linkSteps hup) hn hx with hold | hheir
      · exact Or.inl hold
      · exact Or.inr ⟨rfl, hd.mem_iff.2 hheir⟩
    · exact Or.inr ⟨rfl, hx⟩

/-- In every order a waiting name can have its turn. -/
theorem exists_turn (names : List Key) {w : Work} (hq : w.queue ≠ []) : ∃ w', Turn names w w' := by
  obtain ⟨h, queue⟩ := w
  obtain ⟨n, rest, rfl⟩ := List.exists_cons_of_ne_nil hq
  exact ⟨_, .mk (List.Perm.refl _) (List.Perm.refl _) (List.Perm.refl _)⟩

/-- Nobody waits twice, and names are all that waits and is linked. -/
structure Orderly (names : List Key) (w : Work) : Prop where
  coherent : Coherent w.hierarchy
  within : Within names w.hierarchy
  nodup : w.queue.Nodup
  known : ∀ n ∈ w.queue, n ∈ names

theorem nodup_addNew {k : Key} {ks : List Key} (hn : ks.Nodup) : (addNew k ks).Nodup := by
  unfold addNew
  split
  · exact hn
  · rename_i hk
    exact List.nodup_append.2 ⟨hn, List.nodup_singleton k,
      fun _ hx _ hy => fun he => hk (List.mem_singleton.1 hy ▸ he ▸ hx)⟩

theorem nodup_enqueue {queue : List Key} (hq : queue.Nodup) (ks : List Key) :
    (enqueue queue ks).Nodup := by
  induction ks generalizing queue with
  | nil => exact hq
  | cons k ks ih => exact ih (nodup_addNew hq)

theorem Orderly.add {names : List Key} {w : Work} (ho : Orderly names w) {child parent : Key}
    (hc : child ∈ names) (hp : parent ∈ names) : Orderly names (w.add child parent) := by
  by_cases hold : parent ∈ w.hierarchy.ancestors child
  · rwa [add_of_mem hold]
  have hcoherent := ho.coherent.link child parent
  have hwithin := ho.within.link hc hp
  refine ⟨hcoherent, hwithin, ?_, ?_⟩
  · simp only [Work.add, if_neg hold]
    exact nodup_enqueue (nodup_enqueue ho.nodup _) _
  · intro m hm
    rcases (mem_queue_add hold).1 hm with hm | hm | hm
    · exact ho.known m hm
    · exact (hwithin m child ((hcoherent.inverse m child).2 hm)).1
    · exact (hwithin parent m hm).2

theorem Orderly.addAll {names : List Key} {w : Work} (ho : Orderly names w)
    {ls : List (Key × Key)} (hls : ∀ x y, (x, y) ∈ ls → x ∈ names ∧ y ∈ names) :
    Orderly names (w.addAll ls) := by
  induction ls generalizing w with
  | nil => exact ho
  | cons l ls ih =>
    obtain ⟨hc, hp⟩ := hls l.1 l.2 List.mem_cons_self
    exact ih (ho.add hc hp) fun x y hxy => hls x y (List.mem_cons_of_mem l hxy)

theorem TurnSpec.orderly {names : List Key} {w w' : Work} {n : Key} {rest : List Key}
    {ls : List (Key × Key)} (h : TurnSpec names w n rest ls w') (ho : Orderly names w) :
    Orderly names w' := by
  have hrest : Orderly names ⟨w.hierarchy, rest⟩ := by
    refine ⟨ho.coherent, ho.within, ?_, fun m hm => ho.known m ?_⟩
    · exact (List.nodup_cons.1 (h.waiting.nodup_iff.1 ho.nodup)).2
    · exact h.waiting.mem_iff.2 (List.mem_cons_of_mem n hm)
  rw [h.eq]
  exact hrest.addAll fun x y hxy => (h.new x y hxy).2

theorem Orderly.length_le {names : List Key} {w : Work} (ho : Orderly names w) :
    w.queue.length ≤ names.length :=
  (List.subperm_of_subset ho.nodup ho.known).length_le

/-- Links that are missing count more than all names that can wait. -/
def weight (names : List Key) (w : Work) : Nat :=
  missing names w.hierarchy * (names.length + 1) + w.queue.length

theorem Turn.weight_lt {names : List Key} {w w' : Work} (ho : Orderly names w)
    (h : Turn names w w') : w'.weight names < w.weight names := by
  obtain ⟨n, rest, ls, hs⟩ := h.spec ho.coherent ho.within
  have hlength : w.queue.length = rest.length + 1 := hs.waiting.length_eq
  cases ls with
  | nil =>
    obtain rfl : w' = ⟨w.hierarchy, rest⟩ := hs.eq
    simp only [weight]
    omega
  | cons l ls =>
    obtain ⟨hnew, hx, hy⟩ := hs.new l.1 l.2 List.mem_cons_self
    have hlink : l.2 ∈ w'.hierarchy.ancestors l.1 := hs.mem_ancestors.2 (Or.inr List.mem_cons_self)
    have hmissing := missing_lt (extends_linkSteps hs.steps) hx hy hnew hlink
    have hqueue := (hs.orderly ho).length_le
    calc w'.weight names
        < (missing names w'.hierarchy + 1) * (names.length + 1) := by
          simp only [weight, Nat.add_mul, Nat.one_mul]
          omega
      _ ≤ missing names w.hierarchy * (names.length + 1) := Nat.mul_le_mul_right _ hmissing
      _ ≤ w.weight names := Nat.le_add_right _ _

theorem length_le_weight {names : List Key} {w : Work} {ws : List Work} (ho : Orderly names w)
    (h : List.IsChain (Turn names) (w :: ws)) : ws.length ≤ w.weight names := by
  induction ws generalizing w with
  | nil => exact Nat.zero_le _
  | cons w' ws ih =>
    obtain ⟨hturn, hrest⟩ := List.isChain_cons_cons.1 h
    obtain ⟨n, rest, ls, hs⟩ := hturn.spec ho.coherent ho.within
    have hlt := hturn.weight_lt ho
    have hle := ih (hs.orderly ho) hrest
    rw [List.length_cons]
    omega

theorem Orderly.turns {names : List Key} {w w' : Work} (ho : Orderly names w)
    (h : ReflTransGen (Turn names) w w') : Orderly names w' := by
  induction h with
  | refl => exact ho
  | tail _ hturn ih =>
    obtain ⟨n, rest, ls, hs⟩ := hturn.spec ih.coherent ih.within
    exact hs.orderly ih

end Work

theorem total_le_mul {α : Type} {f : α → Nat} {c : Nat} (h : ∀ x, f x ≤ c) (l : List α) :
    total f l ≤ l.length * c := by
  induction l with
  | nil => exact Nat.zero_le _
  | cons x l ih =>
    have hx := h x
    rw [total, List.length_cons, Nat.succ_mul]
    omega

theorem missing_le (names : List Key) (h : Hierarchy) :
    missing names h ≤ names.length * names.length :=
  total_le_mul (fun _ => List.countP_le_length) names

theorem Kept.orderly {h : Hierarchy} (hk : Kept h) : Work.Orderly h.names ⟨h, h.above.keys⟩ where
  coherent := hk.coherent
  within _ _ hb := mem_names_of_mem_ancestors hk.coherent hb
  nodup := hk.above
  known _ hn := mem_foldl_addNew.2 (Or.inr (List.mem_append_left _ hn))

/-- Nothing that a turn could add is left out because it is no name. -/
theorem Within.gains_eq {names : List Key} {h : Hierarchy} (hw : Within names h) (n : Key) :
    gains names h n = (h.inherited n).filter (· ∉ h.ancestors n) := by
  refine List.filter_congr fun b hb => ?_
  obtain ⟨p, hp, hb⟩ := List.mem_flatMap.1 hb
  have hn := (hw n p (List.mem_filter.1 hp).1).1
  have hb := (hw p b hb).2
  simp [hn, hb]

theorem Within.heirs_eq {names : List Key} {h : Hierarchy} (hw : Within names h) (hc : Coherent h)
    (n : Key) : heirs names h n = (h.bequeathed n).filter (n ∉ h.ancestors ·) := by
  refine List.filter_congr fun d hd => ?_
  obtain ⟨c, hcn, hd⟩ := List.mem_flatMap.1 hd
  have hn := (hw c n ((hc.inverse c n).2 (List.mem_filter.1 hcn).1)).2
  have hd := (hw d c ((hc.inverse d c).2 hd)).1
  simp [hn, hd]

namespace Shelf

/-- A closing ends, whatever calls made the hierarchy, and in whichever order waiting names have
their turns and a turn adds its links: there is a bound on the number of turns that depends on the
number of names alone. While a name waits a turn is possible, and when none waits the closing is
over. On the way every declared name has its entry, and no link is left out because it would join
names that the hierarchy did not have at the start. -/
theorem closing_ends {s : Shelf} (hs : Passes s) (hidle : s.closing = none) {i : Nat}
    {h : Hierarchy} (hi : s.hierarchies[i]? = some h) :
    (∀ ws, List.IsChain (Work.Turn h.names) (⟨h, h.above.keys⟩ :: ws) →
      ws.length ≤ h.names.length * h.names.length * (h.names.length + 1) + h.names.length) ∧
    (∃ w, ReflTransGen (Work.Turn h.names) ⟨h, h.above.keys⟩ w ∧ w.queue = [] ∧
      w.hierarchy = h.close) ∧
    ∀ w, ReflTransGen (Work.Turn h.names) ⟨h, h.above.keys⟩ w →
      (w.queue ≠ [] → ∃ w', Work.Turn h.names w w') ∧
      (w.queue = [] → Passes ⟨s.hierarchies.set i w.hierarchy, none⟩) ∧
      (∀ k ∈ w.hierarchy.declared, k ∈ w.hierarchy.above.keys) ∧
      ∀ n, gains h.names w.hierarchy n =
          (w.hierarchy.inherited n).filter (· ∉ w.hierarchy.ancestors n) ∧
        heirs h.names w.hierarchy n =
          (w.hierarchy.bequeathed n).filter (n ∉ w.hierarchy.ancestors ·) := by
  obtain ⟨hs', closing⟩ := s
  obtain rfl : closing = none := hidle
  have ho := (hs.kept h (List.mem_of_getElem? hi)).orderly
  refine ⟨?_, Work.turns_settle _ _, ?_⟩
  · intro ws hchain
    have hmissing := Nat.mul_le_mul_right (h.names.length + 1) (missing_le h.names h)
    exact Nat.le_trans (Work.length_le_weight ho hchain) (Nat.add_le_add hmissing ho.length_le)
  · intro w hturns
    have hw := ho.turns hturns
    refine ⟨Work.exists_turn h.names, ?_, ?_, ?_⟩
    · intro hempty
      obtain ⟨hlt, hget⟩ := List.getElem?_eq_some_iff.1 hi
      have hsteps := steps_of_turns hlt hturns
      rw [← hget, List.set_getElem_self, hget, hempty] at hsteps
      exact ((hs.tail (.start hi)).trans hsteps).tail .finish
    · intro k hk
      exact mem_keys_of_mem_get? (hw.coherent.reflexive k hk)
    · intro n
      exact ⟨hw.within.gains_eq n, hw.within.heirs_eq hw.coherent n⟩

/-- A declared name and an undeclared one in a circle, the undeclared one above itself too, and a
third name below them. -/
def circle : Hierarchy :=
  Edit.run .empty [.declare "A", .edge "A" "B", .edge "B" "A", .edge "B" "B", .edge "C" "A"]

theorem closing_ends_circle :
    Passes ⟨[circle], none⟩ ∧ Key.of "B" ∉ circle.declared ∧
      (∀ ws, List.IsChain (Work.Turn circle.names) (⟨circle, circle.above.keys⟩ :: ws) →
        ws.length ≤ 39) ∧
      Passes ⟨[circle.close], none⟩ := by
  have hempty : Passes ⟨[.empty], none⟩ := .single .create
  have hdeclare := hempty.tail (.edit (i := 0) (e := .declare "A") rfl (by simp))
  have hup := hdeclare.tail (.edit (i := 0) (e := .edge "A" "B") rfl (by simp))
  have hdown := hup.tail (.edit (i := 0) (e := .edge "B" "A") rfl (by simp))
  have hself := hdown.tail (.edit (i := 0) (e := .edge "B" "B") rfl (by simp))
  have hbelow := hself.tail (.edit (i := 0) (e := .edge "C" "A") rfl (by simp))
  have hpasses : Passes ⟨[circle], none⟩ := hbelow
  have hnames : circle.names.length = 3 := by decide
  obtain ⟨hbound, ⟨w, hturns, hdone, hclose⟩, hmoments⟩ :=
    closing_ends hpasses rfl (i := 0) (h := circle) rfl
  rw [hnames] at hbound
  have hend := (hmoments w hturns).2.1 hdone
  rw [hclose] at hend
  exact ⟨hpasses, by decide, hbound, hend⟩

end Shelf

end TypeRecovery.Hierarchy
