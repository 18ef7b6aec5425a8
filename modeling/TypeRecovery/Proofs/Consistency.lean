import TypeRecovery.Proofs.Closure

/-!
# Above and below agree at all times

Hierarchies are made, copied, changed and closed, several of them side by side, in any order and with
any names. A closing goes through its queue name by name; in what order names wait and links are
added is left open here, so that every order is covered. At every moment, also between two turns of a
closing, the check of a hierarchy passes: what is above and what is below are inverse to each other,
and every declared name is above and below itself.

A link is added to both tables at once. It is left out of both when the upper table has it already,
which is right only because the tables agree before.
-/
namespace TypeRecovery.Hierarchy
open Relation

/-- The tables agree, and no key is listed twice. -/
structure Kept (h : Hierarchy) : Prop where
  coherent : Coherent h
  above : h.above.keys.Nodup
  below : h.below.keys.Nodup

theorem mem_lookup_of_entry {t : Table Key (List Key)} (hn : t.keys.Nodup) {k x : Key}
    {ks : List Key} (he : (k, ks) ∈ t.entries) (hx : x ∈ ks) : x ∈ (t.get? k).getD [] := by
  rw [Table.get?, (Table.lookupIn_eq_some hn).2 he]
  exact hx

theorem Kept.isConsistent {h : Hierarchy} (hk : Kept h) : h.isConsistent = true := by
  obtain ⟨hc, hn, hn'⟩ := hk
  simp only [Hierarchy.isConsistent, Bool.and_eq_true, List.all_eq_true, decide_eq_true_eq]
  refine ⟨⟨?_, ?_⟩, ?_⟩
  · rintro ⟨child, parents⟩ he p hp
    apply (hc.inverse child p).1
    exact mem_lookup_of_entry hn he hp
  · rintro ⟨parent, children⟩ he c hchild
    apply (hc.inverse c parent).2
    exact mem_lookup_of_entry hn' he hchild
  · intro k hk
    have hself := hc.reflexive k hk
    exact ⟨hself, (hc.inverse k k).1 hself⟩

theorem kept_empty : Kept .empty where
  coherent := coherent_empty
  above := List.nodup_nil
  below := List.nodup_nil

theorem Kept.declare {h : Hierarchy} (hk : Kept h) (k : Key) : Kept (h.declare k) where
  coherent := hk.coherent.declare k
  above := Table.nodup_keys_alter hk.above k _
  below := Table.nodup_keys_alter hk.below k _

theorem Kept.link {h : Hierarchy} (hk : Kept h) (child parent : Key) :
    Kept (h.link child parent) := by
  refine ⟨hk.coherent.link child parent, ?_, ?_⟩
  · unfold Hierarchy.link
    split
    · exact hk.above
    · exact Table.nodup_keys_alter hk.above child _
  · unfold Hierarchy.link
    split
    · exact hk.below
    · exact Table.nodup_keys_alter hk.below parent _

theorem Kept.linkAll {h : Hierarchy} (hk : Kept h) (child : Key) (ps : List Key) :
    Kept (h.linkAll child ps) := by
  induction ps generalizing h with
  | nil => exact hk
  | cons p ps ih => exact ih (hk.link child p)

theorem Kept.close {h : Hierarchy} (hk : Kept h) : Kept h.close :=
  close_preserves hk fun _ child parent hg _ => hg.link child parent

theorem Kept.apply {h : Hierarchy} (hk : Kept h) (e : Edit) : Kept (e.apply h) := by
  cases e with
  | declare name => exact hk.declare _
  | edge child parent => exact hk.link _ _
  | edges child parents => exact hk.linkAll _ _
  | close => exact hk.close

theorem Kept.addGains {w : Work} (hk : Kept w.hierarchy) (n : Key) (ks : List Key) :
    Kept (w.addGains n ks).hierarchy := by
  induction ks generalizing w with
  | nil => exact hk
  | cons b ks ih => exact ih (w := w.add n b) (hk.link n b)

theorem Kept.addHeirs {w : Work} (hk : Kept w.hierarchy) (n : Key) (ks : List Key) :
    Kept (w.addHeirs n ks).hierarchy := by
  induction ks generalizing w with
  | nil => exact hk
  | cons d ks ih => exact ih (w := w.add d n) (hk.link d n)

/-- The turn of a name that waits, with the names that wait, those it gains and its heirs taken in any
order. -/
inductive Work.Turn (names : List Key) (w : Work) : Work → Prop
  | mk {n : Key} {rest gs ds : List Key} (hq : w.queue.Perm (n :: rest))
      (hg : gs.Perm (gains names w.hierarchy n))
      (hd : ds.Perm (heirs names (addGains ⟨w.hierarchy, rest⟩ n gs).hierarchy n)) :
      Turn names w ((addGains ⟨w.hierarchy, rest⟩ n gs).addHeirs n ds)

/-- Closing takes turns until no name waits, in one order among many. -/
theorem Work.turns_settle (names : List Key) (w : Work) :
    ∃ w', ReflTransGen (Turn names) w w' ∧ w'.queue = [] ∧ w'.hierarchy = settle names w := by
  fun_induction settle names w with
  | case1 h => exact ⟨⟨h, []⟩, .refl, rfl, rfl⟩
  | case2 h n rest ih =>
    obtain ⟨w', hturns, hend⟩ := ih
    have hturn : Turn names ⟨h, n :: rest⟩ (turn names ⟨h, rest⟩ n) :=
      .mk (List.Perm.refl _) (List.Perm.refl _) (List.Perm.refl _)
    exact ⟨w', .head hturn hturns, hend⟩

/-- A closing that is under way: which hierarchy is closed, the names it had at the start and those
that wait. -/
structure Closing where
  index : Nat
  names : List Key
  queue : List Key

/-- Hierarchies side by side, of which one may be in the middle of a closing. -/
structure Shelf where
  hierarchies : List Hierarchy
  closing : Option Closing

namespace Shelf

/-- A hierarchy is made empty or as a copy of another one, a call changes it, or its closing begins,
gives one name its turn, or ends when no name waits. -/
inductive Step : Shelf → Shelf → Prop
  | create {hs : List Hierarchy} : Step ⟨hs, none⟩ ⟨hs ++ [.empty], none⟩
  | copy {hs : List Hierarchy} {i : Nat} {h : Hierarchy} (hi : hs[i]? = some h) :
      Step ⟨hs, none⟩ ⟨hs ++ [h], none⟩
  | edit {hs : List Hierarchy} {i : Nat} {h : Hierarchy} (hi : hs[i]? = some h) {e : Edit}
      (he : e ≠ .close) : Step ⟨hs, none⟩ ⟨hs.set i (e.apply h), none⟩
  | start {hs : List Hierarchy} {i : Nat} {h : Hierarchy} (hi : hs[i]? = some h) :
      Step ⟨hs, none⟩ ⟨hs, some ⟨i, h.names, h.above.keys⟩⟩
  | turn {hs : List Hierarchy} {i : Nat} {h : Hierarchy} {names queue : List Key} {w : Work}
      (hi : hs[i]? = some h) (hw : Work.Turn names ⟨h, queue⟩ w) :
      Step ⟨hs, some ⟨i, names, queue⟩⟩ ⟨hs.set i w.hierarchy, some ⟨i, names, w.queue⟩⟩
  | finish {hs : List Hierarchy} {i : Nat} {names : List Key} :
      Step ⟨hs, some ⟨i, names, []⟩⟩ ⟨hs, none⟩

/-- The shelves that some steps lead to from the empty one. -/
def Passes (s : Shelf) : Prop := ReflTransGen Step ⟨[], none⟩ s

theorem Step.kept {s s' : Shelf} (hstep : Step s s') (hs : ∀ h ∈ s.hierarchies, Kept h) :
    ∀ h ∈ s'.hierarchies, Kept h := by
  have hset {hs : List Hierarchy} {i : Nat} {g : Hierarchy} (hall : ∀ h ∈ hs, Kept h)
      (hg : Kept g) : ∀ h ∈ hs.set i g, Kept h := by
    intro h hh
    rcases List.mem_or_eq_of_mem_set hh with hh | rfl
    · exact hall h hh
    · exact hg
  have hconcat {hs : List Hierarchy} {g : Hierarchy} (hall : ∀ h ∈ hs, Kept h) (hg : Kept g) :
      ∀ h ∈ hs ++ [g], Kept h := by
    intro h hh
    rcases List.mem_append.1 hh with hh | hh
    · exact hall h hh
    · rwa [List.mem_singleton.1 hh]
  cases hstep with
  | create => exact hconcat hs kept_empty
  | copy hi => exact hconcat hs (hs _ (List.mem_of_getElem? hi))
  | edit hi _ => exact hset hs ((hs _ (List.mem_of_getElem? hi)).apply _)
  | start _ => exact hs
  | turn hi hw =>
    obtain ⟨-, -, -⟩ := hw
    have hk := hs _ (List.mem_of_getElem? hi)
    exact hset hs ((Kept.addGains hk _ _).addHeirs _ _)
  | finish => exact hs

theorem Passes.kept {s : Shelf} (h : Passes s) : ∀ h ∈ s.hierarchies, Kept h := by
  induction h with
  | refl => simp
  | tail _ hstep ih => exact hstep.kept ih

/-- The turns of a closing that is under way are steps. -/
theorem steps_of_turns {hs : List Hierarchy} {i : Nat} (hi : i < hs.length) {names : List Key}
    {w w' : Work} (h : ReflTransGen (Work.Turn names) w w') :
    ReflTransGen Step ⟨hs.set i w.hierarchy, some ⟨i, names, w.queue⟩⟩
      ⟨hs.set i w'.hierarchy, some ⟨i, names, w'.queue⟩⟩ := by
  induction h with
  | refl => exact .refl
  | tail _ hturn ih =>
    have hstep := Step.turn (List.getElem?_set_self hi) hturn
    rw [List.set_set] at hstep
    exact ih.tail hstep

theorem steps_of_settle {hs : List Hierarchy} {i : Nat} (hi : i < hs.length) (names : List Key)
    (w : Work) :
    ReflTransGen Step ⟨hs.set i w.hierarchy, some ⟨i, names, w.queue⟩⟩
      ⟨hs.set i (Work.settle names w), none⟩ := by
  obtain ⟨w', hturns, hdone, hend⟩ := Work.turns_settle names w
  have hsteps := steps_of_turns hi hturns
  rw [hdone, hend] at hsteps
  exact hsteps.tail .finish

theorem steps_of_edit {hs : List Hierarchy} {i : Nat} {h : Hierarchy} (hi : hs[i]? = some h)
    (e : Edit) : ReflTransGen Step ⟨hs, none⟩ ⟨hs.set i (e.apply h), none⟩ := by
  cases e with
  | close =>
    obtain ⟨hlt, hget⟩ := List.getElem?_eq_some_iff.1 hi
    have hsteps := steps_of_settle hlt h.names ⟨h, h.above.keys⟩
    rw [← hget, List.set_getElem_self, hget] at hsteps
    exact .head (.start hi) hsteps
  | _ => exact .single (.edit hi (by simp))

/-- Whatever calls are made, every hierarchy passes its check at every moment, also between the turns
of a closing. Every call, closing included, leads on from a moment between two calls. -/
theorem isConsistent_of_passes {s : Shelf} (hs : Passes s) :
    (∀ h ∈ s.hierarchies, h.isConsistent = true ∧
      (∀ a b, b ∈ h.ancestors a ↔ a ∈ h.descendants b) ∧
      ∀ k ∈ h.declared, k ∈ h.ancestors k ∧ k ∈ h.descendants k) ∧
    (s.closing = none → Passes ⟨s.hierarchies ++ [.empty], none⟩ ∧
      ∀ i h, s.hierarchies[i]? = some h → Passes ⟨s.hierarchies ++ [h], none⟩ ∧
        ∀ e : Edit, Passes ⟨s.hierarchies.set i (e.apply h), none⟩) := by
  refine ⟨?_, ?_⟩
  · intro h hh
    have hk := hs.kept h hh
    refine ⟨hk.isConsistent, hk.coherent.inverse, ?_⟩
    intro k hdeclared
    have hself := hk.coherent.reflexive k hdeclared
    exact ⟨hself, (hk.coherent.inverse k k).1 hself⟩
  · intro hidle
    obtain ⟨hs', closing⟩ := s
    obtain rfl : closing = none := hidle
    refine ⟨hs.tail .create, ?_⟩
    intro i h hi
    exact ⟨hs.tail (.copy hi), fun e => hs.trans (steps_of_edit hi e)⟩

/-- A chain of three names, of which only the middle one is declared. -/
def chain : Hierarchy :=
  Edit.run .empty [.edge "A" "B", .declare "B", .edge "B" "C"]

/-- A copy of the chain is closed, and only the lowest name has had its turn. -/
theorem isConsistent_of_passes_chain :
    ∃ s w, Passes s ∧ s.hierarchies = [chain, w] ∧ s.closing ≠ none ∧
      Key.of "C" ∉ chain.ancestors (Key.of "A") ∧ Key.of "C" ∈ w.ancestors (Key.of "A") ∧
      Key.of "A" ∈ w.descendants (Key.of "C") ∧ w.isConsistent = true := by
  have hempty : Passes ⟨[.empty], none⟩ := .single .create
  have hedge := hempty.tail (.edit (i := 0) (e := .edge "A" "B") rfl (by simp))
  have hdeclare := hedge.tail (.edit (i := 0) (e := .declare "B") rfl (by simp))
  have hchain := hdeclare.tail (.edit (i := 0) (e := .edge "B" "C") rfl (by simp))
  have hcopy : Passes ⟨[chain, chain], none⟩ := hchain.tail (.copy (i := 0) (h := chain) rfl)
  have hstart : Step ⟨[chain, chain], none⟩
      ⟨[chain, chain], some ⟨1, chain.names, chain.above.keys⟩⟩ := .start rfl
  have hkeys : chain.above.keys = [Key.of "A", Key.of "B"] := by decide
  have hturn : Work.Turn chain.names ⟨chain, chain.above.keys⟩
      (Work.turn chain.names ⟨chain, [Key.of "B"]⟩ (Key.of "A")) :=
    .mk (by rw [hkeys]) (List.Perm.refl _) (List.Perm.refl _)
  have hpasses := (hcopy.tail hstart).tail (.turn rfl hturn)
  have habove : Key.of "C" ∈ (Work.turn chain.names ⟨chain, [Key.of "B"]⟩
      (Key.of "A")).hierarchy.ancestors (Key.of "A") := by decide
  obtain ⟨hcheck, hinverse, -⟩ :=
    (isConsistent_of_passes hpasses).1 _ (List.mem_cons_of_mem _ List.mem_cons_self)
  exact ⟨_, _, hpasses, rfl, by simp, by decide, habove, (hinverse _ _).1 habove, hcheck⟩

end Shelf

end TypeRecovery.Hierarchy
