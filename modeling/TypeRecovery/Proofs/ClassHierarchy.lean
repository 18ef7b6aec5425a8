import Mathlib.Data.List.Basic
import TypeRecovery.Analysis
import TypeRecovery.Proofs.Fitting
import TypeRecovery.Signatures.Packaged
import TypeRecovery.Signatures.Reader

/-!
# The hierarchy of a program

The hierarchy of a program is closed twice: once for the classes of the signatures, and again when
the classes of the program have been added. Both together give what a single closing of all edges
would: a class stands above another one exactly if it is the same declared class or a chain of edges
leads up to it, from signatures and program in any mixture.
-/
namespace TypeRecovery

theorem bind_eq_ok_iff {ε α β : Type} {x : Except ε α} {f : α → Except ε β} {b : β} :
    (x >>= f) = .ok b ↔ ∃ a, x = .ok a ∧ f a = .ok b := by
  cases x with
  | error e => simp [bind, Except.bind]
  | ok a => simp [bind, Except.bind]

theorem mem_of_mapM {ε α β : Type} {f : α → Except ε β} {xs : List α} {ys : List β}
    (h : xs.mapM f = .ok ys) {y : β} : y ∈ ys ↔ ∃ x ∈ xs, f x = .ok y := by
  induction xs generalizing ys with
  | nil =>
    obtain rfl : [] = ys := Except.ok.inj h
    simp
  | cons x xs ih =>
    rw [List.mapM_cons, bind_eq_ok_iff] at h
    obtain ⟨z, hz, h⟩ := h
    obtain ⟨zs, hzs, h⟩ := bind_eq_ok_iff.1 h
    obtain rfl : z :: zs = ys := Except.ok.inj h
    simp [ih hzs, hz, eq_comm]

/-- The key belongs to some name. -/
def Key.Spelled (k : Key) : Prop := ∃ name, Key.of name = k

theorem Table.mem_entries_put {α β : Type} [DecidableEq α] {t : Table α β} {k k' : α} {v v' : β}
    (h : (k', v') ∈ (t.put k v).entries) : (k', v') ∈ t.entries ∨ k' = k ∧ v' = v := by
  obtain ⟨es⟩ := t
  simp only [put, alter] at h
  induction es with
  | nil =>
    obtain ⟨rfl, rfl⟩ : k' = k ∧ v' = v := by simpa [alterIn] using h
    exact Or.inr ⟨rfl, rfl⟩
  | cons e rest ih =>
    obtain ⟨k₀, v₀⟩ := e
    rw [alterIn] at h
    split at h
    · rename_i hk
      rcases List.mem_cons.1 h with h | h
      · obtain ⟨rfl, rfl⟩ := Prod.mk.inj h
        exact Or.inr ⟨hk, rfl⟩
      · exact Or.inl (List.mem_cons_of_mem _ h)
    · rcases List.mem_cons.1 h with h | h
      · exact Or.inl (h ▸ List.mem_cons_self)
      · exact (ih h).imp_left (List.mem_cons_of_mem _)

theorem Table.mem_keys_put {α β : Type} [DecidableEq α] {t : Table α β} {k k' : α} {v : β} :
    k' ∈ (t.put k v).keys ↔ k' ∈ t.keys ∨ k' = k := mem_keys_alter

namespace Signatures

/-- Signatures as they come about: packaged ones or none, and documents that are added. -/
inductive Built : Signatures → Prop
  | empty : Built .empty
  | packaged : Built packaged
  | merge {s : Signatures} (h : Built s) (data : Value) : Built (s.merge data).1

/-- The signatures place `parent` directly above `child`. -/
def Extends (s : Signatures) (child parent : Key) : Prop :=
  (child, parent) ∈ s.parents.entries ∨ ∃ ps, (child, ps) ∈ s.interfaces.entries ∧ parent ∈ ps

/-- Whatever has something above it or lists a member is one of the classes, all keys belong to
names, and the name of a parent is not empty. -/
structure Grounded (s : Signatures) : Prop where
  child : ∀ c p, s.Extends c p → c ∈ s.classes.keys
  parent : ∀ c p, s.Extends c p → p.Spelled
  spelled : ∀ k ∈ s.classes.keys, k.Spelled
  lists : ∀ kind c m v, s.ownDeclaration? kind c m = some v → c ∈ s.classes.keys
  named : ∀ c p, s.parents.get? c = some p → p.text ≠ ""

/-- An entry that may come when `classes` are known. -/
def Entry.Fits (classes : List Key) : Entry → Prop
  | className key name => key = Key.of name
  | parent cls p => cls ∈ classes ∧ p.Spelled ∧ p.text ≠ ""
  | interfaces cls ps => cls ∈ classes ∧ ∀ p ∈ ps, p.Spelled
  | member _ cls .. => cls ∈ classes
  | function .. => True

theorem Entry.Fits.mono {ks ls : List Key} {e : Entry} (h : e.Fits ks) (hkl : ∀ k ∈ ks, k ∈ ls) :
    e.Fits ls := by
  cases e with
  | parent cls p => exact ⟨hkl cls h.1, h.2⟩
  | interfaces cls ps => exact ⟨hkl cls h.1, h.2⟩
  | member kind cls name decl => exact hkl cls h
  | _ => exact h

theorem mem_keys_add {s : Signatures} {k : Key} (h : k ∈ s.classes.keys) (e : Entry) :
    k ∈ (s.add e).classes.keys := by
  cases e with
  | className key name => exact Table.mem_keys_put.2 (Or.inl h)
  | member kind cls name decl => cases kind <;> exact h
  | _ => exact h

theorem extends_add {s : Signatures} {e : Entry} {ks : List Key} {c p : Key} (he : e.Fits ks)
    (h : (s.add e).Extends c p) : s.Extends c p ∨ c ∈ ks ∧ p.Spelled := by
  cases e with
  | parent cls q =>
    rcases h with h | h
    · rcases Table.mem_entries_put h with h | ⟨rfl, rfl⟩
      · exact Or.inl (Or.inl h)
      · exact Or.inr ⟨he.1, he.2.1⟩
    · exact Or.inl (Or.inr h)
  | interfaces cls qs =>
    rcases h with h | ⟨ps, hps, hp⟩
    · exact Or.inl (Or.inl h)
    · rcases Table.mem_entries_put hps with hps | ⟨rfl, rfl⟩
      · exact Or.inl (Or.inr ⟨ps, hps, hp⟩)
      · exact Or.inr ⟨he.1, he.2 p hp⟩
  | member kind cls name decl => cases kind <;> exact Or.inl h
  | _ => exact Or.inl h

theorem get?_addMember (t : Table Key (Table Key Value)) (cls name c m : Key) (decl : Value) :
    ((addMember cls name decl t).get? c).bind (·.get? m) =
      if cls = c ∧ name = m then some decl else (t.get? c).bind (·.get? m) := by
  by_cases hc : cls = c
  · subst hc
    by_cases hm : name = m
    · simp [addMember, hm]
    · have hempty : (Table.empty : Table Key Value).get? m = none := rfl
      cases ht : t.get? cls <;> simp [addMember, hm, ht, hempty]
  · simp [addMember, hc]

theorem ownDeclaration?_add {s : Signatures} {e : Entry} {kind : MemberKind} {c m : Key} {v : Value}
    (h : (s.add e).ownDeclaration? kind c m = some v) :
    s.ownDeclaration? kind c m = some v ∨ e = .member kind c m v := by
  have hmember {t : Table Key (Table Key Value)} {cls name : Key} {decl : Value}
      (h : ((addMember cls name decl t).get? c).bind (·.get? m) = some v) :
      (t.get? c).bind (·.get? m) = some v ∨
        Entry.member kind cls name decl = .member kind c m v := by
    rw [get?_addMember] at h
    split at h
    · rename_i hcm
      rw [hcm.1, hcm.2, Option.some.inj h]
      exact Or.inr rfl
    · exact Or.inl h
  cases e with
  | member kind' cls name decl =>
    -- a member of another kind goes into another table
    cases kind' <;> cases kind <;> first | exact Or.inl h | exact hmember h
  | _ => exact Or.inl h

theorem get?_parents_add {s : Signatures} {e : Entry} {c p : Key}
    (h : (s.add e).parents.get? c = some p) : s.parents.get? c = some p ∨ e = .parent c p := by
  cases e with
  | parent cls q =>
    have hput : (s.parents.put cls q).get? c = some p := h
    rw [Table.get?_put] at hput
    split at hput
    · rename_i hc
      rw [hc, Option.some.inj hput]
      exact Or.inr rfl
    · exact Or.inl hput
  | member kind cls name decl => cases kind <;> exact Or.inl h
  | _ => exact Or.inl h

theorem Grounded.add {s : Signatures} (h : s.Grounded) {e : Entry} (he : e.Fits s.classes.keys) :
    (s.add e).Grounded where
  child c p hc := by
    rcases extends_add he hc with hc | ⟨hc, -⟩
    · exact mem_keys_add (h.child c p hc) e
    · exact mem_keys_add hc e
  parent c p hc := (extends_add he hc).elim (h.parent c p) And.right
  spelled k hk := by
    cases e with
    | className key name =>
      rcases Table.mem_keys_put.1 hk with hk | rfl
      · exact h.spelled k hk
      · exact ⟨name, he.symm⟩
    | member kind cls name decl => cases kind <;> exact h.spelled k hk
    | _ => exact h.spelled k hk
  lists kind c m v hv := by
    rcases ownDeclaration?_add hv with hv | rfl
    · exact mem_keys_add (h.lists kind c m v hv) e
    · exact mem_keys_add he _
  named c p hp := by
    rcases get?_parents_add hp with hp | rfl
    · exact h.named c p hp
    · exact he.2.2

/-- Adding the entries keeps signatures grounded. -/
def Keeps (es : List Entry) : Prop := ∀ s : Signatures, s.Grounded → (s.addAll es).Grounded

theorem grounded_addAll {s : Signatures} (h : s.Grounded) {ks : List Key} {es : List Entry}
    (hks : ∀ k ∈ ks, k ∈ s.classes.keys) (hes : ∀ e ∈ es, e.Fits ks) : (s.addAll es).Grounded := by
  induction es generalizing s with
  | nil => exact h
  | cons e es ih =>
    have he := (hes e List.mem_cons_self).mono hks
    exact ih (h.add he) (fun k hk => mem_keys_add (hks k hk) e)
      fun e' he' => hes e' (List.mem_cons_of_mem e he')

theorem Keeps.append {es es' : List Entry} (h : Keeps es) (h' : Keeps es') : Keeps (es ++ es') := by
  intro s hs
  rw [addAll, List.foldl_append]
  exact h' _ (h s hs)

theorem keeps_flatMap {α : Type} {xs : List α} {f : α → List Entry} (h : ∀ x ∈ xs, Keeps (f x)) :
    Keeps (xs.flatMap f) := by
  induction xs with
  | nil => exact fun s hs => hs
  | cons x xs ih =>
    rw [List.flatMap_cons]
    exact (h x List.mem_cons_self).append (ih fun y hy => h y (List.mem_cons_of_mem x hy))

/-- A class comes before everything that is said about it. -/
theorem keeps_class {name : String} {es : List Entry} (h : ∀ e ∈ es, e.Fits [Key.of name]) :
    Keeps (.className (Key.of name) name :: es) := by
  intro s hs
  have hclass : Entry.Fits s.classes.keys (.className (Key.of name) name) := rfl
  refine grounded_addAll (hs.add hclass) (fun k hk => ?_) h
  exact Table.mem_keys_put.2 (Or.inr (List.mem_singleton.1 hk))

theorem keeps_functions {es : List Entry} (h : ∀ e ∈ es, e.Fits []) : Keeps es :=
  fun _ hs => grounded_addAll hs (fun _ hk => absurd hk List.not_mem_nil) h

theorem grounded_empty : Grounded .empty where
  child c p h := by simp [Extends, empty, Table.empty] at h
  parent c p h := by simp [Extends, empty, Table.empty] at h
  spelled k hk := by simp [empty, Table.empty, Table.keys] at hk
  lists kind c m v hv := by
    have hnone : empty.ownDeclaration? kind c m = none := by cases kind <;> rfl
    rw [hnone] at hv
    cases hv
  named c p hp := by cases hp

theorem Packaged.mem_entries {c : ClassSignature} {e : Entry} (h : e ∈ c.entries) :
    e = .className (Key.of c.name) c.name ∨
    (∃ p, c.parent = some p ∧ e = .parent (Key.of c.name) (Key.of p)) ∨
    (∃ ps, (∀ p ∈ ps, p.Spelled) ∧ e = .interfaces (Key.of c.name) ps) ∨
    ∃ kind m decl, e = .member kind (Key.of c.name) m (.text decl) := by
  simp only [ClassSignature.entries, List.cons_append, List.nil_append, List.mem_cons,
    List.mem_append, Option.mem_toList, Option.map_eq_some_iff, List.mem_map] at h
  rcases h with h | (((⟨p, hp, rfl⟩ | h) | ⟨m, -, rfl⟩) | ⟨m, -, rfl⟩) | ⟨m, -, rfl⟩
  · exact Or.inl h
  · exact Or.inr (Or.inl ⟨p, hp, rfl⟩)
  · split at h
    · simp at h
    · refine Or.inr (Or.inr (Or.inl ⟨_, fun p hp => ?_, List.mem_singleton.1 h⟩))
      obtain ⟨q, -, rfl⟩ := List.mem_map.1 hp
      exact ⟨q, rfl⟩
  · exact Or.inr (Or.inr (Or.inr ⟨_, _, _, rfl⟩))
  · exact Or.inr (Or.inr (Or.inr ⟨_, _, _, rfl⟩))
  · exact Or.inr (Or.inr (Or.inr ⟨_, _, _, rfl⟩))

theorem Packaged.keeps_entries {c : ClassSignature} (hp : ∀ p, c.parent = some p → p ≠ "") :
    Keeps c.entries := by
  have hentries : c.entries = .className (Key.of c.name) c.name :: c.entries.tail := rfl
  rw [hentries]
  refine keeps_class fun e he => ?_
  rcases Packaged.mem_entries (List.mem_of_mem_tail he) with
    rfl | ⟨p, hpc, rfl⟩ | ⟨ps, hps, rfl⟩ | ⟨kind, m, decl, rfl⟩
  · rfl
  · exact ⟨List.mem_singleton_self _, ⟨p, rfl⟩, Text.lower_eq_empty_iff.not.2 (hp p hpc)⟩
  · exact ⟨List.mem_singleton_self _, hps⟩
  · exact List.mem_singleton_self _

theorem grounded_packaged : packaged.Grounded := by
  have hparents : ∀ c ∈ Packaged.classes, c.parent ≠ some "" := by decide
  refine keeps_flatMap (fun c hc => Packaged.keeps_entries fun p hp hempty => ?_) _
    (keeps_functions (fun e he => ?_) _ grounded_empty)
  · exact hparents c hc (hempty ▸ hp)
  · obtain ⟨f, -, rfl⟩ := List.mem_map.1 he
    trivial

theorem Reading.mem_entries_followedBy {r next : Reading} {e : Entry}
    (h : e ∈ (r.followedBy next).entries) : e ∈ r.entries ∨ e ∈ next.entries := by
  unfold Reading.followedBy at h
  split at h
  · exact Or.inl h
  · exact List.mem_append.1 h

theorem Reading.mem_entries_all {rs : List Reading} {e : Entry} (h : e ∈ (Reading.all rs).entries) :
    ∃ r ∈ rs, e ∈ r.entries := by
  induction rs with
  | nil => simp [Reading.all] at h
  | cons r rs ih =>
    rcases Reading.mem_entries_followedBy h with hr | hr
    · exact ⟨r, List.mem_cons_self, hr⟩
    · obtain ⟨r', hr', he⟩ := ih hr
      exact ⟨r', List.mem_cons_of_mem r hr', he⟩

theorem keeps_followedBy {r next : Reading} (h : Keeps r.entries) (h' : Keeps next.entries) :
    Keeps (r.followedBy next).entries := by
  unfold Reading.followedBy
  split
  · exact h
  · exact h.append h'

theorem keeps_all {rs : List Reading} (h : ∀ r ∈ rs, Keeps r.entries) :
    Keeps (Reading.all rs).entries := by
  induction rs with
  | nil => exact fun s hs => hs
  | cons r rs ih =>
    exact keeps_followedBy (h r List.mem_cons_self) (ih fun x hx => h x (List.mem_cons_of_mem r hx))

theorem Reading.mem_entries_of {x : Except Fault (List Entry)} {e : Entry} :
    e ∈ (Reading.of x).entries ↔ ∃ es, x = .ok es ∧ e ∈ es := by
  cases x <;> simp [Reading.of]

theorem mem_parentEntries {cls : Key} {info : Value} {e : Entry}
    (he : e ∈ (Reading.of (parentEntries cls info)).entries) :
    ∃ name, name ≠ "" ∧ e = .parent cls (Key.of name) := by
  obtain ⟨es, hes, he⟩ := Reading.mem_entries_of.1 he
  obtain ⟨parent, -, hes⟩ := bind_eq_ok_iff.1 hes
  split at hes
  · rename_i hpresent
    obtain ⟨name, hname, hes⟩ := bind_eq_ok_iff.1 hes
    obtain rfl : [.parent cls (Key.of name)] = es := Except.ok.inj hes
    refine ⟨name, ?_, List.mem_singleton.1 he⟩
    cases parent with
    | text t =>
      obtain rfl := Except.ok.inj hname
      simpa [Value.isPresent] using hpresent
    | _ => cases hname
  · obtain rfl : [] = es := Except.ok.inj hes
    simp at he

theorem mem_interfaceEntries {cls : Key} {info : Value} {e : Entry}
    (he : e ∈ (Reading.of (interfaceEntries cls info)).entries) :
    ∃ ps, (∀ p ∈ ps, p.Spelled) ∧ e = .interfaces cls ps := by
  obtain ⟨es, hes, he⟩ := Reading.mem_entries_of.1 he
  obtain ⟨parents, -, hes⟩ := bind_eq_ok_iff.1 hes
  split at hes
  · obtain rfl : [] = es := Except.ok.inj hes
    simp at he
  · obtain ⟨vs, -, hes⟩ := bind_eq_ok_iff.1 hes
    obtain ⟨ks, hks, hes⟩ := bind_eq_ok_iff.1 hes
    obtain rfl : [.interfaces cls ks] = es := Except.ok.inj hes
    refine ⟨ks, fun k hk => ?_, List.mem_singleton.1 he⟩
    obtain ⟨v, -, hv⟩ := (mem_of_mapM hks).1 hk
    rw [map_eq_pure_bind, bind_eq_ok_iff] at hv
    obtain ⟨name, -, hname⟩ := hv
    exact ⟨name, Except.ok.inj hname⟩

theorem mem_memberEntries {kind : MemberKind} {field : String} {cls : Key} {info : Value}
    {e : Entry} (he : e ∈ (Reading.of (memberEntries kind field cls info)).entries) :
    ∃ v fs f, fieldOf info field = .ok v ∧ fieldsOf v = .ok fs ∧ f ∈ fs ∧
      e = .member kind cls (Key.of f.1) f.2 := by
  obtain ⟨es, hes, he⟩ := Reading.mem_entries_of.1 he
  obtain ⟨v, hv, hes⟩ := bind_eq_ok_iff.1 hes
  obtain ⟨fs, hfs, hes⟩ := bind_eq_ok_iff.1 hes
  obtain rfl := Except.ok.inj hes
  obtain ⟨f, hf, rfl⟩ := List.mem_map.1 he
  exact ⟨v, fs, f, hv, hfs, hf, rfl⟩

/-- The entries of a class in a document. Something empty in its place is read as a class of which
nothing is said. -/
theorem mem_readClass {name : String} {info : Value} {e : Entry}
    (h : e ∈ (readClass name info).entries) :
    e = .className (Key.of name) name ∨
    (∃ p, p ≠ "" ∧ e = .parent (Key.of name) (Key.of p)) ∨
    (∃ ps, (∀ p ∈ ps, p.Spelled) ∧ e = .interfaces (Key.of name) ps) ∨
    ∃ kind, ∃ table ∈ ["methods", "properties", "constants"], ∃ v fs, ∃ f ∈ fs,
      fieldOf (if info.isPresent then info else .record []) table = .ok v ∧ fieldsOf v = .ok fs ∧
        e = .member kind (Key.of name) (Key.of f.1) f.2 := by
  obtain ⟨r, hr, he⟩ := Reading.mem_entries_all h
  simp only [List.mem_cons, List.not_mem_nil, or_false] at hr
  rcases hr with rfl | rfl | rfl | rfl | rfl | rfl
  · exact Or.inl (List.mem_singleton.1 he)
  · exact Or.inr (Or.inl (mem_parentEntries he))
  · exact Or.inr (Or.inr (Or.inl (mem_interfaceEntries he)))
  all_goals
    obtain ⟨v, fs, f, hv, hfs, hf, rfl⟩ := mem_memberEntries he
    exact Or.inr (Or.inr (Or.inr ⟨_, _, by simp, v, fs, f, hf, hv, hfs, rfl⟩))

theorem keeps_readClass (name : String) (info : Value) : Keeps (readClass name info).entries := by
  have hentries : (readClass name info).entries =
      .className (Key.of name) name :: (readClass name info).entries.tail := rfl
  rw [hentries]
  refine keeps_class fun e he => ?_
  rcases mem_readClass (List.mem_of_mem_tail he) with
    rfl | ⟨p, hp, rfl⟩ | ⟨ps, hps, rfl⟩ | ⟨kind, table, -, v, fs, f, -, -, -, rfl⟩
  · rfl
  · exact ⟨List.mem_singleton_self _, ⟨p, rfl⟩, Text.lower_eq_empty_iff.not.2 hp⟩
  · exact ⟨List.mem_singleton_self _, hps⟩
  · exact List.mem_singleton_self _

theorem keeps_read (data : Value) : Keeps (read data).entries := by
  unfold read
  simp only
  refine keeps_followedBy (keeps_functions fun e he => ?_) ?_
  · obtain ⟨es, hes, he⟩ := Reading.mem_entries_of.1 he
    obtain ⟨v, -, hes⟩ := bind_eq_ok_iff.1 hes
    obtain ⟨fs, -, hes⟩ := bind_eq_ok_iff.1 hes
    obtain rfl := Except.ok.inj hes
    obtain ⟨m, -, rfl⟩ := List.mem_map.1 he
    trivial
  · split
    · refine keeps_all fun r hr => ?_
      obtain ⟨c, -, rfl⟩ := List.mem_map.1 hr
      exact keeps_readClass c.1 c.2
    · exact fun s hs => hs

theorem Built.grounded {s : Signatures} (h : s.Built) : s.Grounded := by
  induction h with
  | empty => exact grounded_empty
  | packaged => exact grounded_packaged
  | merge _ data ih => exact keeps_read data _ ih

end Signatures

/-- Some name of the key. -/
noncomputable def Key.spelling (k : Key) : String := Classical.epsilon fun name => Key.of name = k

theorem Key.Spelled.of_spelling {k : Key} (h : k.Spelled) : Key.of k.spelling = k :=
  Classical.epsilon_spec h

namespace Signatures

open Hierarchy

/-- The calls that make the hierarchy of the signatures. -/
noncomputable def edits (s : Signatures) : List Edit :=
  s.classes.keys.map (fun k => .declare k.spelling) ++
    s.parents.entries.map (fun e => .edge e.1.spelling e.2.spelling) ++
    s.interfaces.entries.map (fun e => .edges e.1.spelling (e.2.map Key.spelling)) ++ [.close]

theorem Grounded.of_spelling_child {s : Signatures} (h : s.Grounded) {c p : Key}
    (hc : s.Extends c p) : Key.of c.spelling = c :=
  (h.spelled c (h.child c p hc)).of_spelling

theorem Grounded.of_spelling_parent {s : Signatures} (h : s.Grounded) {c p : Key}
    (hc : s.Extends c p) : Key.of p.spelling = p :=
  (h.parent c p hc).of_spelling

@[simp] theorem hierarchy_empty : Signatures.empty.hierarchy = .empty := close_eq_of_turns 0 rfl

@[simp] theorem memberType?_empty (kind : MemberKind) (k m : Key) :
    Signatures.empty.memberType? kind k m = none := by
  have hown : (Signatures.empty.lineage [] k).findSome?
      (fun c => Signatures.empty.ownDeclaration? kind c m) = none :=
    List.findSome?_eq_none_iff.2 fun _ _ => by cases kind <;> rfl
  rw [memberType?, hown, Option.bind_none]

theorem run_edits {s : Signatures} (h : s.Grounded) : Edit.run .empty s.edits = s.hierarchy := by
  have hdeclare : s.classes.keys.foldl (fun h k => h.declare (Key.of k.spelling)) .empty =
      s.classes.keys.foldl Hierarchy.declare .empty := by
    refine List.foldl_ext _ _ _ fun h' k hk => ?_
    rw [(h.spelled k hk).of_spelling]
  have hedge (g : Hierarchy) :
      s.parents.entries.foldl (fun h e => h.link (Key.of e.1.spelling) (Key.of e.2.spelling)) g =
        s.parents.entries.foldl (fun h e => h.link e.1 e.2) g := by
    refine List.foldl_ext _ _ _ fun h' e he => ?_
    have hext : s.Extends e.1 e.2 := Or.inl he
    rw [h.of_spelling_child hext, h.of_spelling_parent hext]
  have hedges (g : Hierarchy) : s.interfaces.entries.foldl (fun h e =>
      h.linkAll (Key.of e.1.spelling) ((e.2.map Key.spelling).map Key.of)) g =
        s.interfaces.entries.foldl (fun h e => h.linkAll e.1 e.2) g := by
    refine List.foldl_ext _ _ _ fun h' e he => ?_
    have hext {p : Key} (hp : p ∈ e.2) : s.Extends e.1 p := Or.inr ⟨e.2, he, hp⟩
    have hmap : (e.2.map Key.spelling).map Key.of = e.2 := by
      rw [List.map_map]
      refine (List.map_congr_left fun p hp => ?_).trans (List.map_id _)
      exact h.of_spelling_parent (hext hp)
    rw [hmap]
    cases hp : e.2 with
    | nil => rfl
    | cons p ps => rw [h.of_spelling_child (hext (hp ▸ List.mem_cons_self))]
  simp only [Edit.run, edits, List.foldl_append, List.foldl_map, Edit.apply, hdeclare, hedge, hedges]
  rfl

theorem recorded_edits {s : Signatures} (h : s.Grounded) {c p : Key} :
    Recorded s.edits c p ↔ s.Extends c p := by
  simp only [Recorded, edits, List.mem_append, List.mem_map, List.mem_singleton]
  constructor
  · rintro ⟨e, ((⟨k, -, rfl⟩ | ⟨⟨c', p'⟩, he, rfl⟩) | ⟨⟨c', ps⟩, he, rfl⟩) | rfl, hcp⟩
    · simp [Edit.recorded] at hcp
    · have hext : s.Extends c' p' := Or.inl he
      obtain ⟨rfl, rfl⟩ : c = c' ∧ p = p' := by
        simpa [Edit.recorded, h.of_spelling_child hext, h.of_spelling_parent hext] using hcp
      exact hext
    · obtain ⟨q, hq, hcp⟩ := List.mem_map.1 hcp
      obtain ⟨p', hp', rfl⟩ := List.mem_map.1 hq
      have hext : s.Extends c' p' := Or.inr ⟨ps, he, hp'⟩
      rw [h.of_spelling_child hext, h.of_spelling_parent hext] at hcp
      obtain ⟨rfl, rfl⟩ := Prod.mk.inj hcp
      exact hext
    · simp [Edit.recorded] at hcp
  · intro hext
    have hc := h.of_spelling_child hext
    have hp := h.of_spelling_parent hext
    rcases hext with he | ⟨ps, he, hmem⟩
    · refine ⟨_, Or.inl (Or.inl (Or.inr ⟨_, he, rfl⟩)), ?_⟩
      simp [Edit.recorded, hc, hp]
    · refine ⟨_, Or.inl (Or.inr ⟨_, he, rfl⟩), ?_⟩
      refine List.mem_map.2 ⟨p.spelling, List.mem_map.2 ⟨p, hmem, rfl⟩, ?_⟩
      rw [hc, hp]

theorem declares_edits {s : Signatures} (h : s.Grounded) {k : Key} :
    Declares s.edits k ↔ k ∈ s.classes.keys := by
  simp only [Declares, edits, List.mem_append, List.mem_map, List.mem_singleton]
  constructor
  · rintro ⟨e, ((⟨k', hk', rfl⟩ | ⟨e', -, rfl⟩) | ⟨e', -, rfl⟩) | rfl, hk⟩
    · obtain rfl : k = k' := by simpa [Edit.declared, (h.spelled k' hk').of_spelling] using hk
      exact hk'
    · simp [Edit.declared] at hk
    · simp [Edit.declared] at hk
    · simp [Edit.declared] at hk
  · intro hk
    refine ⟨_, Or.inl (Or.inl (Or.inl ⟨k, hk, rfl⟩)), ?_⟩
    simp [Edit.declared, (h.spelled k hk).of_spelling]

/-- A class stands above another one exactly if it is the same class or a chain of edges leads up to
it. -/
theorem Grounded.mem_ancestors {s : Signatures} (h : s.Grounded) {c p : Key} :
    p ∈ s.hierarchy.ancestors c ↔
      c = p ∧ c ∈ s.classes.keys ∨ Relation.TransGen s.Extends c p := by
  obtain ⟨front, hfront⟩ : ∃ front, s.edits = front ++ [.close] := ⟨_, rfl⟩
  have hr : Reflects s.edits (Edit.run .empty front) := by
    rw [hfront]
    exact (reflects_nil.run front).concat_close
  have hclose : s.hierarchy = (Edit.run .empty front).close := by
    rw [← run_edits h, hfront, Edit.run, List.foldl_append]
    rfl
  have hext : Recorded s.edits = s.Extends := by
    funext x y
    exact propext (recorded_edits h)
  rw [hclose, hr.mem_ancestors_close, Leads, declares_edits h, hext]
  intro x y hxy
  exact (declares_edits h).2 (h.child x y ((recorded_edits h).1 hxy))

end Signatures

theorem Index.mem_classLikes {g : Graph} {ops : List Op} {i : Index} (h : Index.build g ops = .ok i)
    {c : ClassLike} :
    c ∈ i.classLikes ↔ ∃ head name heritage body, .classLike head name heritage body ∈ ops ∧
      Index.classLikeOf g (.classLike head name heritage body) = .ok c := by
  obtain ⟨cs, hcs, h⟩ := bind_eq_ok_iff.1 h
  obtain ⟨fs, -, h⟩ := bind_eq_ok_iff.1 h
  obtain ⟨ks, -, h⟩ := bind_eq_ok_iff.1 h
  obtain rfl := Except.ok.inj h
  rw [mem_of_mapM hcs]
  constructor
  · rintro ⟨op, hop, hc⟩
    have hmem : op ∈ ops := by
      simp only [List.mem_append, List.mem_filter] at hop
      tauto
    cases op with
    | classLike head name heritage body => exact ⟨head, name, heritage, body, hmem, hc⟩
    | _ => cases hc
  · rintro ⟨head, name, heritage, body, hmem, hc⟩
    refine ⟨_, ?_, hc⟩
    cases heritage <;> simp_all [Op.action, Heritage.action]

theorem Index.mem_classesNamed {g : Graph} {ops : List Op} {i : Index}
    (h : Index.build g ops = .ok i) {k : Key} {c : ClassLike} :
    c ∈ i.classesNamed k ↔ c ∈ i.classLikes ∧ Key.of c.name = k := by
  obtain ⟨cs, -, h⟩ := bind_eq_ok_iff.1 h
  obtain ⟨fs, -, h⟩ := bind_eq_ok_iff.1 h
  obtain ⟨ks, -, h⟩ := bind_eq_ok_iff.1 h
  obtain rfl := Except.ok.inj h
  rw [Index.classesNamed, Table.getD_get?_group, List.mem_filter, decide_eq_true_eq]

theorem Index.mem_methodsNamed {g : Graph} {head : Head} {name : String} {heritage : Heritage}
    {body : List Op} {c : ClassLike}
    (hc : Index.classLikeOf g (.classLike head name heritage body) = .ok c) {m : Key} {r : Routine} :
    r ∈ c.methodsNamed m ↔
      ∃ mhead f, .method mhead f ∈ body ∧ r = g.routine mhead f ∧ Key.of (g.func f).name = m := by
  obtain rfl := Except.ok.inj hc
  rw [ClassLike.methodsNamed, Table.getD_get?_group, List.mem_filter, decide_eq_true_eq]
  constructor
  · rintro ⟨hr, hm⟩
    obtain ⟨op, hop, hr⟩ := List.mem_filterMap.1 hr
    cases op with
    | method mhead f =>
      obtain rfl := Option.some.inj hr
      exact ⟨mhead, f, hop, rfl, hm⟩
    | _ => cases hr
  · rintro ⟨mhead, f, hop, rfl, hm⟩
    exact ⟨List.mem_filterMap.2 ⟨_, hop, rfl⟩, hm⟩

namespace Analysis

open Hierarchy Relation

/-- The program or the signatures place `parent` directly above `child`. -/
def Extends (a : Analysis) (child parent : Key) : Prop :=
  (∃ head name heritage body p, .classLike head name heritage body ∈ a.visited ∧
    p ∈ heritage.supertypes ∧ child = Key.of name ∧ parent = Key.of p) ∨
  a.signatures.Extends child parent

/-- The program or the signatures declare a class. -/
def Declares (a : Analysis) (k : Key) : Prop :=
  (∃ head name heritage body, .classLike head name heritage body ∈ a.visited ∧ k = Key.of name) ∨
  k ∈ a.signatures.classes.keys

/-- The calls that add the classes of a program. -/
def edits (cs : List ClassLike) : List Edit :=
  cs.map (fun c => .declare c.name) ++ cs.map fun c => .edges c.name c.heritage.supertypes

theorem extend_eq (h : Hierarchy) (cs : List ClassLike) :
    extend h cs = (Edit.run h (edits cs)).close := by
  simp only [extend, Edit.run, edits, List.foldl_append, List.foldl_map, Edit.apply]

/-- What an analysis takes from a program and signatures. -/
structure Reads (a : Analysis) (s : Signatures) : Prop where
  signatures : a.signatures = s
  index : Index.build a.graph a.visited = .ok a.index
  hierarchy : a.hierarchy = extend s.hierarchy a.index.classLikes

theorem reads_of {g : Graph} {settings : Settings} {s : Signatures} {a : Analysis}
    (h : Analysis.of g settings s = .ok a) : a.Reads s := by
  obtain ⟨i, hi, h⟩ := bind_eq_ok_iff.1 h
  obtain rfl := Except.ok.inj h
  exact ⟨rfl, hi, rfl⟩

theorem of_eq_ok {g : Graph} {settings : Settings} {s : Signatures} {ops : List Op} {i : Index}
    {h : Hierarchy} (hv : g.visited = ops) (hi : Index.build g ops = .ok i) (hs : s.hierarchy = h) :
    Analysis.of g settings s = .ok
      { graph := g, settings, signatures := s, index := i, visited := ops
        operands := (ops.flatMap fun op => op.reads ++ op.writes).foldl Graph.addUnseen []
        hierarchy := extend h i.classLikes } := by
  rw [Analysis.of, Graph.usedOperands, hv, hi, ← hs]
  rfl

variable {a : Analysis} {s : Signatures}

theorem Reads.recorded (h : a.Reads s) (hs : s.Grounded) {c p : Key} :
    Recorded (s.edits ++ edits a.index.classLikes) c p ↔ a.Extends c p := by
  have happ : Recorded (s.edits ++ edits a.index.classLikes) c p ↔
      Recorded (edits a.index.classLikes) c p ∨ Recorded s.edits c p := by
    simp only [Recorded, List.mem_append, or_and_right, exists_or, or_comm]
  rw [happ, Signatures.recorded_edits hs, Extends, h.signatures]
  refine or_congr_left ?_
  simp only [Recorded, edits, List.mem_append, List.mem_map]
  constructor
  · rintro ⟨e, ⟨k, -, rfl⟩ | ⟨k, hk, rfl⟩, hcp⟩
    · simp [Edit.recorded] at hcp
    · obtain ⟨q, hq, hcp⟩ := List.mem_map.1 hcp
      obtain ⟨rfl, rfl⟩ := Prod.mk.inj hcp
      obtain ⟨head, name, heritage, body, hop, hk⟩ := (Index.mem_classLikes h.index).1 hk
      obtain rfl := Except.ok.inj hk
      exact ⟨head, name, heritage, body, q, hop, hq, rfl, rfl⟩
  · rintro ⟨head, name, heritage, body, q, hop, hq, rfl, rfl⟩
    have hk := (Index.mem_classLikes h.index).2 ⟨head, name, heritage, body, hop, rfl⟩
    exact ⟨_, Or.inr ⟨_, hk, rfl⟩, List.mem_map.2 ⟨q, hq, rfl⟩⟩

theorem Reads.declares (h : a.Reads s) (hs : s.Grounded) {k : Key} :
    Hierarchy.Declares (s.edits ++ edits a.index.classLikes) k ↔ a.Declares k := by
  have happ : Hierarchy.Declares (s.edits ++ edits a.index.classLikes) k ↔
      Hierarchy.Declares (edits a.index.classLikes) k ∨ Hierarchy.Declares s.edits k := by
    simp only [Hierarchy.Declares, List.mem_append, or_and_right, exists_or, or_comm]
  rw [happ, Signatures.declares_edits hs, Declares, h.signatures]
  refine or_congr_left ?_
  simp only [Hierarchy.Declares, edits, List.mem_append, List.mem_map]
  constructor
  · rintro ⟨e, ⟨c, hc, rfl⟩ | ⟨c, -, rfl⟩, hk⟩
    · obtain ⟨head, name, heritage, body, hop, hc⟩ := (Index.mem_classLikes h.index).1 hc
      obtain rfl := Except.ok.inj hc
      exact ⟨head, name, heritage, body, hop, List.mem_singleton.1 hk⟩
    · simp [Edit.declared] at hk
  · rintro ⟨head, name, heritage, body, hop, rfl⟩
    have hc := (Index.mem_classLikes h.index).2 ⟨head, name, heritage, body, hop, rfl⟩
    exact ⟨_, Or.inl ⟨_, hc, rfl⟩, List.mem_singleton_self _⟩

/-- Whatever has something above it is declared. -/
theorem Reads.child_declared (h : a.Reads s) (hs : s.Grounded) {c p : Key} (hc : a.Extends c p) :
    a.Declares c := by
  rcases hc with ⟨head, name, heritage, body, q, hop, -, rfl, -⟩ | hc
  · exact Or.inl ⟨head, name, heritage, body, hop, rfl⟩
  · rw [h.signatures] at hc
    exact Or.inr (h.signatures ▸ hs.child c p hc)

theorem Reads.reflects (h : a.Reads s) (hs : s.Grounded) :
    ∃ base, a.hierarchy = base.close ∧ Reflects (s.edits ++ edits a.index.classLikes) base := by
  refine ⟨_, h.hierarchy.trans (extend_eq _ _), ?_⟩
  rw [← Signatures.run_edits hs]
  exact reflects_run _ _

/-- A class stands above another one exactly if it is the same declared class or a chain of edges
leads up to it. -/
theorem Reads.mem_ancestors (h : a.Reads s) (hs : s.Grounded) {c p : Key} :
    p ∈ a.hierarchy.ancestors c ↔ c = p ∧ a.Declares c ∨ TransGen a.Extends c p := by
  obtain ⟨base, hbase, hr⟩ := h.reflects hs
  have hext : Recorded (s.edits ++ edits a.index.classLikes) = a.Extends := by
    funext x y
    exact propext (h.recorded hs)
  rw [hbase, hr.mem_ancestors_close, Leads, h.declares hs, hext]
  intro x y hxy
  rw [h.recorded hs] at hxy
  exact (h.declares hs).2 (h.child_declared hs hxy)

theorem Reads.mem_descendants (h : a.Reads s) (hs : s.Grounded) {c p : Key} :
    c ∈ a.hierarchy.descendants p ↔ p ∈ a.hierarchy.ancestors c := by
  obtain ⟨base, hbase, hr⟩ := h.reflects hs
  rw [hbase]
  exact (hr.close.coherent.inverse c p).symm

end Analysis

end TypeRecovery
