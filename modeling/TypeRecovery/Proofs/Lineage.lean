import Mathlib.Data.List.Nodup
import TypeRecovery.Proofs.ClassHierarchy

/-!
# Members along the line of parents

What the signatures say about a member of a class is looked up in the class itself, in its parent,
in the parent of that and so on. The first class that lists the member decides, also with a
declaration that says nothing. The walk stops where it would enter a class again, and by then it has
seen every class of the line. The class that decides stands above the first one in the hierarchy of
the signatures, which is closed without regard to members.
-/
namespace TypeRecovery

theorem Table.mem_entries_of_get? {α β : Type} [DecidableEq α] {t : Table α β} {k : α} {v : β}
    (h : t.get? k = some v) : (k, v) ∈ t.entries := by
  obtain ⟨es⟩ := t
  simp only [get?] at h ⊢
  induction es with
  | nil => cases h
  | cons e rest ih =>
    obtain ⟨k₀, w⟩ := e
    rw [lookupIn] at h
    split at h
    · rename_i hk
      rw [hk, Option.some.inj h]
      exact List.mem_cons_self
    · exact List.mem_cons_of_mem _ (ih h)

namespace Signatures

def isText : Value → Bool
  | .text _ => true
  | _ => false

def isTextOrNull : Value → Bool
  | .null => true
  | v => isText v

/-- A table whose values satisfy `p`, or none. -/
def isTableOf (p : Value → Bool) : Value → Bool
  | .null => true
  | .record fields => fields.all fun f => p f.2
  | _ => false

def isNames : Value → Bool
  | .null => true
  | .list items => items.all isText
  | _ => false

/-- What a field holds, which may be left out. -/
def fieldOrNull (fields : List (String × Value)) (name : String) : Value :=
  (Value.field? name fields).getD .null

def isClassInfo : Value → Bool
  | .null => true
  | .record fields =>
    isTextOrNull (fieldOrNull fields "extends") && isNames (fieldOrNull fields "implements") &&
      ["methods", "properties", "constants"].all fun table =>
        isTableOf isTextOrNull (fieldOrNull fields table)
  | _ => false

/-- The form that documents of signatures have: names of functions and members with the texts of
their declarations, if there are any, and for each class its parent and its interfaces. -/
def isDocument : Value → Bool
  | .record fields =>
    isTableOf isTextOrNull (fieldOrNull fields "functions") &&
      isTableOf isClassInfo (fieldOrNull fields "classes")
  | _ => false

/-- Signatures from documents. -/
inductive Documented : Signatures → Prop
  | empty : Documented .empty
  | packaged : Documented packaged
  | merge {s : Signatures} {data : Value} (h : Documented s) (hd : isDocument data = true) :
    Documented (s.merge data).1

theorem Documented.built {s : Signatures} (h : s.Documented) : s.Built := by
  induction h with
  | empty => exact .empty
  | packaged => exact .packaged
  | merge _ _ ih => exact .merge ih _

theorem ownDeclaration?_addAll {s : Signatures} {es : List Entry} {kind : MemberKind} {c m : Key}
    {v : Value} (h : (s.addAll es).ownDeclaration? kind c m = some v) :
    s.ownDeclaration? kind c m = some v ∨ .member kind c m v ∈ es := by
  induction es generalizing s with
  | nil => exact Or.inl h
  | cons e es ih =>
    rcases ih h with h | h
    · rcases ownDeclaration?_add h with h | rfl
      · exact Or.inl h
      · exact Or.inr List.mem_cons_self
    · exact Or.inr (List.mem_cons_of_mem e h)

theorem of_mem_fieldsOf {p : Value → Bool} {v : Value} {fs : List (String × Value)}
    (hv : isTableOf p v = true) (h : fieldsOf v = .ok fs) : ∀ f ∈ fs, p f.2 = true := by
  unfold fieldsOf at h
  split at h
  · obtain rfl := Except.ok.inj h
    exact List.forall_mem_nil _
  · cases v with
    | record fields =>
      obtain rfl := Except.ok.inj h
      exact List.all_eq_true.1 hv
    | _ => cases h

theorem isTableOf_members {info : Value} (h : isClassInfo info = true) :
    ∀ table ∈ ["methods", "properties", "constants"], ∀ v,
      fieldOf (if info.isPresent then info else .record []) table = .ok v →
        isTableOf isTextOrNull v = true := by
  intro table htable v hv
  cases info with
  | null =>
    obtain rfl : Value.null = v := Except.ok.inj hv
    rfl
  | record fields =>
    have hinfo : (if (Value.record fields).isPresent then .record fields else .record []) =
        Value.record fields := by
      cases fields <;> rfl
    rw [hinfo] at hv
    obtain rfl : fieldOrNull fields table = v := Except.ok.inj hv
    simp only [isClassInfo, Bool.and_eq_true, List.all_eq_true] at h
    exact h.2 table htable
  | _ => cases h

/-- A member of a class in a document is declared by a text or not at all. -/
theorem isTextOrNull_of_mem_readClass {name : String} {info : Value} (h : isClassInfo info = true)
    {kind : MemberKind} {c m : Key} {v : Value}
    (hm : .member kind c m v ∈ (readClass name info).entries) : isTextOrNull v = true := by
  rcases mem_readClass hm with
    hm | ⟨p, -, hm⟩ | ⟨ps, -, hm⟩ | ⟨kind', table, ht, w, fs, f, hf, hw, hfs, hm⟩
  · cases hm
  · cases hm
  · cases hm
  · obtain ⟨-, -, -, rfl⟩ := Entry.member.inj hm
    exact of_mem_fieldsOf (isTableOf_members h table ht w hw) hfs f hf

theorem isTextOrNull_of_mem_read {data : Value} (h : isDocument data = true) {kind : MemberKind}
    {c m : Key} {v : Value} (hm : .member kind c m v ∈ (read data).entries) :
    isTextOrNull v = true := by
  rcases Reading.mem_entries_followedBy hm with hm | hm
  · obtain ⟨es, hes, hm⟩ := Reading.mem_entries_of.1 hm
    obtain ⟨w, -, hes⟩ := bind_eq_ok_iff.1 hes
    obtain ⟨fs, -, hes⟩ := bind_eq_ok_iff.1 hes
    obtain rfl := Except.ok.inj hes
    obtain ⟨f, -, hf⟩ := List.mem_map.1 hm
    cases hf
  · cases data with
    | record fields =>
      simp only [isDocument, Bool.and_eq_true] at h
      split at hm
      · rename_i fs hfs
        obtain ⟨w, hw, hfs⟩ := bind_eq_ok_iff.1 hfs
        obtain rfl : fieldOrNull fields "classes" = w := Except.ok.inj hw
        obtain ⟨r, hr, hm⟩ := Reading.mem_entries_all hm
        obtain ⟨f, hf, rfl⟩ := List.mem_map.1 hr
        exact isTextOrNull_of_mem_readClass (of_mem_fieldsOf h.2 hfs f hf) hm
      · simp at hm
    | _ => cases h

theorem Packaged.isTextOrNull_of_mem_entries {cs : ClassSignature} {kind : MemberKind} {c m : Key}
    {v : Value} (h : .member kind c m v ∈ cs.entries) : isTextOrNull v = true := by
  rcases Packaged.mem_entries h with h | ⟨p, -, h⟩ | ⟨ps, -, h⟩ | ⟨kind', m', decl, h⟩
  · cases h
  · cases h
  · cases h
  · obtain ⟨-, -, -, rfl⟩ := Entry.member.inj h
    rfl

theorem Documented.isTextOrNull_of_ownDeclaration? {s : Signatures} (h : s.Documented)
    {kind : MemberKind} {c m : Key} {v : Value} (hv : s.ownDeclaration? kind c m = some v) :
    isTextOrNull v = true := by
  have hempty : Signatures.empty.ownDeclaration? kind c m ≠ some v := by cases kind <;> nofun
  induction h with
  | empty => exact absurd hv hempty
  | packaged =>
    rcases ownDeclaration?_addAll hv with hv | hv
    · rcases ownDeclaration?_addAll hv with hv | hv
      · exact absurd hv hempty
      · obtain ⟨f, -, hf⟩ := List.mem_map.1 hv
        cases hf
    · obtain ⟨cs, -, hcs⟩ := List.mem_flatMap.1 hv
      exact Packaged.isTextOrNull_of_mem_entries hcs
  | merge _ hd ih =>
    rcases ownDeclaration?_addAll hv with hv | hv
    · exact ih hv
    · exact isTextOrNull_of_mem_read hd hv

variable {s : Signatures}

/-- The class, its parent, the parent of that and so on, counted from zero. -/
def above? (s : Signatures) : Nat → Key → Option Key
  | 0, c => some c
  | n + 1, c => (s.parents.get? c).bind (s.above? n)

theorem above?_of_getElem?_lineage {visited : List Key} {c d : Key} {n : Nat}
    (h : (s.lineage visited c)[n]? = some d) : s.above? n c = some d := by
  fun_induction lineage s visited c generalizing n with
  | case1 visited c _ => cases h
  | case2 visited c _ _ =>
    cases n with
    | zero => exact h
    | succ n => cases h
  | case3 visited c _ parent hp ih =>
    cases n with
    | zero => exact h
    | succ n =>
      rw [above?, hp]
      exact ih h

theorem not_mem_of_mem_lineage {visited : List Key} {c d : Key} (h : d ∈ s.lineage visited c) :
    d ∉ visited := by
  fun_induction lineage s visited c with
  | case1 visited c _ => cases h
  | case2 visited c hc _ =>
    obtain rfl := List.mem_singleton.1 h
    exact fun hv => hc (Or.inr hv)
  | case3 visited c hc parent hp ih =>
    rcases List.mem_cons.1 h with rfl | h
    · exact fun hv => hc (Or.inr hv)
    · exact fun hv => ih h (List.mem_cons_of_mem c hv)

theorem nodup_lineage (visited : List Key) (c : Key) : (s.lineage visited c).Nodup := by
  fun_induction lineage s visited c with
  | case1 visited c _ => exact List.nodup_nil
  | case2 visited c _ _ => exact List.nodup_singleton c
  | case3 visited c _ parent hp ih =>
    refine List.nodup_cons.2 ⟨fun hc => ?_, ih⟩
    exact not_mem_of_mem_lineage hc List.mem_cons_self

theorem mem_lineage_self {visited : List Key} {c : Key} (hc : c.text ≠ "") (hv : c ∉ visited) :
    c ∈ s.lineage visited c := by
  rw [lineage, dif_neg (not_or.2 ⟨hc, hv⟩)]
  split
  · exact List.mem_cons_self
  · exact List.mem_cons_self

/-- The walk leaves out a parent only if it came there before. -/
theorem Grounded.mem_lineage_parent (hs : s.Grounded) {visited : List Key} {c d p : Key}
    (hd : d ∈ s.lineage visited c) (hp : s.parents.get? d = some p) :
    p ∈ visited ∨ p ∈ s.lineage visited c := by
  fun_induction lineage s visited c with
  | case1 visited c _ => cases hd
  | case2 visited c _ hnone =>
    obtain rfl := List.mem_singleton.1 hd
    rw [hnone] at hp
    cases hp
  | case3 visited c hc parent hparent ih =>
    -- whatever the rest of the walk had seen at its start is `c` or was seen before
    have hrest (h : p ∈ c :: visited ∨ p ∈ s.lineage (c :: visited) parent) :
        p ∈ visited ∨ p ∈ c :: s.lineage (c :: visited) parent := by
      rcases h with h | h
      · rcases List.mem_cons.1 h with rfl | h
        · exact Or.inr List.mem_cons_self
        · exact Or.inl h
      · exact Or.inr (List.mem_cons_of_mem c h)
    rcases List.mem_cons.1 hd with rfl | hd
    · obtain rfl := Option.some.inj (hparent.symm.trans hp)
      by_cases hseen : parent ∈ d :: visited
      · exact hrest (Or.inl hseen)
      · exact hrest (Or.inr (mem_lineage_self (hs.named d parent hp) hseen))
    · exact hrest (ih hd)

/-- The walk meets every class of the line. -/
theorem Grounded.mem_lineage_of_above? (hs : s.Grounded) {c d : Key} (hc : c.text ≠ "") {n : Nat}
    (h : s.above? n c = some d) : d ∈ s.lineage [] c := by
  have hup {k : Nat} {e : Key} (he : e ∈ s.lineage [] c) (h : s.above? k e = some d) :
      d ∈ s.lineage [] c := by
    induction k generalizing e with
    | zero => exact Option.some.inj h ▸ he
    | succ k ih =>
      obtain ⟨p, hp, h⟩ := Option.bind_eq_some_iff.1 h
      exact ih ((hs.mem_lineage_parent he hp).resolve_left List.not_mem_nil) h
  exact hup (mem_lineage_self hc List.not_mem_nil) h

/-- What stands above a class in the line is reached by edges. -/
theorem transGen_of_above? {c d : Key} {n : Nat} (h : s.above? (n + 1) c = some d) :
    Relation.TransGen s.Extends c d := by
  induction n generalizing c with
  | zero =>
    obtain ⟨p, hp, h⟩ := Option.bind_eq_some_iff.1 h
    obtain rfl : p = d := Option.some.inj h
    exact .single (Or.inl (Table.mem_entries_of_get? hp))
  | succ n ih =>
    obtain ⟨p, hp, h⟩ := Option.bind_eq_some_iff.1 h
    exact .head (Or.inl (Table.mem_entries_of_get? hp)) (ih h)

/-- Among `c` and the classes above it, `d` is the first one that lists the member, with `v`. -/
def FirstLists (s : Signatures) (kind : MemberKind) (c m d : Key) (v : Value) : Prop :=
  ∃ n, s.above? n c = some d ∧ s.ownDeclaration? kind d m = some v ∧
    ∀ j < n, ∀ e, s.above? j c = some e → s.ownDeclaration? kind e m = none

/-- The type that a declaration stands for. -/
inductive StandsFor : Value → Option Ty → Prop
  | null : StandsFor .null none
  | empty : StandsFor (.text "") none
  | text {decl : String} (h : decl ≠ "") : StandsFor (.text decl) (some (Ty.ofTextOrMixed decl))

theorem standsFor_typeOf? {v : Value} (h : isTextOrNull v = true) : StandsFor v (typeOf? v) := by
  cases v with
  | null => exact .null
  | text decl =>
    by_cases hd : decl = ""
    · subst hd
      exact .empty
    · have hpresent : (Value.text decl).isPresent = true := by simpa [Value.isPresent] using hd
      rw [typeOf?, if_pos hpresent]
      exact .text hd
  | _ => cases h

theorem Grounded.findSome?_lineage (hs : s.Grounded) {kind : MemberKind} {c m d : Key} {v : Value}
    (hc : c.text ≠ "") (h : s.FirstLists kind c m d v) :
    ((s.lineage [] c).findSome? fun c => s.ownDeclaration? kind c m) = some v := by
  obtain ⟨n, hd, hv, hbefore⟩ := h
  cases hfound : (s.lineage [] c).findSome? fun c => s.ownDeclaration? kind c m with
  | none =>
    have hnone := List.findSome?_eq_none_iff.1 hfound d (hs.mem_lineage_of_above? hc hd)
    rw [hv] at hnone
    cases hnone
  | some w =>
    obtain ⟨front, e, rest, hline, hw, hfront⟩ := List.findSome?_eq_some_iff.1 hfound
    have hget : (s.lineage [] c)[front.length]? = some e := by simp [hline]
    have he := above?_of_getElem?_lineage hget
    -- the walk stops neither before nor behind the first class that lists the member
    rcases Nat.lt_trichotomy front.length n with hlt | heq | hgt
    · rw [hbefore _ hlt e he] at hw
      cases hw
    · obtain rfl : e = d := Option.some.inj (he.symm.trans (heq ▸ hd))
      exact hw.symm.trans hv
    · have hget : (s.lineage [] c)[n]? = some front[n] := by
        rw [hline, List.getElem?_append_left hgt, List.getElem?_eq_getElem hgt]
      obtain rfl : front[n] = d := Option.some.inj ((above?_of_getElem?_lineage hget).symm.trans hd)
      rw [hfront _ (List.getElem_mem hgt)] at hv
      cases hv

theorem findSome?_lineage_eq_none {kind : MemberKind} {c m : Key}
    (h : ∀ n d, s.above? n c = some d → s.ownDeclaration? kind d m = none) :
    ((s.lineage [] c).findSome? fun c => s.ownDeclaration? kind c m) = none := by
  refine List.findSome?_eq_none_iff.2 fun d hd => ?_
  obtain ⟨n, hn⟩ := List.getElem?_of_mem hd
  exact h n d (above?_of_getElem?_lineage hn)

/-- A class in the line that lists a member is an ancestor. -/
theorem Grounded.mem_ancestors_of_above? (hs : s.Grounded) {kind : MemberKind} {c m d : Key}
    {v : Value} {n : Nat} (hd : s.above? n c = some d) (hv : s.ownDeclaration? kind d m = some v) :
    d ∈ s.hierarchy.ancestors c := by
  rw [hs.mem_ancestors]
  cases n with
  | zero =>
    obtain rfl : c = d := Option.some.inj hd
    exact Or.inl ⟨rfl, hs.lists kind c m v hv⟩
  | succ n => exact Or.inr (transGen_of_above? hd)

/-- The walk for a member goes up the line of parents and enters no class twice. The first class of
the line that lists the member decides its type, and that class is an ancestor; where no class of
the line lists the member, there is no type. -/
theorem memberType_of_firstListing (hs : s.Documented) (kind : MemberKind) {c : String}
    (hc : c ≠ "") (m : String) :
    (s.lineage [] (Key.of c)).Nodup ∧
    (∀ n d, (s.lineage [] (Key.of c))[n]? = some d → s.above? n (Key.of c) = some d) ∧
    (∀ d v, s.FirstLists kind (Key.of c) (Key.of m) d v →
      StandsFor v (s.memberType? kind (Key.of c) (Key.of m)) ∧
        d ∈ s.hierarchy.ancestors (Key.of c)) ∧
    ((∀ n d, s.above? n (Key.of c) = some d → s.ownDeclaration? kind d (Key.of m) = none) →
      s.memberType? kind (Key.of c) (Key.of m) = none) := by
  have hg := hs.built.grounded
  have hname : (Key.of c).text ≠ "" := Text.lower_eq_empty_iff.not.2 hc
  refine ⟨nodup_lineage [] _, fun n d => above?_of_getElem?_lineage, fun d v h => ?_, fun h => ?_⟩
  · have htype : s.memberType? kind (Key.of c) (Key.of m) = typeOf? v := by
      rw [memberType?, hg.findSome?_lineage hname h, Option.bind_some]
    obtain ⟨n, hd, hv, -⟩ := h
    rw [htype]
    exact ⟨standsFor_typeOf? (hs.isTextOrNull_of_ownDeclaration? hv),
      hg.mem_ancestors_of_above? hd hv⟩
  · rw [memberType?, findSome?_lineage_eq_none h, Option.bind_none]

/-- Two documents close a circle of three parents. The first class hides a method of the second one.
-/
def circleStart : Value :=
  .record [("classes", .record
    [("Node", .record [("extends", .text "Tree"), ("methods", .record [("size", .null)])]),
     ("Tree", .record [("extends", .text "Leaf"), ("methods", .record [("Size", .text "int")])])])]

def circleEnd : Value :=
  .record [("classes", .record
    [("Leaf", .record [("extends", .text "NODE"), ("implements", .list [.text "Countable"]),
      ("methods", .record [("label", .text "string")])])])]

def circleSignatures : Signatures := ((Signatures.empty.merge circleStart).1.merge circleEnd).1

theorem circle_label :
    circleSignatures.FirstLists .method (Key.of "Node") (Key.of "LABEL") (Key.of "Leaf")
      (.text "string") := by
  refine ⟨2, rfl, rfl, fun j hj e he => ?_⟩
  obtain rfl | rfl : j = 0 ∨ j = 1 := by omega
  · obtain rfl : Key.of "Node" = e := Option.some.inj he
    rfl
  · have htree : circleSignatures.above? 1 (Key.of "Node") = some (Key.of "Tree") := rfl
    obtain rfl : Key.of "Tree" = e := Option.some.inj (htree.symm.trans he)
    rfl

theorem circle_size :
    circleSignatures.FirstLists .method (Key.of "Node") (Key.of "size") (Key.of "Node") .null :=
  ⟨0, rfl, rfl, fun _ hj => absurd hj (Nat.not_lt_zero _)⟩

/-- The far end of the circle lists one method, the class itself hides another one, and no class
lists a property. -/
theorem memberType_of_firstListing_circle :
    circleSignatures.Documented ∧
      circleSignatures.FirstLists .method (Key.of "Node") (Key.of "LABEL") (Key.of "Leaf")
        (.text "string") ∧
      StandsFor (.text "string")
        (circleSignatures.memberType? .method (Key.of "Node") (Key.of "LABEL")) ∧
      Key.of "Leaf" ∈ circleSignatures.hierarchy.ancestors (Key.of "Node") ∧
      circleSignatures.memberType? .method (Key.of "Node") (Key.of "size") = none ∧
      circleSignatures.memberType? .property (Key.of "Node") (Key.of "label") = none := by
  have hdoc : circleSignatures.Documented := .merge (.merge .empty rfl) rfl
  obtain ⟨-, -, hlabel, -⟩ :=
    memberType_of_firstListing hdoc .method (by decide : "Node" ≠ "") "LABEL"
  obtain ⟨-, -, hsize, -⟩ :=
    memberType_of_firstListing hdoc .method (by decide : "Node" ≠ "") "size"
  obtain ⟨-, -, -, hproperty⟩ :=
    memberType_of_firstListing hdoc .property (by decide : "Node" ≠ "") "label"
  obtain ⟨htype, hancestor⟩ := hlabel _ _ circle_label
  obtain ⟨hnull, -⟩ := hsize _ _ circle_size
  have hempty : circleSignatures.properties = .empty := rfl
  refine ⟨hdoc, circle_label, htype, hancestor, ?_, hproperty fun n d _ => ?_⟩
  · generalize circleSignatures.memberType? .method (Key.of "Node") (Key.of "size") = r at hnull
    cases hnull
    rfl
  · rw [ownDeclaration?, members, hempty]
    rfl

end Signatures

end TypeRecovery
