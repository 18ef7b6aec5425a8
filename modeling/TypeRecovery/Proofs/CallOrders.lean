import TypeRecovery.Proofs.Undeclared

/-!
# The order of calls

Calls that declare names and record edges commute: in any order they make the same links. A closing
after them gives the same hierarchy, whatever the order of the calls and of its own turns, except
for pairs of names that are doubtful. For such a pair the closing decides by the order in which it
goes about it.
-/
namespace TypeRecovery.Hierarchy
open Relation

/-- Two hierarchies with the same links and the same declared names. -/
structure SameLinks (h h' : Hierarchy) : Prop where
  links : ∀ a b, b ∈ h.ancestors a ↔ b ∈ h'.ancestors a
  declared : ∀ k, k ∈ h.declared ↔ k ∈ h'.declared

/-- It is left open whether a closing puts `b` above `a`. A chain leads from `a` to `b`, but not by
way of a declared name just below `b`. Nothing is above `b`, so that `b` does not wait from the
start. No link to a name just below `b` is missing, and so none is added that would let `b` wait; but
some link is missing from whose upper end `b` will be reached. -/
structure Doubtful (h : Hierarchy) (a b : Key) : Prop where
  joined : Joined h a b
  uncertain : ¬ Certain h a b
  bare : ∀ c, c ∉ h.ancestors b
  linked : ∀ x y, b ∈ h.ancestors y → Joined h x y → y ∈ h.ancestors x
  missing : ∃ x y, Joined h x y ∧ y ∉ h.ancestors x ∧ Certain h y b

namespace SameLinks

variable {h h' : Hierarchy}

theorem symm (hl : SameLinks h h') : SameLinks h' h :=
  ⟨fun a b => (hl.links a b).symm, fun k => (hl.declared k).symm⟩

theorem joined_eq (hl : SameLinks h h') : Joined h = Joined h' := by
  unfold Joined
  congr 1
  funext a b
  exact propext (hl.links a b)

theorem certain_iff (hl : SameLinks h h') {a b : Key} : Certain h a b ↔ Certain h' a b := by
  simp only [Certain, hl.links, hl.declared, hl.joined_eq]

theorem doubtful (hl : SameLinks h h') {a b : Key} (hd : Doubtful h a b) : Doubtful h' a b := by
  obtain ⟨hjoined, huncertain, hbare, hlinked, hmissing⟩ := hd
  simp only [hl.joined_eq, hl.certain_iff, hl.links] at hjoined huncertain hbare hlinked hmissing
  exact ⟨hjoined, huncertain, hbare, hlinked, hmissing⟩

end SameLinks

/-- Every name with an entry has something above it. -/
def Filled (h : Hierarchy) : Prop := ∀ k ∈ h.above.keys, ∃ b, b ∈ h.ancestors k

/-- A name that waits in one closing and not in another is doubtful wherever they differ. -/
theorem doubtful_of_waits {h h' g g' : Hierarchy} {ks ks' : List Key} (hl : SameLinks h h')
    (hc : Coherent h) (hc' : Coherent h') (hf : Filled h) (hg : Closes h ks g)
    (hg' : Closes h' ks' g') {a b : Key} (hb : b ∈ ks) (hb' : b ∉ ks') (hjoined : Joined h a b)
    (huncertain : ¬ Certain h a b) : Doubtful h a b := by
  have hbare : ∀ c, c ∉ h.ancestors b := fun c hbc =>
    hb' (hg'.waits_of_mem_ancestors ((hl.links b c).1 hbc))
  refine ⟨hjoined, huncertain, hbare, fun x y hby hxy => ?_, ?_⟩
  · by_contra hnew
    rw [hl.links] at hby hnew
    exact hb' (hg'.waits_of_joined hc' (hl.joined_eq ▸ hxy) hnew hby)
  · refine hg.exists_new_of_waits hc hb fun hkey => ?_
    obtain ⟨c, hbc⟩ := hf b hkey
    exact hbare c hbc

theorem mem_ancestors_iff_or_doubtful {h h' g g' : Hierarchy} {ks ks' : List Key}
    (hl : SameLinks h h') (hc : Coherent h) (hc' : Coherent h') (hf : Filled h) (hf' : Filled h')
    (hg : Closes h ks g) (hg' : Closes h' ks' g') (a b : Key) :
    (b ∈ g.ancestors a ↔ b ∈ g'.ancestors a) ∨ Doubtful h a b := by
  by_cases hcertain : Certain h a b
  · have hmem := hg.mem_ancestors_of_certain hc hcertain
    have hmem' := hg'.mem_ancestors_of_certain hc' (hl.certain_iff.1 hcertain)
    exact Or.inl (iff_of_true hmem hmem')
  by_cases hjoined : Joined h a b
  · have hcertain' := mt hl.certain_iff.2 hcertain
    have hjoined' : Joined h' a b := hl.joined_eq ▸ hjoined
    by_cases hb : b ∈ ks <;> by_cases hb' : b ∈ ks'
    · exact Or.inl (iff_of_true ((hg.mem_ancestors_iff_joined hc hb).2 hjoined)
        ((hg'.mem_ancestors_iff_joined hc' hb').2 hjoined'))
    · exact Or.inr (doubtful_of_waits hl hc hc' hf hg hg' hb hb' hjoined hcertain)
    · exact Or.inr (hl.symm.doubtful
        (doubtful_of_waits hl.symm hc' hc hf' hg' hg hb' hb hjoined' hcertain'))
    · exact Or.inl (iff_of_false (mt (hg.mem_ancestors_iff_certain hc hb).1 hcertain)
        (mt (hg'.mem_ancestors_iff_certain hc' hb').1 hcertain'))
  · exact Or.inl (iff_of_false (mt (hg.joined hc) hjoined)
      fun hab => hjoined (hl.joined_eq ▸ hg'.joined hc' hab))

theorem Filled.declare {h : Hierarchy} (hf : Filled h) (k : Key) : Filled (h.declare k) := by
  intro x hx
  rcases Table.mem_keys_alter.1 hx with hx | rfl
  · obtain ⟨b, hb⟩ := hf x hx
    exact ⟨b, mem_ancestors_declare.2 (Or.inl hb)⟩
  · exact ⟨x, mem_ancestors_declare.2 (Or.inr ⟨rfl, rfl⟩)⟩

theorem Filled.link {h : Hierarchy} (hf : Filled h) (child parent : Key) :
    Filled (h.link child parent) := by
  intro x hx
  by_cases hold : parent ∈ h.ancestors child
  · rw [Hierarchy.link, if_pos hold] at hx ⊢
    exact hf x hx
  · rw [Hierarchy.link, if_neg hold] at hx
    rcases Table.mem_keys_alter.1 hx with hx | rfl
    · obtain ⟨b, hb⟩ := hf x hx
      exact ⟨b, mem_ancestors_link.2 (Or.inl hb)⟩
    · exact ⟨parent, mem_ancestors_link.2 (Or.inr ⟨rfl, rfl⟩)⟩

theorem Filled.linkAll {h : Hierarchy} (hf : Filled h) (child : Key) (ps : List Key) :
    Filled (h.linkAll child ps) := by
  induction ps generalizing h with
  | nil => exact hf
  | cons p ps ih => exact ih (hf.link child p)

theorem Filled.apply {h : Hierarchy} (hf : Filled h) {e : Edit} (he : e ≠ .close) :
    Filled (e.apply h) := by
  cases e with
  | declare name => exact hf.declare _
  | edge child parent => exact hf.link _ _
  | edges child parents => exact hf.linkAll _ _
  | close => exact absurd rfl he

theorem Filled.run {h : Hierarchy} (hf : Filled h) {es : List Edit} (hno : Edit.close ∉ es) :
    Filled (Edit.run h es) := by
  induction es generalizing h with
  | nil => exact hf
  | cons e es ih =>
    rw [List.mem_cons, not_or] at hno
    exact ih (hf.apply (Ne.symm hno.1)) hno.2

/-- Without a closing there is a link where an edge is recorded, and from every declared name to
itself. -/
theorem mem_ancestors_run {h : Hierarchy} {es : List Edit} (hno : Edit.close ∉ es) {a b : Key} :
    b ∈ (Edit.run h es).ancestors a ↔
      b ∈ h.ancestors a ∨ Recorded es a b ∨ (a = b ∧ Declares es a) := by
  induction es generalizing h with
  | nil => simp [Edit.run, Recorded, Declares]
  | cons e es ih =>
    rw [List.mem_cons, not_or] at hno
    have hrecorded : Recorded (e :: es) a b ↔ (a, b) ∈ e.recorded ∨ Recorded es a b := by
      simp [Recorded]
    have hdeclares : Declares (e :: es) a ↔ a ∈ e.declared ∨ Declares es a := by
      simp [Declares]
    have hrun : Edit.run h (e :: es) = Edit.run (e.apply h) es := rfl
    rw [hrun, ih hno.2, mem_ancestors_apply (Ne.symm hno.1), hrecorded, hdeclares]
    tauto

theorem sameLinks_of_perm {es es' : List Edit} (hp : es.Perm es') (hno : Edit.close ∉ es) :
    SameLinks (Edit.run .empty es) (Edit.run .empty es') := by
  have hno' : Edit.close ∉ es' := fun hc => hno (hp.mem_iff.2 hc)
  have hrecorded (a b : Key) : Recorded es a b ↔ Recorded es' a b := by
    simp only [Recorded, hp.mem_iff]
  have hdeclares (a : Key) : Declares es a ↔ Declares es' a := by
    simp only [Declares, hp.mem_iff]
  refine ⟨fun a b => ?_, fun k => ?_⟩
  · rw [mem_ancestors_run hno, mem_ancestors_run hno', hrecorded, hdeclares]
  · have hr := reflects_nil.run es
    have hr' := reflects_nil.run es'
    rw [List.nil_append] at hr hr'
    rw [hr.declared, hr'.declared, hdeclares]

/-- A doubtful name stands just above one that is not declared, at the upper end of the chain. -/
theorem Doubtful.exists_undeclared {es : List Edit} {h : Hierarchy} (hr : Reflects es h) {a b : Key}
    (hd : Doubtful h a b) :
    ∃ c, ¬ Declares es c ∧ TransGen (Recorded es) a c ∧ b ∈ h.ancestors c := by
  obtain ⟨c, hac, hcb⟩ := TransGen.tail'_iff.1 hd.joined
  have hac : Joined h a c := by
    rcases reflTransGen_iff_eq_or_transGen.1 hac with rfl | hac
    · exact absurd (Or.inl hcb) hd.uncertain
    · exact hac
  have hc : ¬ Declares es c := fun hc =>
    hd.uncertain (Or.inr ⟨c, (hr.declared c).2 hc, hac, hcb⟩)
  rcases hr.leads_of_joined hac with ⟨rfl, ha⟩ | hac
  · exact absurd ha hc
  · exact ⟨c, hc, hac, hcb⟩

/-- After the same calls in another order, a closing with its turns in any order puts the same names
above and below each other, except for doubtful pairs. Of those, the upper name has an edge from a
name that is not declared. -/
theorem closings_of_perm {es es' : List Edit} (hp : es.Perm es') (hno : Edit.close ∉ es)
    {ks ks' : List Key} {g g' : Hierarchy} (hg : Closes (Edit.run .empty es) ks g)
    (hg' : Closes (Edit.run .empty es') ks' g') (a b : Key) :
    ((b ∈ g.ancestors a ↔ b ∈ g'.ancestors a) ∧ (a ∈ g.descendants b ↔ a ∈ g'.descendants b)) ∨
      (Doubtful (Edit.run .empty es) a b ∧
        ∃ c, ¬ Declares es c ∧ TransGen (Recorded es) a c ∧ Recorded es c b) := by
  have hno' : Edit.close ∉ es' := fun hc => hno (hp.mem_iff.2 hc)
  have hempty : Filled .empty := fun _ hk => absurd hk List.not_mem_nil
  have hr : Reflects es (Edit.run .empty es) := reflects_nil.run es
  have hr' : Reflects es' (Edit.run .empty es') := reflects_nil.run es'
  rcases mem_ancestors_iff_or_doubtful (sameLinks_of_perm hp hno) hr.coherent hr'.coherent
    (hempty.run hno) (hempty.run hno') hg hg' a b with hsame | hd
  · refine Or.inl ⟨hsame, ?_⟩
    rw [← (hr.closes hg).coherent.inverse, ← (hr'.closes hg').coherent.inverse]
    exact hsame
  · obtain ⟨c, hc, hac, hcb⟩ := hd.exists_undeclared hr
    refine Or.inr ⟨hd, c, hc, hac, ?_⟩
    rcases (mem_ancestors_run hno).1 hcb with hold | hedge | ⟨rfl, hself⟩
    · exact absurd hold List.not_mem_nil
    · exact hedge
    · exact absurd hself hc

/-- Two declared names in a circle, and an undeclared one above it. -/
def circleCalls : List Edit :=
  [.declare "A", .declare "B", .edge "A" "B", .edge "B" "A", .edge "A" "Top"]

/-- A chain of undeclared names that ends in the same one. -/
def chainCalls : List Edit := [.edge "Low" "Mid", .edge "Mid" "Top"]

/-- The calls with an edge from below the circle, recorded after it or first of all. -/
def subLate : List Edit := circleCalls ++ .edge "Sub" "A" :: chainCalls
def subEarly : List Edit := .edge "Sub" "A" :: (circleCalls ++ chainCalls)

theorem closings_of_perm_sub :
    subLate.Perm subEarly ∧ Edit.close ∉ subLate ∧
      (Key.of "Top" ∈ (Edit.run .empty subLate).close.ancestors (Key.of "Sub") ↔
        Key.of "Top" ∈ (Edit.run .empty subEarly).close.ancestors (Key.of "Sub")) := by
  have hp : subLate.Perm subEarly := List.perm_middle
  have hno : Edit.close ∉ subLate := by simp [subLate, circleCalls, chainCalls]
  obtain ⟨ks, hg⟩ := exists_closes_close (Edit.run .empty subLate)
  obtain ⟨ks', hg'⟩ := exists_closes_close (Edit.run .empty subEarly)
  refine ⟨hp, hno, ?_⟩
  rcases closings_of_perm hp hno hg hg' (Key.of "Sub") (Key.of "Top") with hsame | ⟨hd, -⟩
  · exact hsame.1
  · -- the circle is declared, so the pair is not doubtful
    have hr : Reflects subLate (Edit.run .empty subLate) := reflects_nil.run subLate
    have hdeclared : Declares subLate (Key.of "A") := by decide
    have hsub : Recorded subLate (Key.of "Sub") (Key.of "A") := by decide
    have htop : Recorded subLate (Key.of "A") (Key.of "Top") := by decide
    exact absurd (hr.certain (Or.inr ⟨_, hdeclared, .single hsub, htop⟩)) hd.uncertain

/-- The order of calls can decide what is above a name. When the edge from below the circle is
recorded late, `Top` comes above `B` before `B` comes above `Sub`, and the second link lets `Top`
wait. -/
theorem close_order_matters :
    subLate.Perm subEarly ∧ Edit.close ∉ subLate ∧
      (Edit.run .empty subLate).close.ancestors (Key.of "Low") = [Key.of "Mid", Key.of "Top"] ∧
      (Edit.run .empty subEarly).close.ancestors (Key.of "Low") = [Key.of "Mid"] := by
  have hno : Edit.close ∉ subLate := by simp [subLate, circleCalls, chainCalls]
  refine ⟨List.perm_middle, hno, ?_, ?_⟩
  · rw [close_eq_of_turns 20 (by decide +kernel)]
    decide +kernel
  · rw [close_eq_of_turns 20 (by decide +kernel)]
    decide +kernel

end TypeRecovery.Hierarchy
