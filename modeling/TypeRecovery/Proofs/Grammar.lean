import Mathlib.Data.List.TakeWhile
import TypeRecovery.Declaration.Parser

/-!
# The grammar of declarations

Names are words of a grammar of their own: segments with backslashes between them and at most one in
front. A declaration is well-formed when every name in its tree is one. Parsing accepts exactly the
texts of well-formed declarations, and each of them has one tree.
-/
namespace TypeRecovery.Declaration

def IsSegment : List Char → Prop
  | [] => False
  | c :: cs => isNameStart c = true ∧ ∀ d ∈ cs, isNameChar d = true

instance : DecidablePred IsSegment
  | [] => isFalse id
  | c :: cs => decidable_of_iff ((isNameStart c && cs.all isNameChar) = true) (by simp [IsSegment])

/-- Segments with backslashes between them. -/
inductive IsPlainName : List Char → Prop
  | segment {seg : List Char} (h : IsSegment seg) : IsPlainName seg
  | cons {seg rest : List Char} (h : IsSegment seg) (hrest : IsPlainName rest) :
    IsPlainName (seg ++ '\\' :: rest)

/-- A plain name, or one behind a backslash. -/
inductive IsName : List Char → Prop
  | plain {cs : List Char} (h : IsPlainName cs) : IsName cs
  | rooted {cs : List Char} (h : IsPlainName cs) : IsName ('\\' :: cs)

mutual

/-- Every name in the tree is a name of the grammar. -/
def WellFormed : Declaration → Prop
  | nullable d => d.WellFormed
  | single o => o.WellFormed
  | joined o _ d => o.WellFormed ∧ d.WellFormed

def Operand.WellFormed : Operand → Prop
  | .mk a _ => a.WellFormed

def Atom.WellFormed : Atom → Prop
  | .group d => d.WellFormed
  | .name cs => IsName cs

end

/-- What was taken and what is left, without the proof that something was taken. -/
def taken {α : Type} {cs : List Char} (x : Option (α × Rest cs)) : Option (α × List Char) :=
  x.map fun (a, r) => (a, r.1)

/-- The text that is left does not go on with a name. -/
def EndsName (rest : List Char) : Prop := ∀ c ∈ rest.head?, isNameChar c = false ∧ c ≠ '\\'

theorem takeNameChars_eq (cs : List Char) :
    (takeNameChars cs).1 = cs.takeWhile isNameChar ∧
      (takeNameChars cs).2.1 = cs.dropWhile isNameChar := by
  induction cs with
  | nil => exact ⟨rfl, rfl⟩
  | cons c cs ih =>
    rw [takeNameChars]
    by_cases hc : isNameChar c = true
    · simp [hc, ih]
    · simp [hc, Tail.all]

theorem taken_takeSegment? (c : Char) (cs : List Char) :
    taken (takeSegment? (c :: cs)) =
      if isNameStart c then some (c :: cs.takeWhile isNameChar, cs.dropWhile isNameChar)
      else none := by
  obtain ⟨hfst, hsnd⟩ := takeNameChars_eq cs
  by_cases hc : isNameStart c = true
  · simp [taken, takeSegment?, hc, hfst, hsnd]
  · simp [taken, takeSegment?, hc]

theorem taken_takePlainName? (cs : List Char) :
    taken (takePlainName? cs) = (taken (takeSegment? cs)).map fun (seg, r) =>
      (seg ++ (takeSegments r).1, (takeSegments r).2.1) := by
  simp only [taken, takePlainName?, Option.map_map, Function.comp_def]

theorem takeSegments_backslash (cs : List Char) :
    ((takeSegments ('\\' :: cs)).1, (takeSegments ('\\' :: cs)).2.1) =
      ((taken (takePlainName? cs)).map fun (name, r) => ('\\' :: name, r)).getD
        ([], '\\' :: cs) := by
  rw [takeSegments, taken_takePlainName?]
  cases h : takeSegment? cs with
  | none => simp [taken, Tail.all]
  | some x => simp [taken]

theorem takeSegments_of_head? {cs : List Char} (h : cs.head? ≠ some '\\') :
    takeSegments cs = ([], Tail.all cs) := by
  rw [takeSegments.eq_def]
  split
  · simp at h
  · rfl

theorem takeName?_backslash (cs : List Char) :
    taken (takeName? ('\\' :: cs)) =
      (taken (takePlainName? cs)).map fun (name, r) => ('\\' :: name, r) := by
  simp only [taken, takeName?, Option.map_map, Function.comp_def]

theorem takeName?_of_head? {cs : List Char} (h : cs.head? ≠ some '\\') :
    takeName? cs = takePlainName? cs := by
  unfold takeName?
  split
  · simp at h
  · rfl

theorem isSegment_of_takeSegment? {cs seg r : List Char}
    (h : taken (takeSegment? cs) = some (seg, r)) : IsSegment seg ∧ seg ++ r = cs := by
  cases cs with
  | nil => simp [taken, takeSegment?] at h
  | cons c cs =>
    rw [taken_takeSegment?] at h
    split at h
    · rename_i hc
      simp only [Option.some.injEq, Prod.mk.injEq] at h
      obtain ⟨rfl, rfl⟩ := h
      refine ⟨⟨hc, fun d hd => List.mem_takeWhile_imp hd⟩, ?_⟩
      simp [List.takeWhile_append_dropWhile]
    · simp at h

/-- Further segments make a plain name behind a backslash. -/
theorem isPlainName_of_takeSegments (cs : List Char) :
    (takeSegments cs).1 ++ (takeSegments cs).2.1 = cs ∧
      ((takeSegments cs).1 = [] ∨ ∃ name, (takeSegments cs).1 = '\\' :: name ∧ IsPlainName name) := by
  fun_induction takeSegments cs with
  | case1 cs h => simp [Tail.all]
  | case2 cs seg r h more ih =>
    have htaken : taken (takeSegment? cs) = some (seg, r.1) := by simp [taken, h]
    obtain ⟨hseg, hcs⟩ := isSegment_of_takeSegment? htaken
    obtain ⟨happ, hmore⟩ := ih
    refine ⟨by simp [more, happ, hcs], Or.inr ⟨_, rfl, ?_⟩⟩
    rcases hmore with hnil | ⟨name, hname, hplain⟩
    · simpa [more, hnil] using IsPlainName.segment hseg
    · simpa [more, hname] using IsPlainName.cons hseg hplain
  | case3 cs h => simp [Tail.all]

theorem isPlainName_of_takePlainName? {cs name r : List Char}
    (h : taken (takePlainName? cs) = some (name, r)) : IsPlainName name ∧ name ++ r = cs := by
  rw [taken_takePlainName?] at h
  obtain ⟨⟨seg, r'⟩, hseg, heq⟩ := Option.map_eq_some_iff.1 h
  obtain ⟨hs, rfl⟩ := isSegment_of_takeSegment? hseg
  obtain ⟨rfl, rfl⟩ := Prod.mk.inj heq
  obtain ⟨happ, hmore⟩ := isPlainName_of_takeSegments r'
  refine ⟨?_, by rw [List.append_assoc, happ]⟩
  rcases hmore with hnil | ⟨name, hname, hplain⟩
  · simpa [hnil] using IsPlainName.segment hs
  · simpa [hname] using IsPlainName.cons hs hplain

theorem isName_of_takeName? {cs name r : List Char}
    (h : taken (takeName? cs) = some (name, r)) : IsName name ∧ name ++ r = cs := by
  by_cases hc : cs.head? = some '\\'
  · obtain ⟨cs, rfl⟩ := List.head?_eq_some_iff.1 hc
    rw [takeName?_backslash] at h
    obtain ⟨⟨n, r'⟩, hn, heq⟩ := Option.map_eq_some_iff.1 h
    obtain ⟨rfl, rfl⟩ := Prod.mk.inj heq
    obtain ⟨hplain, rfl⟩ := isPlainName_of_takePlainName? hn
    exact ⟨.rooted hplain, rfl⟩
  · rw [takeName?_of_head? hc] at h
    obtain ⟨hplain, happ⟩ := isPlainName_of_takePlainName? h
    exact ⟨.plain hplain, happ⟩

theorem takeSegment?_append {seg rest : List Char} (h : IsSegment seg)
    (hrest : ∀ c ∈ rest.head?, isNameChar c = false) :
    taken (takeSegment? (seg ++ rest)) = some (seg, rest) := by
  cases seg with
  | nil => exact h.elim
  | cons c cs =>
    obtain ⟨hc, hcs⟩ := h
    have hstop : rest.takeWhile isNameChar = [] ∧ rest.dropWhile isNameChar = rest := by
      cases rest with
      | nil => exact ⟨rfl, rfl⟩
      | cons d rest => simp [hrest d rfl]
    rw [List.cons_append, taken_takeSegment?, if_pos hc, List.takeWhile_append_of_pos hcs,
      List.dropWhile_append_of_pos hcs, hstop.1, hstop.2, List.append_nil]

theorem takePlainName?_append {name rest : List Char} (h : IsPlainName name)
    (hrest : EndsName rest) : taken (takePlainName? (name ++ rest)) = some (name, rest) := by
  induction h with
  | segment hseg =>
    have hhead : rest.head? ≠ some '\\' := fun hc => (hrest _ hc).2 rfl
    rw [taken_takePlainName?, takeSegment?_append hseg fun c hc => (hrest c hc).1]
    simp [takeSegments_of_head? hhead, Tail.all]
  | @cons seg more hseg hmore ih =>
    have hback : ((takeSegments ('\\' :: (more ++ rest))).1,
        (takeSegments ('\\' :: (more ++ rest))).2.1) = ('\\' :: more, rest) := by
      rw [takeSegments_backslash, ih]
      rfl
    obtain ⟨hfst, hsnd⟩ := Prod.mk.inj hback
    rw [List.append_assoc, List.cons_append, taken_takePlainName?,
      takeSegment?_append hseg (by simp; decide)]
    simp [hfst, hsnd]

theorem exists_of_isPlainName {name : List Char} (h : IsPlainName name) :
    ∃ c cs, name = c :: cs ∧ isNameStart c = true := by
  have segment {seg : List Char} (h : IsSegment seg) :
      ∃ c cs, seg = c :: cs ∧ isNameStart c = true := by
    cases seg with
    | nil => exact h.elim
    | cons c cs => exact ⟨c, cs, rfl, h.1⟩
  cases h with
  | segment h => exact segment h
  | cons h _ =>
    obtain ⟨c, cs, rfl, hc⟩ := segment h
    exact ⟨c, _, rfl, hc⟩

theorem exists_of_isName {name : List Char} (h : IsName name) :
    ∃ c cs, name = c :: cs ∧ (isNameStart c = true ∨ c = '\\') := by
  cases h with
  | plain h =>
    obtain ⟨c, cs, rfl, hc⟩ := exists_of_isPlainName h
    exact ⟨c, cs, rfl, Or.inl hc⟩
  | rooted h => exact ⟨_, _, rfl, Or.inr rfl⟩

theorem takeName?_append {name rest : List Char} (h : IsName name) (hrest : EndsName rest) :
    taken (takeName? (name ++ rest)) = some (name, rest) := by
  cases h with
  | plain h =>
    have hhead : (name ++ rest).head? ≠ some '\\' := by
      obtain ⟨c, cs, rfl, hc⟩ := exists_of_isPlainName h
      rintro heq
      obtain rfl : c = '\\' := by simpa using heq
      exact absurd hc (by decide)
    rw [takeName?_of_head? hhead, takePlainName?_append h hrest]
  | rooted h =>
    rw [List.cons_append, takeName?_backslash, takePlainName?_append h hrest]
    rfl

theorem takeSuffixes_eq (cs : List Char) :
    (List.replicate (takeSuffixes cs).1 ['[', ']']).flatten ++ (takeSuffixes cs).2.1 = cs := by
  fun_induction takeSuffixes cs with
  | case1 cs r ih => simp [r, List.replicate_succ, ih]
  | case2 cs h => rfl

theorem takeSuffixes_append (n : Nat) {rest : List Char} (h : rest.head? ≠ some '[') :
    (takeSuffixes ((List.replicate n ['[', ']']).flatten ++ rest)).1 = n ∧
      (takeSuffixes ((List.replicate n ['[', ']']).flatten ++ rest)).2.1 = rest := by
  induction n with
  | zero =>
    rw [List.replicate_zero, List.flatten_nil, List.nil_append, takeSuffixes.eq_def]
    split
    · simp at h
    · exact ⟨rfl, rfl⟩
  | succ n ih => simp [List.replicate_succ, takeSuffixes, ih]

theorem taken_atomAt_group (p : Nat) (cs : List Char) :
    taken (atomAt p ('(' :: cs)).found =
      match taken (parseAt (p + 1) cs).found with
      | some (d, ')' :: rest) => some (.group d, rest)
      | _ => none := by
  rw [atomAt]
  cases h : (parseAt (p + 1) cs).found with
  | none => simp [taken]
  | some x =>
    obtain ⟨d, r, hr⟩ := x
    simp only [taken, Option.map_some]
    split
    · simp_all
    · simp_all

theorem taken_atomAt_of_head? (p : Nat) {cs : List Char} (h : cs.head? ≠ some '(') :
    taken (atomAt p cs).found = (taken (takeName? cs)).map fun (name, r) => (.name name, r) := by
  rw [atomAt.eq_def]
  split
  · simp at h
  · simp only [taken, Option.map_map, Function.comp_def]

theorem taken_operandAt (p : Nat) (cs : List Char) :
    taken (operandAt p cs).found = (taken (atomAt p cs).found).map fun (a, r) =>
      (.mk a (takeSuffixes r).1, (takeSuffixes r).2.1) := by
  rw [operandAt]
  cases (atomAt p cs).found with
  | none => rfl
  | some x => rfl

theorem taken_parseAt_nullable (p : Nat) (cs : List Char) :
    taken (parseAt p ('?' :: cs)).found =
      (taken (parseAt (p + 1) cs).found).map fun (d, r) => (.nullable d, r) := by
  rw [parseAt]
  simp only [taken, Option.map_map, Function.comp_def]

/-- The declaration that starts with an operand, from the text behind the operand. -/
def startedBy (o : Operand) (p : Nat) (cs : List Char) : Declaration × List Char :=
  match cs with
  | [] => (.single o, [])
  | sign :: rest =>
    match combinator? sign with
    | none => (.single o, sign :: rest)
    | some c =>
      match taken (parseAt p rest).found with
      | none => (.single o, sign :: rest)
      | some (d, r) => (.joined o c d, r)

theorem taken_parseAt_of_head? (p : Nat) {cs : List Char} (h : cs.head? ≠ some '?') :
    taken (parseAt p cs).found = (taken (operandAt p cs).found).map fun (o, r) =>
      startedBy o (p + (cs.length - r.length) + 1) r := by
  rw [parseAt.eq_def]
  split
  · simp at h
  · simp only
    cases (operandAt p cs).found with
    | none => rfl
    | some x =>
      obtain ⟨o, r, hr⟩ := x
      cases r with
      | nil => rfl
      | cons sign rest =>
        simp only [taken, Option.map_some, startedBy]
        cases combinator? sign with
        | none => rfl
        | some c =>
          simp only
          cases (parseAt (p + (cs.length - (sign :: rest).length) + 1) rest).found with
          | none => rfl
          | some y => rfl

/-- Declarations found at the front of a text shorter than `n` are well-formed. -/
def SoundBelow (n : Nat) : Prop :=
  ∀ cs : List Char, cs.length < n → ∀ p d r, taken (parseAt p cs).found = some (d, r) →
    d.WellFormed ∧ d.chars ++ r = cs

theorem combinator?_eq_some {sign : Char} {c : Combinator} (h : combinator? sign = some c) :
    sign = c.glue := by
  unfold combinator? at h
  split at h
  · rename_i hsign
    obtain rfl : Combinator.union = c := by simpa using h
    exact beq_iff_eq.1 hsign
  · split at h
    · rename_i hsign
      obtain rfl : Combinator.intersection = c := by simpa using h
      exact beq_iff_eq.1 hsign
    · simp at h

@[simp]
theorem combinator?_glue (c : Combinator) : combinator? c.glue = some c := by
  cases c <;> rfl

section Soundness

variable {n p : Nat} {cs r : List Char}

theorem atomAt_sound (ih : SoundBelow n) (hn : cs.length ≤ n) {a : Atom}
    (h : taken (atomAt p cs).found = some (a, r)) : a.WellFormed ∧ a.chars ++ r = cs := by
  by_cases hc : cs.head? = some '('
  · obtain ⟨cs, rfl⟩ := List.head?_eq_some_iff.1 hc
    rw [taken_atomAt_group] at h
    split at h
    · rename_i d rest hd
      obtain ⟨rfl, rfl⟩ : Atom.group d = a ∧ rest = r := by simpa using h
      obtain ⟨hwf, happ⟩ := ih cs hn (p + 1) d _ hd
      exact ⟨hwf, by simp [Atom.chars, happ]⟩
    · simp at h
  · rw [taken_atomAt_of_head? p hc] at h
    obtain ⟨⟨name, r'⟩, hname, heq⟩ := Option.map_eq_some_iff.1 h
    obtain ⟨rfl, rfl⟩ := Prod.mk.inj heq
    exact isName_of_takeName? hname

theorem operandAt_sound (ih : SoundBelow n) (hn : cs.length ≤ n) {o : Operand}
    (h : taken (operandAt p cs).found = some (o, r)) : o.WellFormed ∧ o.chars ++ r = cs := by
  rw [taken_operandAt] at h
  obtain ⟨⟨a, r'⟩, ha, heq⟩ := Option.map_eq_some_iff.1 h
  obtain ⟨rfl, rfl⟩ := Prod.mk.inj heq
  obtain ⟨hwf, happ⟩ := atomAt_sound ih hn ha
  exact ⟨hwf, by rw [Operand.chars, List.append_assoc, takeSuffixes_eq, happ]⟩

theorem startedBy_sound (ih : SoundBelow n) (hn : cs.length ≤ n) {o : Operand} {d : Declaration}
    (ho : o.WellFormed) (h : startedBy o p cs = (d, r)) :
    d.WellFormed ∧ d.chars ++ r = o.chars ++ cs := by
  unfold startedBy at h
  split at h
  · obtain ⟨rfl, rfl⟩ := Prod.mk.inj h
    exact ⟨ho, rfl⟩
  · split at h
    · obtain ⟨rfl, rfl⟩ := Prod.mk.inj h
      exact ⟨ho, rfl⟩
    · rename_i sign rest _ c hsign
      split at h
      · obtain ⟨rfl, rfl⟩ := Prod.mk.inj h
        exact ⟨ho, rfl⟩
      · rename_i d' r' hd
        obtain ⟨rfl, rfl⟩ := Prod.mk.inj h
        obtain ⟨hwf, rfl⟩ := ih rest hn p d' r' hd
        refine ⟨⟨ho, hwf⟩, ?_⟩
        rw [combinator?_eq_some hsign, chars, List.append_assoc, List.cons_append]

theorem parseAt_sound (ih : SoundBelow n) (hn : cs.length ≤ n) {d : Declaration}
    (h : taken (parseAt p cs).found = some (d, r)) : d.WellFormed ∧ d.chars ++ r = cs := by
  by_cases hc : cs.head? = some '?'
  · obtain ⟨cs, rfl⟩ := List.head?_eq_some_iff.1 hc
    rw [taken_parseAt_nullable] at h
    obtain ⟨⟨d', r'⟩, hd, heq⟩ := Option.map_eq_some_iff.1 h
    obtain ⟨rfl, rfl⟩ := Prod.mk.inj heq
    obtain ⟨hwf, rfl⟩ := ih cs hn (p + 1) d' r' hd
    exact ⟨hwf, rfl⟩
  · rw [taken_parseAt_of_head? p hc] at h
    obtain ⟨⟨o, r'⟩, ho, heq⟩ := Option.map_eq_some_iff.1 h
    obtain ⟨hwf, rfl⟩ := operandAt_sound ih hn ho
    have hr : r'.length ≤ n := by
      rw [List.length_append] at hn
      omega
    exact startedBy_sound ih hr hwf heq

end Soundness

theorem soundBelow (n : Nat) : SoundBelow n := by
  induction n with
  | zero => exact fun cs h => absurd h (Nat.not_lt_zero _)
  | succ n ih => exact fun cs hn p d r h => parseAt_sound ih (Nat.le_of_lt_succ hn) h

theorem parse_eq_ok_iff_taken {cs : List Char} {d : Declaration} :
    parse cs = .ok d ↔ taken (parseAt 0 cs).found = some (d, []) := by
  simp only [parse]
  cases (parseAt 0 cs).found with
  | none => simp [taken]
  | some x =>
    obtain ⟨d', r, hr⟩ := x
    cases r with
    | nil => simp [taken]
    | cons c r => simp [taken]

-- a part of a declaration is found again when the text behind it does not go on with the part
section Completeness

variable {rest : List Char}

theorem startedBy_single (o : Operand) (p : Nat) (hrest : ∀ c ∈ rest.head?, c = ')') :
    startedBy o p rest = (.single o, rest) := by
  cases rest with
  | nil => rfl
  | cons c rest =>
    obtain rfl := hrest c rfl
    rfl

theorem startedBy_joined {o : Operand} {c : Combinator} {d : Declaration} {p : Nat}
    {cs : List Char} (h : taken (parseAt p cs).found = some (d, rest)) :
    startedBy o p (c.glue :: cs) = (.joined o c d, rest) := by
  simp [startedBy, h]

theorem endsName_of_head? (hrest : ∀ c ∈ rest.head?, c ∈ ['[', ')', '|', '&']) : EndsName rest := by
  intro c hc
  have hmem := hrest c hc
  simp only [List.mem_cons, List.not_mem_nil, or_false] at hmem
  rcases hmem with rfl | rfl | rfl | rfl <;> decide

/-- An operand starts with a parenthesis or with a name. -/
theorem head?_operand {o : Operand} (h : o.WellFormed) : (o.chars ++ rest).head? ≠ some '?' := by
  obtain ⟨a, n⟩ := o
  cases a with
  | group d => simp [Operand.chars, Atom.chars]
  | name name =>
    obtain ⟨c, cs, rfl, hc⟩ := exists_of_isName h
    rintro heq
    obtain rfl : c = '?' := by simpa [Operand.chars, Atom.chars] using heq
    exact absurd hc (by decide)

theorem taken_atomAt_append_name {name : List Char} (h : IsName name) (p : Nat)
    (hrest : EndsName rest) :
    taken (atomAt p (name ++ rest)).found = some (.name name, rest) := by
  have hhead : (name ++ rest).head? ≠ some '(' := by
    obtain ⟨c, cs, rfl, hc⟩ := exists_of_isName h
    rintro heq
    obtain rfl : c = '(' := by simpa using heq
    exact absurd hc (by decide)
  rw [taken_atomAt_of_head? p hhead, takeName?_append h hrest]
  rfl

theorem taken_operandAt_append {a : Atom} {p : Nat} (n : Nat)
    (hrest : ∀ c ∈ rest.head?, c ∈ [')', '|', '&'])
    (h : ∀ rest : List Char, (∀ c ∈ rest.head?, c ∈ ['[', ')', '|', '&']) →
      taken (atomAt p (a.chars ++ rest)).found = some (a, rest)) :
    taken (operandAt p ((Operand.mk a n).chars ++ rest)).found = some (.mk a n, rest) := by
  have hsuffixes : ∀ c ∈ ((List.replicate n ['[', ']']).flatten ++ rest).head?,
      c ∈ ['[', ')', '|', '&'] := by
    cases n with
    | zero => exact fun c hc => List.mem_cons_of_mem _ (hrest c hc)
    | succ n => simp [List.replicate_succ]
  have hne : rest.head? ≠ some '[' := fun heq => absurd (hrest _ heq) (by decide)
  obtain ⟨hfst, hsnd⟩ := takeSuffixes_append n hne
  rw [taken_operandAt, Operand.chars, List.append_assoc, h _ hsuffixes]
  simp [hfst, hsnd]

theorem taken_parseAt_append {d : Declaration} (h : d.WellFormed) (p : Nat)
    (hrest : ∀ c ∈ rest.head?, c = ')') :
    taken (parseAt p (d.chars ++ rest)).found = some (d, rest) := by
  refine chars.induct
    (fun d => d.WellFormed → ∀ (p : Nat) (rest : List Char), (∀ c ∈ rest.head?, c = ')') →
      taken (parseAt p (d.chars ++ rest)).found = some (d, rest))
    (fun o => o.WellFormed → ∀ (p : Nat) (rest : List Char), (∀ c ∈ rest.head?, c ∈ [')', '|', '&']) →
      taken (operandAt p (o.chars ++ rest)).found = some (o, rest))
    (fun a => a.WellFormed → ∀ (p : Nat) (rest : List Char),
      (∀ c ∈ rest.head?, c ∈ ['[', ')', '|', '&']) →
      taken (atomAt p (a.chars ++ rest)).found = some (a, rest))
    ?_ ?_ ?_ ?_ ?_ ?_ d h p rest hrest
  · intro d ih h p rest hrest
    rw [chars, List.cons_append, taken_parseAt_nullable, ih h (p + 1) rest hrest]
    rfl
  · intro o ih h p rest hrest
    have hmem : ∀ c ∈ rest.head?, c ∈ [')', '|', '&'] := by
      intro c hc
      simp [hrest c hc]
    rw [chars, taken_parseAt_of_head? p (head?_operand h), ih h p rest hmem]
    exact congrArg some (startedBy_single o _ hrest)
  · intro o c d iho ihd h p rest hrest
    have hmem : ∀ s ∈ (c.glue :: (d.chars ++ rest)).head?, s ∈ [')', '|', '&'] := by
      cases c <;> simp [Combinator.glue]
    rw [chars, List.append_assoc, List.cons_append, taken_parseAt_of_head? p (head?_operand h.1),
      iho h.1 p _ hmem]
    exact congrArg some (startedBy_joined (ihd h.2 _ rest hrest))
  · intro a n ih h p rest hrest
    exact taken_operandAt_append n hrest fun rest hrest => ih h p rest hrest
  · intro d ih h p rest hrest
    rw [Atom.chars, List.cons_append, List.append_assoc, List.singleton_append, taken_atomAt_group,
      ih h (p + 1) _ (by simp)]
    rfl
  · intro name h p rest hrest
    exact taken_atomAt_append_name h p (endsName_of_head? hrest)

end Completeness

/-- Parsing accepts the texts of well-formed declarations and nothing else, each with one tree. -/
theorem parse_eq_ok_iff {cs : List Char} {d : Declaration} :
    parse cs = .ok d ↔ d.WellFormed ∧ d.chars = cs := by
  rw [parse_eq_ok_iff_taken]
  constructor
  · intro h
    obtain ⟨hwf, happ⟩ := parseAt_sound (soundBelow cs.length) (Nat.le_refl _) h
    exact ⟨hwf, by rwa [List.append_nil] at happ⟩
  · rintro ⟨hwf, rfl⟩
    have h : taken (parseAt 0 (d.chars ++ [])).found = some (d, []) :=
      taken_parseAt_append hwf 0 (by simp)
    rwa [List.append_nil] at h

end TypeRecovery.Declaration
