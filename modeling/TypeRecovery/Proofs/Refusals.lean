import TypeRecovery.Proofs.RoundTrip

/-!
# Columns of refusals

A text that is no declaration is refused with a column. Everything in front of that column can go on
to a declaration, so the column never lies behind the first character at which the text goes wrong.
The parser notes places in alternatives that it gives up and in ones that succeed. Each of them is
reached over a text behind which a declaration may stand, or behind an operand of one.
-/
namespace TypeRecovery

namespace Declaration

/-- The text goes on to the text of a declaration. -/
def Viable (cs : List Char) : Prop := ∃ d : Declaration, d.WellFormed ∧ cs <+: d.chars

theorem Viable.of_isPrefix {cs ds : List Char} (h : Viable ds) (hcs : cs <+: ds) : Viable cs := by
  obtain ⟨d, hd, hds⟩ := h
  exact ⟨d, hd, hcs.trans hds⟩

/-- Behind the text any declaration may stand, and something that completes it. -/
def Opening (pre : List Char) : Prop :=
  ∀ d : Declaration, d.WellFormed → ∃ e : Declaration, e.WellFormed ∧ pre ++ d.chars <+: e.chars

namespace Opening

theorem nil : Opening [] := fun d hd => ⟨d, hd, List.prefix_rfl⟩

variable {pre : List Char} (h : Opening pre)
include h

theorem nullable : Opening (pre ++ ['?']) := by
  intro d hd
  obtain ⟨e, he, hpre⟩ := h (.nullable d) hd
  exact ⟨e, he, by simpa [chars] using hpre⟩

theorem group : Opening (pre ++ ['(']) := by
  intro d hd
  obtain ⟨e, he, hpre⟩ := h (.single (.mk (.group d) 0)) hd
  refine ⟨e, he, List.IsPrefix.trans ?_ hpre⟩
  simp [chars, Operand.chars, Atom.chars]

theorem joined {o : Operand} (ho : o.WellFormed) (c : Combinator) :
    Opening (pre ++ o.chars ++ [c.glue]) := by
  intro d hd
  obtain ⟨e, he, hpre⟩ := h (.joined o c d) ⟨ho, hd⟩
  exact ⟨e, he, by simpa [chars] using hpre⟩

theorem viable_operand {o : Operand} (ho : o.WellFormed) : Viable (pre ++ o.chars) :=
  h (.single o) ho

end Opening

/-- A place in the text that was reached over a text that goes on to a declaration. -/
structure Reached (text : List Char) (k : Nat) : Prop where
  le : k ≤ text.length
  viable : Viable (text.take k)

theorem Reached.max {text : List Char} {k l : Nat} (hk : Reached text k) (hl : Reached text l) :
    Reached text (max k l) := by
  rcases Nat.le_total k l with hle | hle
  · rwa [Nat.max_eq_right hle]
  · rwa [Nat.max_eq_left hle]

theorem reached_append {front : List Char} (h : Viable front) (rest : List Char) :
    Reached (front ++ rest) front.length :=
  ⟨by simp, by simpa using h⟩

theorem Opening.viable {pre : List Char} (h : Opening pre) : Viable pre := by
  have hname : (Operand.mk (.name ['a']) 0).WellFormed := IsName.plain (.segment (by decide))
  exact (h.viable_operand hname).of_isPrefix (List.prefix_append pre _)

theorem Opening.reached {pre : List Char} (h : Opening pre) (cs : List Char) :
    Reached (pre ++ cs) pre.length := reached_append h.viable cs

/-- The place behind an operand. -/
theorem Opening.reached_operand {pre cs r : List Char} (h : Opening pre) {o : Operand}
    (ho : o.WellFormed) (hcs : o.chars ++ r = cs) :
    Reached (pre ++ cs) (pre.length + (cs.length - r.length)) := by
  have hreached := reached_append (h.viable_operand ho) r
  have hlength : cs.length - r.length = o.chars.length := by
    rw [← hcs, List.length_append]
    omega
  rwa [List.append_assoc, hcs, List.length_append, ← hlength] at hreached

/-- What is noted while a text shorter than `n` is parsed is reached. -/
def ReachedBelow (n : Nat) : Prop :=
  ∀ cs : List Char, cs.length < n → ∀ pre, Opening pre →
    Reached (pre ++ cs) (parseAt pre.length cs).furthest

section

variable {n : Nat} {pre cs : List Char}

theorem reached_atomAt (ih : ReachedBelow n) (hn : cs.length ≤ n) (hpre : Opening pre) :
    Reached (pre ++ cs) (atomAt pre.length cs).furthest := by
  have hstart := hpre.reached cs
  by_cases hc : cs.head? = some '('
  · obtain ⟨cs, rfl⟩ := List.head?_eq_some_iff.1 hc
    have hinner : Reached (pre ++ '(' :: cs) (parseAt (pre.length + 1) cs).furthest := by
      have hgroup := ih cs hn (pre ++ ['(']) hpre.group
      rwa [List.append_assoc, List.length_append] at hgroup
    rw [atomAt]
    cases hd : (parseAt (pre.length + 1) cs).found with
    | none => exact hstart.max hinner
    | some x =>
      obtain ⟨d, r, hr⟩ := x
      simp only
      split
      · exact hinner
      · exact hstart.max hinner
  · rw [atomAt.eq_def]
    split
    · simp at hc
    · exact hstart

theorem reached_operandAt (ih : ReachedBelow n) (hn : cs.length ≤ n) (hpre : Opening pre) :
    Reached (pre ++ cs) (operandAt pre.length cs).furthest := by
  have hstart := hpre.reached cs
  have hatom := reached_atomAt ih hn hpre
  have hsound := @operandAt_sound cs.length pre.length cs
  have htaken := taken_operandAt pre.length cs
  rw [operandAt]
  cases ha : (atomAt pre.length cs).found with
  | none => exact hstart.max hatom
  | some x =>
    obtain ⟨a, r, hr⟩ := x
    rw [ha] at htaken
    obtain ⟨hwf, happ⟩ := hsound (soundBelow _) (Nat.le_refl _) htaken
    have hbehind := hpre.reached_operand hwf happ
    have hsuffixes : Reached (pre ++ cs) (if (takeSuffixes r).2.1.isEmpty then
        (atomAt pre.length cs).furthest else max (atomAt pre.length cs).furthest
          (pre.length + (cs.length - (takeSuffixes r).2.1.length))) := by
      split
      · exact hatom
      · exact hatom.max hbehind
    simp only
    split
    · exact hsuffixes.max hstart
    · exact hsuffixes

theorem reached_parseAt (ih : ReachedBelow n) (hn : cs.length ≤ n) (hpre : Opening pre) :
    Reached (pre ++ cs) (parseAt pre.length cs).furthest := by
  have hstart := hpre.reached cs
  by_cases hc : cs.head? = some '?'
  · obtain ⟨cs, rfl⟩ := List.head?_eq_some_iff.1 hc
    have hinner := ih cs hn (pre ++ ['?']) hpre.nullable
    rw [List.append_assoc, List.length_append] at hinner
    rw [parseAt]
    exact hstart.max hinner
  · have hleft := hstart.max (reached_operandAt ih hn hpre)
    rw [parseAt.eq_def]
    split
    · simp at hc
    · simp only
      cases ho : (operandAt pre.length cs).found with
      | none => exact hleft
      | some x =>
        obtain ⟨o, r, hr⟩ := x
        have htaken : taken (operandAt pre.length cs).found = some (o, r) := by
          rw [ho]
          rfl
        obtain ⟨hwf, happ⟩ := operandAt_sound (soundBelow _) (Nat.le_refl _) htaken
        have hbehind := hpre.reached_operand hwf happ
        cases r with
        | nil => exact hleft
        | cons sign rest =>
          simp only
          cases hsign : combinator? sign with
          | none => exact hleft.max hbehind
          | some c =>
            obtain rfl := combinator?_eq_some hsign
            have hshort : rest.length < n :=
              Nat.lt_of_lt_of_le (Nat.lt_of_succ_lt hr) hn
            have hplace : (pre ++ o.chars ++ [c.glue]).length =
                pre.length + (cs.length - (c.glue :: rest).length) + 1 := by
              rw [← happ]
              simp only [List.length_append, List.length_cons, List.length_nil]
              omega
            have hright := ih rest hshort (pre ++ o.chars ++ [c.glue]) (hpre.joined hwf c)
            rw [hplace, List.append_assoc, List.append_assoc, List.singleton_append, happ] at hright
            simp only
            split
            · exact hleft.max hright
            · exact hleft.max hright

end

theorem reachedBelow (n : Nat) : ReachedBelow n := by
  induction n with
  | zero => exact fun cs h => absurd h (Nat.not_lt_zero _)
  | succ n ih => exact fun cs hn pre hpre => reached_parseAt ih (Nat.le_of_lt_succ hn) hpre

/-- The column of a refusal is one behind a place that was reached. -/
theorem reached_of_parse_error {cs : List Char} {n : Nat} (h : parse cs = .error n) :
    1 ≤ n ∧ Reached cs (n - 1) := by
  have hfurthest : Reached cs (parseAt 0 cs).furthest :=
    reached_parseAt (reachedBelow cs.length) (Nat.le_refl _) Opening.nil
  simp only [parse] at h
  cases hd : (parseAt 0 cs).found with
  | none =>
    simp only [hd, Except.error.injEq] at h
    subst h
    exact ⟨by omega, hfurthest⟩
  | some x =>
    obtain ⟨d, r, hr⟩ := x
    have htaken : taken (parseAt 0 cs).found = some (d, r) := by
      rw [hd]
      rfl
    obtain ⟨hwf, rfl⟩ := parseAt_sound (soundBelow _) (Nat.le_refl _) htaken
    simp only [hd] at h
    split at h
    · cases h
    · have hlength : n - 1 = d.chars.length := by
        rw [← Except.error.inj h, List.length_append]
        omega
      rw [hlength]
      exact ⟨by rw [← Except.error.inj h]; omega, reached_append ⟨d, hwf, List.prefix_rfl⟩ r⟩

namespace Refusal

theorem message_unexpected (n : Nat) :
    (unexpected n).message = "unexpected input at column " ++ toString n := rfl

/-- The message tells the column. -/
theorem eq_unexpected {r : Refusal} {n : Nat} (h : r.message = (unexpected n).message) :
    r = unexpected n := by
  rw [message_unexpected] at h
  cases r with
  | unexpected m =>
    rw [message_unexpected] at h
    have htext : toString m = toString n := (String.append_right_inj _).1 h
    have hnumber := congrArg (fun s => Nat.ofDigitChars 10 s.toList 0) htext
    simp only [Nat.toString_eq_repr, Nat.toList_repr, Nat.ofDigitChars_ten_toDigits] at hnumber
    rw [hnumber]
  | _ =>
    have hlist := congrArg String.toList h
    rw [String.toList_append] at hlist
    cases congrArg List.head? hlist

end Refusal

/-- The declaration with one more operand joined at its end. -/
def extended : Declaration → Declaration
  | .nullable d => .nullable d.extended
  | .single o => .joined o .union (.single (.mk (.name ['a']) 0))
  | .joined o c d => .joined o c d.extended

theorem chars_extended (d : Declaration) : d.extended.chars = d.chars ++ ['|', 'a'] := by
  fun_induction extended d with
  | case1 d ih => rw [chars, ih, chars, List.cons_append]
  | case2 o => simp [chars, Operand.chars, Atom.chars, Combinator.glue]
  | case3 o c d ih => rw [chars, ih, chars, List.append_assoc, List.cons_append]

theorem wellFormed_extended {d : Declaration} (h : d.WellFormed) : d.extended.WellFormed := by
  fun_induction extended d with
  | case1 d ih => exact ih h
  | case2 o => exact ⟨h, IsName.plain (.segment (by decide))⟩
  | case3 o c d ih => exact ⟨h.1, ih h.2⟩

end Declaration

namespace Ty

open Declaration

/-- The text goes on to a text that is read as a type, one with no blanks to drop. -/
def GoesOn (cs : List Char) : Prop :=
  ∃ s t, ofText s = .ok t ∧ Text.trim s.toList = s.toList ∧ cs <+: s.toList

theorem goesOn_of_chars {d : Declaration} (hwf : d.WellFormed)
    (hfirst : ∀ c ∈ d.chars.head?, Text.isBlank c = false) : GoesOn d.chars := by
  have hchars := chars_extended d
  have htrim : Text.trim d.extended.chars = d.extended.chars := by
    refine Text.trim_of_ends (fun c hc => ?_) (fun c hc => ?_)
    · rw [hchars, List.head?_append] at hc
      cases hd : d.chars.head? with
      | some c' => exact hfirst c (by simpa [hd] using hc)
      | none =>
        obtain rfl : '|' = c := by simpa [hd] using hc
        decide
    · obtain rfl : 'a' = c := by simpa [hchars] using hc
      decide
  refine ⟨String.ofList d.extended.chars, d.extended.meaning.simplify, ?_, ?_, ?_⟩
  · rw [ofText_eq_ok_iff, String.toList_ofList, htrim]
    exact ofTrimmed_eq_ok_iff.2 ⟨_, wellFormed_extended hwf, rfl, rfl⟩
  · rw [String.toList_ofList, htrim]
  · rw [String.toList_ofList, hchars]
    exact List.prefix_append _ _

theorem GoesOn.of_isPrefix {cs ds : List Char} (h : GoesOn ds) (hcs : cs <+: ds) : GoesOn cs := by
  obtain ⟨s, t, hs, htrim, hds⟩ := h
  exact ⟨s, t, hs, htrim, hcs.trans hds⟩

theorem goesOn_of_viable {cs : List Char} (h : Viable cs)
    (hfirst : ∀ c ∈ cs.head?, Text.isBlank c = false) : GoesOn cs := by
  cases cs with
  | nil =>
    have hname : (Declaration.single (.mk (.name ['a']) 0)).WellFormed :=
      IsName.plain (.segment (by decide))
    have hblank : Text.isBlank 'a' = false := by decide
    have hfirst : ∀ c ∈ (Declaration.single (.mk (.name ['a']) 0)).chars.head?,
        Text.isBlank c = false := by
      simpa [Declaration.chars, Operand.chars, Atom.chars] using hblank
    exact (goesOn_of_chars hname hfirst).of_isPrefix List.nil_prefix
  | cons c cs =>
    obtain ⟨d, hwf, rest, hrest⟩ := h
    refine (goesOn_of_chars hwf ?_).of_isPrefix ⟨rest, hrest⟩
    rw [← hrest]
    exact hfirst

theorem parse_of_refusal {s : String} {v : Value} {n : Nat}
    (h : ofText s = .error (.invalidDeclaration v (Refusal.unexpected n).message)) :
    parse (Text.trim s.toList) = .error n := by
  rw [ofText] at h
  split at h
  · have hmessage := (Problem.invalidDeclaration.inj (Except.error.inj h)).2
    cases Refusal.eq_unexpected hmessage
  · rw [ofTrimmed] at h
    cases hp : parse (Text.trim s.toList) with
    | ok d =>
      rw [hp] at h
      cases h
    | error m =>
      rw [hp] at h
      have hmessage := (Problem.invalidDeclaration.inj (Except.error.inj h)).2
      cases Refusal.eq_unexpected hmessage
      rfl

/-- A refused text goes on to a declaration up to the reported column. So the column lies in the
text or right behind it, and not behind the first character that no declaration has there. -/
theorem column_of_refusal {s : String} {v : Value} {n : Nat}
    (h : ofText s = .error (.invalidDeclaration v (Refusal.unexpected n).message)) :
    1 ≤ n ∧ n ≤ (Text.trim s.toList).length + 1 ∧ GoesOn ((Text.trim s.toList).take (n - 1)) ∧
      ∀ k, ¬GoesOn ((Text.trim s.toList).take k) → n ≤ k := by
  obtain ⟨hone, hreached⟩ := reached_of_parse_error (parse_of_refusal h)
  have hle := hreached.le
  have hfront : GoesOn ((Text.trim s.toList).take (n - 1)) := by
    refine goesOn_of_viable hreached.viable fun c hc => Text.isBlank_head?_trim s.toList c ?_
    rw [List.head?_take] at hc
    split at hc
    · cases hc
    · exact hc
  refine ⟨hone, by omega, hfront, fun k hk => ?_⟩
  by_contra hlt
  exact hk (hfront.of_isPrefix (List.take_prefix_take_left (by omega)))

/-- The second bracket of a pair is missing, deep inside of a text with blanks around it. -/
theorem column_of_missing_bracket :
    ofText " (A|?B[) " =
        .error (.invalidDeclaration (.text "(A|?B[)") (Refusal.unexpected 6).message) ∧
      GoesOn "(A|?B".toList ∧ ∀ k, ¬GoesOn ("(A|?B[)".toList.take k) → 6 ≤ k := by
  have htrim : Text.trim " (A|?B[) ".toList = "(A|?B[)".toList := by decide
  have hparse : parse "(A|?B[)".toList = .error 6 := by
    have hlist : "(A|?B[)".toList = ['(', 'A', '|', '?', 'B', '[', ')'] := by decide
    have hA : isNameStart 'A' = true := by decide
    have hB : isNameStart 'B' = true := by decide
    have hbar : isNameChar '|' = false := by decide
    have hbracket : isNameChar '[' = false := by decide
    rw [hlist]
    simp [parse, parseAt, operandAt, atomAt, takeName?, takePlainName?, takeSegment?, takeNameChars,
      takeSegments, hA, hB, hbar, hbracket, takeSuffixes, Tail.all, combinator?]
  have hrefused : ofText " (A|?B[) " =
      .error (.invalidDeclaration (.text "(A|?B[)") (Refusal.unexpected 6).message) := by
    rw [ofText, htrim, if_neg (by decide), ofTrimmed, hparse, String.ofList_toList]
  obtain ⟨-, -, hfront, hfirst⟩ := column_of_refusal hrefused
  rw [htrim] at hfront hfirst
  exact ⟨hrefused, hfront, hfirst⟩

end Ty

end TypeRecovery
