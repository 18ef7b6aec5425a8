import TypeRecovery.DocComment
import TypeRecovery.Proofs.LetterCase

/-!
# Comments with a line for each parameter

A comment may document the parameters of a function, one tag on a line. Each parameter then has the
type of its own line and no other name has one, whatever the types are spelled like. A type may hold
the text of a tag or of a name itself: a tag that starts inside a type would have to take the name
behind it as its own type, and no name follows there. A name is not taken for a longer one, since it
has to end where a word ends.
-/
namespace TypeRecovery

namespace Text

def isIdentifierStart (c : Char) : Bool := c.isAlpha || c == '_'

def isIdentifierChar (c : Char) : Bool := c.isAlphanum || c == '_'

def IsIdentifier : List Char → Prop
  | [] => False
  | c :: cs => isIdentifierStart c = true ∧ ∀ d ∈ cs, isIdentifierChar d = true

instance : DecidablePred IsIdentifier
  | [] => isFalse id
  | c :: cs => decidable_of_iff ((isIdentifierStart c && cs.all isIdentifierChar) = true)
      (by simp [IsIdentifier])

theorem IsIdentifier.forall_mem {cs : List Char} (h : IsIdentifier cs) :
    ∀ c ∈ cs, isIdentifierChar c = true := by
  cases cs with
  | nil => exact h.elim
  | cons c cs =>
    have hstart : c.isAlphanum = (c.isAlpha || c.isDigit) := rfl
    have hc : isIdentifierChar c = true := by
      have hor := h.1
      simp only [isIdentifierStart, isIdentifierChar, hstart, Bool.or_eq_true] at hor ⊢
      tauto
    exact List.forall_mem_cons.2 ⟨hc, h.2⟩

/-- Identifiers are written between the space and the end of ASCII. -/
theorem range_of_isIdentifierChar {c : Char} (h : isIdentifierChar c = true) :
    0x20 < c.toNat ∧ c.toNat < 0x80 := by
  have halnum : c.isAlphanum = (decide ('A' ≤ c ∧ c ≤ 'Z') ||
      (decide ('a' ≤ c) && decide (c ≤ 'z')) || (decide ('0' ≤ c) && decide (c ≤ '9'))) := rfl
  have hrange {b d : Char} (hb : b ≤ c) (hd : c ≤ d) (hlow : 0x20 < b.toNat)
      (hhigh : d.toNat < 0x80) : 0x20 < c.toNat ∧ c.toNat < 0x80 :=
    ⟨Nat.lt_of_lt_of_le hlow hb, Nat.lt_of_le_of_lt hd hhigh⟩
  simp only [isIdentifierChar, halnum, Bool.or_eq_true, Bool.and_eq_true, decide_eq_true_eq,
    beq_iff_eq] at h
  rcases h with ((⟨hb, hd⟩ | ⟨hb, hd⟩) | ⟨hb, hd⟩) | rfl
  · exact hrange hb hd (by decide) (by decide)
  · exact hrange hb hd (by decide) (by decide)
  · exact hrange hb hd (by decide) (by decide)
  · decide

theorem isWordChar_of_isIdentifierChar {c : Char} (h : isIdentifierChar c = true) :
    isWordChar c = true := by
  rw [isWordChar, if_pos (range_of_isIdentifierChar h).2]
  exact h

theorem isBlank_of_isIdentifierChar {c : Char} (h : isIdentifierChar c = true) :
    isBlank c = false := by
  obtain ⟨hlow, hhigh⟩ := range_of_isIdentifierChar h
  simp only [isBlank, Bool.or_eq_false_iff, Bool.and_eq_false_iff, decide_eq_false_iff_not,
    beq_eq_false_iff_ne]
  omega

theorem toNat_toLower_lt {c : Char} (h : c.toNat < 0x80) : c.toLower.toNat < 0x80 := by
  have hlower : decide (c.toLower.toNat < 0x80) = decide (c.toNat < 0x80) :=
    apply_toLower (f := fun c => decide (c.toNat < 0x80)) (by decide) c
  simpa [h] using hlower

/-- The other ways to write a letter of ASCII are not in ASCII. -/
theorem agreesIgnoringCase_of_lt {c d : Char} (hc : c.toNat < 0x80) (hd : d.toNat < 0x80) :
    agreesIgnoringCase c d = (c.toLower == d.toLower) := by
  have hvariants : letterVariants.all (fun e => 0x80 ≤ e.1 || e.2.all (0x80 ≤ ·)) = true := by
    decide
  have hother :
      (letterVariants.lookup c.toLower.toNat).any (·.contains d.toLower.toNat) = false := by
    cases hl : letterVariants.lookup c.toLower.toNat with
    | none => rfl
    | some variants =>
      obtain ⟨front, back, hsplit, -⟩ := List.lookup_eq_some_iff.1 hl
      have hall := List.all_eq_true.1 hvariants (c.toLower.toNat, variants) (by simp [hsplit])
      have hlow := toNat_toLower_lt hc
      have hlow' := toNat_toLower_lt hd
      simp only [Bool.or_eq_true, decide_eq_true_eq, List.all_eq_true] at hall
      have hout := hall.resolve_left (by omega) d.toLower.toNat
      simp only [Option.any_some, List.contains_eq_mem, decide_eq_false_iff_not]
      intro hmem
      have := hout hmem
      omega
  rw [agreesIgnoringCase, lowerChar, if_pos hc, lowerChar, if_pos hd]
  simp only [hother, Bool.or_false]
  rw [Bool.eq_iff_iff, beq_iff_eq, beq_iff_eq, Char.toNat_inj]

theorem lowerFrom_of_lt {cs : List Char} (h : ∀ c ∈ cs, c.toNat < 0x80) (before : List Char) :
    lowerFrom before cs = cs.map Char.toLower := by
  induction cs generalizing before with
  | nil => rfl
  | cons c cs ih =>
    obtain ⟨hc, hcs⟩ := List.forall_mem_cons.1 h
    have hlower : lowerAt before c cs = [c.toLower] := by
      have hsigma : (c.toNat == 0x3A3) = false := beq_eq_false_iff_ne.2 (by omega)
      have hdotted : (c.toNat == 0x130) = false := beq_eq_false_iff_ne.2 (by omega)
      simp [lowerAt, hsigma, hdotted, lowerChar, hc]
    rw [lowerFrom, hlower, ih hcs, List.map_cons, List.singleton_append]

theorem IsIdentifier.lower_eq_iff {m n : String} (hm : IsIdentifier m.toList)
    (hn : IsIdentifier n.toList) :
    lower m = lower n ↔ m.toList.map Char.toLower = n.toList.map Char.toLower := by
  have hlt {s : String} (hs : IsIdentifier s.toList) : ∀ c ∈ s.toList, c.toNat < 0x80 :=
    fun c hc => (range_of_isIdentifierChar (hs.forall_mem c hc)).2
  rw [lower, lower, String.ofList_inj, lowerFrom_of_lt (hlt hm), lowerFrom_of_lt (hlt hn)]

end Text

namespace DocComment

open Text

theorem stripBlanks?_append {blanks cs : List Char} (hne : blanks ≠ [])
    (hblanks : blanks.all isBlank = true) (hcs : ∀ c ∈ cs.head?, isBlank c = false) :
    stripBlanks? (blanks ++ cs) = some cs := by
  have hpos := List.all_eq_true.1 hblanks
  simp [stripBlanks?, List.takeWhile_append_of_pos hpos, List.dropWhile_append_of_pos hpos, hne,
    dropWhile_of_head? hcs]

theorem stripBlanks?_eq_none {cs : List Char} (h : ∀ c ∈ cs.head?, isBlank c = false) :
    stripBlanks? cs = none := by
  cases cs with
  | nil => rfl
  | cons c cs => simp [stripBlanks?, h c rfl]

theorem token?_append {token rest : List Char} (hne : token ≠ [])
    (htoken : ∀ c ∈ token, isBlank c = false) {b : Char} (hb : isBlank b = true) :
    token? (token ++ b :: rest) = some (token, b :: rest) := by
  have hpos : ∀ c ∈ token, (!isBlank c) = true := by simpa using htoken
  simp [token?, List.takeWhile_append_of_pos hpos, List.dropWhile_append_of_pos hpos, hb, hne]

theorem strip?_append_self {same : Char → Char → Bool} (h : ∀ c, same c c = true)
    (word rest : List Char) : strip? same word (word ++ rest) = some rest := by
  induction word with
  | nil => rfl
  | cons w word ih => simp [strip?, h, ih]

/-- A word that a blank cannot be part of ends before the next blank. -/
theorem strip?_append_cons {same : Char → Char → Bool} {word token rest r : List Char} {b : Char}
    (hb : ∀ w ∈ word, same w b = false) (h : strip? same word (token ++ b :: rest) = some r) :
    ∃ more, more <:+ token ∧ r = more ++ b :: rest := by
  induction word generalizing token with
  | nil => exact ⟨token, List.suffix_rfl, (Option.some.inj h).symm⟩
  | cons w word ih =>
    obtain ⟨hw, hword⟩ := List.forall_mem_cons.1 hb
    cases token with
    | nil => simp [strip?, hw] at h
    | cons c token =>
      rw [List.cons_append, strip?] at h
      split at h
      · obtain ⟨more, hmore, hr⟩ := ih hword h
        exact ⟨more, hmore.trans (List.suffix_cons c token), hr⟩
      · simp at h

/-- A tag of a parameter in its parts. -/
theorem typeAt?_parameter_eq_some {name : String} {cs type : List Char} :
    typeAt? (.parameter name) cs = some type ↔
      ∃ r₁ r₂ r₃ r₄, strip? agreesIgnoringCase "@param".toList cs = some r₁ ∧
        stripBlanks? r₁ = some r₂ ∧ token? r₂ = some (type, r₃) ∧
        stripBlanks? r₃ = some ('$' :: r₄) ∧ namesWord '$' name.toList r₄ = true := by
  simp only [typeAt?, bind, Option.bind_eq_some_iff]
  constructor
  · rintro ⟨r₁, h₁, r₂, h₂, ⟨t, r₃⟩, h₃, r, h₄, h⟩
    split at h
    · split at h
      · rename_i r₄ hname
        obtain rfl := Option.some.inj h
        exact ⟨r₁, r₂, r₃, r₄, h₁, h₂, h₃, h₄, hname⟩
      · simp at h
    · simp at h
  · rintro ⟨r₁, r₂, r₃, r₄, h₁, h₂, h₃, h₄, hname⟩
    exact ⟨r₁, h₁, r₂, h₂, (type, r₃), h₃, '$' :: r₄, h₄, if_pos hname⟩

theorem typeAt?_of_parts {name : String} {cs type type' r₁ r₂ r₃ r : List Char}
    (h₁ : strip? agreesIgnoringCase "@param".toList cs = some r₁) (h₂ : stripBlanks? r₁ = some r₂)
    (h₃ : token? r₂ = some (type, r₃)) (h₄ : stripBlanks? r₃ = some r) :
    typeAt? (.parameter name) cs = some type' ↔
      type' = type ∧ ∃ r₄, r = '$' :: r₄ ∧ namesWord '$' name.toList r₄ = true := by
  rw [typeAt?_parameter_eq_some]
  constructor
  · rintro ⟨s₁, s₂, s₃, r₄, g₁, g₂, g₃, g₄, hname⟩
    obtain rfl := Option.some.inj (h₁.symm.trans g₁)
    obtain rfl := Option.some.inj (h₂.symm.trans g₂)
    obtain ⟨rfl, rfl⟩ := Prod.mk.inj (Option.some.inj (h₃.symm.trans g₃))
    exact ⟨rfl, r₄, Option.some.inj (h₄.symm.trans g₄), hname⟩
  · rintro ⟨rfl, r₄, rfl, hname⟩
    exact ⟨r₁, r₂, r₃, r₄, h₁, h₂, h₃, h₄, hname⟩

/-- In the middle of a name, the rest of one name stands where the rest of another is sought. -/
theorem namesWord_of_last {last : Char} (hlast : isIdentifierChar last = true) {m n : List Char}
    (hm : ∀ c ∈ m, isIdentifierChar c = true) (hn : ∀ c ∈ n, isIdentifierChar c = true)
    (rest : List Char) :
    namesWord last m (n ++ '\n' :: rest) = true ↔ m.map Char.toLower = n.map Char.toLower := by
  induction m generalizing last n with
  | nil =>
    cases n with
    | nil =>
      have hbreak : isWordChar '\n' = false := by decide
      simp [namesWord, wordBoundary, isWordChar_of_isIdentifierChar hlast, hbreak]
    | cons d n =>
      have hd := isWordChar_of_isIdentifierChar (hn d List.mem_cons_self)
      simp [namesWord, wordBoundary, isWordChar_of_isIdentifierChar hlast, hd]
  | cons c m ih =>
    obtain ⟨hc, hm⟩ := List.forall_mem_cons.1 hm
    cases n with
    | nil =>
      have hagree : agreesIgnoringCase c '\n' = false := by
        rw [agreesIgnoringCase_of_lt (range_of_isIdentifierChar hc).2 (by decide),
          beq_eq_false_iff_ne]
        intro h
        obtain rfl : c = '\n' := eq_of_toLower_eq (by decide) h
        exact absurd hc (by decide)
      simp [namesWord, hagree]
    | cons d n =>
      obtain ⟨hd, hn⟩ := List.forall_mem_cons.1 hn
      rw [List.cons_append, namesWord, Bool.and_eq_true, ih hd hm hn,
        agreesIgnoringCase_of_lt (range_of_isIdentifierChar hc).2 (range_of_isIdentifierChar hd).2]
      simp

theorem namesWord_iff {m n : String} (hm : IsIdentifier m.toList) (hn : IsIdentifier n.toList)
    (rest : List Char) :
    namesWord '$' m.toList (n.toList ++ '\n' :: rest) = true ↔ lower m = lower n := by
  rw [hm.lower_eq_iff hn]
  have hm' := hm.forall_mem
  have hn' := hn.forall_mem
  generalize m.toList = m at hm hm' ⊢
  generalize n.toList = n at hn hn' ⊢
  cases m with
  | nil => exact hm.elim
  | cons c m =>
    cases n with
    | nil => exact hn.elim
    | cons d n =>
      obtain ⟨hc, hm⟩ := List.forall_mem_cons.1 hm'
      obtain ⟨hd, hn⟩ := List.forall_mem_cons.1 hn'
      rw [List.cons_append, namesWord, Bool.and_eq_true, namesWord_of_last hd hm hn,
        agreesIgnoringCase_of_lt (range_of_isIdentifierChar hc).2 (range_of_isIdentifierChar hd).2]
      simp

theorem find?_append {tag : Tag} {cs rest : List Char}
    (h : ∀ c s, c :: s <:+ cs → typeAt? tag (c :: s ++ rest) = none) :
    find? tag (cs ++ rest) = find? tag rest := by
  induction cs with
  | nil => rfl
  | cons c cs ih =>
    rw [List.cons_append, find?, ← List.cons_append, h c cs List.suffix_rfl, Option.none_or]
    exact ih fun d s hs => h d s (hs.trans (List.suffix_cons c cs))

/-- No tag starts with a character other than its own first. -/
theorem find?_skip (name : String) {cs : List Char}
    (h : cs.all (fun c => !agreesIgnoringCase '@' c) = true) (rest : List Char) :
    find? (.parameter name) (cs ++ rest) = find? (.parameter name) rest := by
  refine find?_append fun c s hs => ?_
  have hc : agreesIgnoringCase '@' c = false := by
    simpa using List.all_eq_true.1 h c (hs.subset List.mem_cons_self)
  refine Option.eq_none_iff_forall_ne_some.2 fun type htype => ?_
  obtain ⟨r₁, -, -, -, hstrip, -⟩ := typeAt?_parameter_eq_some.1 htype
  have hat : "@param".toList = '@' :: "param".toList := by decide
  simp [hat, strip?, hc] at hstrip

/-- A parameter with a type that is one token, whatever it is spelled like. -/
structure Parameter where
  type : String
  name : String
  nonempty : type ≠ ""
  unspaced : ∀ c ∈ type.toList, isBlank c = false
  identifier : IsIdentifier name.toList

namespace Parameter

def line (p : Parameter) : String := " * @param " ++ p.type ++ " $" ++ p.name ++ "\n"

/-- The text behind the type of a parameter, with what follows on the next line. -/
def named (p : Parameter) (rest : List Char) : List Char :=
  ' ' :: '$' :: (p.name.toList ++ '\n' :: rest)

theorem toList_line (p : Parameter) (rest : List Char) :
    p.line.toList ++ rest =
      " * ".toList ++ ("@param".toList ++ ' ' :: (p.type.toList ++ p.named rest)) := by
  simp [line, named]

theorem toList_type_ne_nil (p : Parameter) : p.type.toList ≠ [] := by
  simpa using p.nonempty

theorem stripBlanks?_named (p : Parameter) (rest : List Char) :
    stripBlanks? (p.named rest) = some (('$' :: p.name.toList) ++ '\n' :: rest) := by
  have hdollar : isBlank '$' = false := by decide
  exact @stripBlanks?_append [' '] _ (by simp) (by decide) (by simp [hdollar])

/-- No tag starts inside of a type: if a type ends like a tag, the name of the parameter is where
the type of that tag would be, and the next line where its name would be. -/
theorem find?_type (p : Parameter) (name : String) (rest : List Char) :
    find? (.parameter name) (p.type.toList ++ p.named (' ' :: '*' :: rest)) =
      find? (.parameter name) (p.named (' ' :: '*' :: rest)) := by
  refine find?_append fun c s hs => Option.eq_none_iff_forall_ne_some.2 fun type htype => ?_
  obtain ⟨r₁, r₂, -, -, hstrip, hblank, -⟩ := typeAt?_parameter_eq_some.1 htype
  have hspace : ∀ w ∈ "@param".toList, agreesIgnoringCase w ' ' = false := by
    have hall : "@param".toList.all (fun w => !agreesIgnoringCase w ' ') = true := by decide
    simpa using List.all_eq_true.1 hall
  obtain ⟨more, hmore, rfl⟩ := strip?_append_cons hspace hstrip
  obtain rfl : more = [] := by
    cases more with
    | nil => rfl
    | cons d more =>
      have hd := p.unspaced d (hs.subset (hmore.subset List.mem_cons_self))
      rw [stripBlanks?_eq_none (by simpa using hd)] at hblank
      cases hblank
  have hunspaced : ∀ c ∈ '$' :: p.name.toList, isBlank c = false :=
    List.forall_mem_cons.2 ⟨by decide, fun c hc =>
      isBlank_of_isIdentifierChar (p.identifier.forall_mem c hc)⟩
  have htoken : token? ('$' :: p.name.toList ++ '\n' :: ' ' :: '*' :: rest) = _ :=
    token?_append (by simp) hunspaced (by decide)
  have hstar : stripBlanks? ('\n' :: ' ' :: '*' :: rest) = some ('*' :: rest) :=
    @stripBlanks?_append ['\n', ' '] _ (by simp) (by decide) (by simp; decide)
  obtain ⟨-, r₄, hname, -⟩ :=
    (typeAt?_of_parts hstrip (p.stripBlanks?_named _) htoken hstar).1 htype
  simp at hname

theorem find?_named (p : Parameter) (name : String) (rest : List Char) :
    find? (.parameter name) (p.named rest) = find? (.parameter name) rest := by
  have hname : p.name.toList.all (fun c => !agreesIgnoringCase '@' c) = true := by
    refine List.all_eq_true.2 fun c hc => ?_
    have hident := p.identifier.forall_mem c hc
    rw [agreesIgnoringCase_of_lt (by decide) (range_of_isIdentifierChar hident).2,
      Bool.not_eq_true', beq_eq_false_iff_ne]
    intro h
    obtain rfl : c = '@' := eq_of_toLower_eq (by decide) h.symm
    exact absurd hident (by decide)
  have hsplit : p.named rest = " $".toList ++ (p.name.toList ++ ("\n".toList ++ rest)) := by
    simp [named]
  rw [hsplit, find?_skip name (by decide), find?_skip name hname, find?_skip name (by decide)]

theorem typeAt?_line (p : Parameter) {name : String} (hname : IsIdentifier name.toList)
    (rest : List Char) :
    typeAt? (.parameter name) ("@param".toList ++ ' ' :: (p.type.toList ++ p.named rest)) =
      if lower name = lower p.name then some p.type.toList else none := by
  have hself (c : Char) : agreesIgnoringCase c c = true := by simp [agreesIgnoringCase]
  have htag := strip?_append_self hself "@param".toList (' ' :: (p.type.toList ++ p.named rest))
  have hblank : stripBlanks? (' ' :: (p.type.toList ++ p.named rest)) =
      some (p.type.toList ++ p.named rest) := by
    have hhead : ∀ c ∈ (p.type.toList ++ p.named rest).head?, isBlank c = false := by
      intro c hc
      rw [List.head?_append_of_ne_nil _ p.toList_type_ne_nil] at hc
      exact p.unspaced c (List.mem_of_mem_head? hc)
    exact @stripBlanks?_append [' '] _ (by simp) (by decide) hhead
  have htoken : token? (p.type.toList ++ p.named rest) = _ :=
    token?_append p.toList_type_ne_nil p.unspaced (by decide)
  have hword := namesWord_iff hname p.identifier rest
  refine Option.ext fun type => ?_
  rw [typeAt?_of_parts htag hblank htoken (p.stripBlanks?_named rest)]
  constructor
  · rintro ⟨rfl, r₄, hr, hr₄⟩
    obtain rfl := (List.cons.inj hr).2
    rw [if_pos (hword.1 hr₄)]
  · intro h
    split at h
    · rename_i hsame
      obtain rfl := Option.some.inj h
      exact ⟨rfl, _, rfl, hword.2 hsame⟩
    · cases h

/-- A line answers for its own name only; for other names the search goes on with the next line. -/
theorem find?_line (p : Parameter) {name : String} (hname : IsIdentifier name.toList)
    (rest : List Char) :
    find? (.parameter name) (p.line.toList ++ ' ' :: '*' :: rest) =
      if lower name = lower p.name then some p.type.toList
      else find? (.parameter name) (' ' :: '*' :: rest) := by
  have hat : "@param".toList = '@' :: "param".toList := by decide
  rw [toList_line, find?_skip name (by decide), hat, List.cons_append, find?, ← List.cons_append,
    ← hat, p.typeAt?_line hname]
  by_cases h : lower name = lower p.name
  · rw [if_pos h, if_pos h, Option.some_or]
  · -- the rest of the line is passed over, first the tag, then the type, then the name
    have htag : "param".toList ++ ' ' :: (p.type.toList ++ p.named (' ' :: '*' :: rest)) =
        "param ".toList ++ (p.type.toList ++ p.named (' ' :: '*' :: rest)) := by simp
    rw [if_neg h, if_neg h, Option.none_or, htag, find?_skip name (by decide), find?_type,
      find?_named]

end Parameter

/-- A comment with a line for each parameter. -/
def commentOf (params : List Parameter) : String :=
  "/**\n" ++ String.join (params.map Parameter.line) ++ " */\n"

theorem exists_lines_eq (params : List Parameter) :
    ∃ rest, params.flatMap (fun p => p.line.toList) ++ " */\n".toList = ' ' :: '*' :: rest := by
  cases params with
  | nil => exact ⟨_, rfl⟩
  | cons p params =>
    rw [List.flatMap_cons, List.append_assoc, p.toList_line]
    exact ⟨_, rfl⟩

/-- The first line with the name answers. -/
theorem find?_lines (params : List Parameter) {name : String} (hname : IsIdentifier name.toList) :
    find? (.parameter name) (params.flatMap (fun p => p.line.toList) ++ " */\n".toList) =
      (params.find? fun p => lower name = lower p.name).map fun p => p.type.toList := by
  induction params with
  | nil => exact @find?_skip name " */\n".toList (by decide) []
  | cons p params ih =>
    obtain ⟨rest, hrest⟩ := exists_lines_eq params
    rw [List.flatMap_cons, List.append_assoc, hrest, p.find?_line hname, ← hrest, ih]
    by_cases h : lower name = lower p.name <;> simp [h]

theorem find?_commentOf (params : List Parameter) {name : String}
    (hname : IsIdentifier name.toList) :
    find? (.parameter name) (commentOf params).toList =
      (params.find? fun p => lower name = lower p.name).map fun p => p.type.toList := by
  have hlines : (commentOf params).toList =
      "/**\n".toList ++ (params.flatMap (fun p => p.line.toList) ++ " */\n".toList) := by
    simp [commentOf, String.toList_join, List.flatMap_map]
  rw [hlines, find?_skip name (by decide), find?_lines params hname]

theorem find?_of_pairwise {params : List Parameter}
    (hdistinct : params.Pairwise fun p q => lower p.name ≠ lower q.name) {p : Parameter}
    (hp : p ∈ params) : params.find? (fun q => lower p.name = lower q.name) = some p := by
  induction hdistinct with
  | nil => cases hp
  | @cons q params hq _ ih =>
    rcases List.mem_cons.1 hp with rfl | hp
    · simp
    · rw [List.find?_cons_of_neg (by simpa using (hq p hp).symm), ih hp]

/-- Each parameter has the type on its own line, and other names have none. -/
theorem declaredType_commentOf (params : List Parameter)
    (hdistinct : params.Pairwise fun p q => lower p.name ≠ lower q.name) :
    (∀ p ∈ params,
      declaredType (.parameter p.name) (some (commentOf params)) = Ty.ofTextOrMixed p.type) ∧
    ∀ name : String, IsIdentifier name.toList → (∀ p ∈ params, lower name ≠ lower p.name) →
      declaredType (.parameter name) (some (commentOf params)) = .mixed := by
  constructor
  · intro p hp
    have hfind := find?_commentOf params p.identifier
    rw [find?_of_pairwise hdistinct hp, Option.map_some] at hfind
    simp [declaredType, hfind]
  · intro name hname hother
    have hfind := find?_commentOf params hname
    rw [List.find?_eq_none.2 (by simpa using hother), Option.map_none] at hfind
    simp [declaredType, hfind]

/-- A type that ends like a tag, and a name that another one starts with. -/
def misleading : List Parameter :=
  [⟨"string[]@PARAM", "count", by decide, by simp; decide, by decide⟩,
    ⟨"?Foo", "countries", by decide, by simp; decide, by decide⟩,
    ⟨"$other", "x", by decide, by simp; decide, by decide⟩]

theorem declaredType_misleading :
    misleading.Pairwise (fun p q => lower p.name ≠ lower q.name) ∧
      commentOf misleading = "/**\n * @param string[]@PARAM $count\n" ++
        " * @param ?Foo $countries\n * @param $other $x\n */\n" ∧
      declaredType (.parameter "countries") (some (commentOf misleading)) =
        Ty.ofTextOrMixed "?Foo" ∧
      declaredType (.parameter "other") (some (commentOf misleading)) = .mixed := by
  have hdistinct : misleading.Pairwise (fun p q => lower p.name ≠ lower q.name) := by
    simp only [misleading, List.pairwise_cons]
    decide
  obtain ⟨hown, hother⟩ := declaredType_commentOf misleading hdistinct
  refine ⟨hdistinct, by decide, hown misleading[1] (List.getElem_mem _),
    hother "other" (by decide) ?_⟩
  simp only [misleading, List.forall_mem_cons]
  decide

end DocComment

end TypeRecovery
