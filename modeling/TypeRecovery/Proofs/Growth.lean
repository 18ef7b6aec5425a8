import Mathlib.Tactic.ByContra
import Mathlib.Tactic.Push
import TypeRecovery.Proofs.Gathering
import TypeRecovery.Visited

/-!
# Unions that grow

A merge of incoming values grows with them: its union keeps every part it ever had. Among types whose
parts come from a finite list, growth has an end. A first union may still have a part twice, which it
loses when it grows; the weight of a type counts its parts and, last, that none is there twice.
-/
namespace TypeRecovery.Ty

/-- The types are equal, or all parts of the first are parts of the second, which has none twice. -/
def GrowsTo (t u : Ty) : Prop :=
  t.equiv u = true ∨ Covered (t.parts .union) (u.parts .union) ∧ Distinct (u.parts .union)

theorem Matched.distinct {ts us : List Ty} (h : Matched ts us) (ht : Distinct ts) : Distinct us := by
  obtain ⟨vs, hp, hf⟩ := h
  apply Distinct.perm _ hp
  clear hp
  induction hf with
  | nil => exact List.Pairwise.nil
  | @cons t v ts vs htv hf ih =>
    obtain ⟨hfirst, hrest⟩ := List.pairwise_cons.1 ht
    refine List.pairwise_cons.2 ⟨?_, ih hrest⟩
    intro w hw
    obtain ⟨s, hs, hsw⟩ := (matched_of_forall₂ hf).exists_left hw
    rw [← equiv_congr htv hsw, hfirst s hs]

theorem distinct_parts_of_equiv {t u : Ty} (h : t.equiv u = true) (ht : Distinct (t.parts .union)) :
    Distinct (u.parts .union) :=
  (parts_matched .union h).distinct ht

theorem GrowsTo.refl (t : Ty) : GrowsTo t t := Or.inl (equiv_refl t)

theorem GrowsTo.covered {t u : Ty} (h : GrowsTo t u) :
    Covered (t.parts .union) (u.parts .union) := by
  rcases h with h | h
  · exact (parts_matched .union h).covered
  · exact h.1

theorem GrowsTo.trans {t u v : Ty} (h : GrowsTo t u) (h' : GrowsTo u v) : GrowsTo t v := by
  rcases h' with he | ⟨hc, hd⟩
  · rcases h with he' | ⟨hc', hd'⟩
    · exact Or.inl (equiv_trans he' he)
    · exact Or.inr ⟨hc'.trans (GrowsTo.covered (Or.inl he)), distinct_parts_of_equiv he hd'⟩
  · exact Or.inr ⟨h.covered.trans hc, hd⟩

theorem GrowsTo.antisymm {t u : Ty} (h : GrowsTo t u) (h' : GrowsTo u t) : t.equiv u = true := by
  rcases h with h | ⟨hc, hd⟩
  · exact h
  rcases h' with h' | ⟨hc', hd'⟩
  · exact equiv_symm h'
  · exact equiv_of_matched_parts (matched_of_covered hd' hd hc hc')

theorem gathers_unionOf? {ts : List Ty} {u : Ty} (h : ∀ t ∈ ts, t.Clean)
    (hu : unionOf? ts = some u) : ts ≠ [] ∧ Gathers .union ts u := by
  cases ts with
  | nil => simp [unionOf?, combineAll?] at hu
  | cons t ts =>
    obtain rfl : ts.foldl (combine .union) t = u := by simpa [unionOf?, combineAll?] using hu
    refine ⟨by simp, gathers_foldl ?_⟩
    intro s hs
    exact (h s (List.mem_cons_of_mem t hs)).flat.flatAt .union

/-- The union grows when its members do and when members are added. -/
theorem growsTo_unionOf? {ts us : List Ty} {t u : Ty} (ht : ∀ s ∈ ts, s.Clean)
    (hu : ∀ s ∈ us, s.Clean) (h : ∀ s ∈ ts, ∃ s' ∈ us, GrowsTo s s') (hts : unionOf? ts = some t)
    (hus : unionOf? us = some u) : GrowsTo t u := by
  obtain ⟨hne, hg⟩ := gathers_unionOf? ht hts
  obtain ⟨-, hg'⟩ := gathers_unionOf? hu hus
  have hparts : Covered (ts.flatMap (parts .union)) (us.flatMap (parts .union)) := by
    intro m hm
    obtain ⟨s, hs, hms⟩ := List.mem_flatMap.1 hm
    obtain ⟨s', hs', hgrow⟩ := h s hs
    obtain ⟨m', hm', hmm⟩ := hgrow.covered m hms
    exact ⟨m', List.mem_flatMap.2 ⟨s', hs', hm'⟩, hmm⟩
  have hcovered : Covered (t.parts .union) (u.parts .union) :=
    hg.covered.trans (hparts.trans hg'.covers)
  rcases hg'.repeats with hall | ⟨hd, -⟩
  · by_cases hsame : ∀ s ∈ ts, s.equiv u = true
    · exact Or.inl (equiv_symm (hg.uniform hne (.of_subset (List.Subset.refl ts)) hsame))
    · -- a member that has really grown has no part twice, and all members are equal to the union
      obtain ⟨s, hs, hne⟩ : ∃ s ∈ ts, ¬s.equiv u = true := by simpa using hsame
      obtain ⟨s', hs', hgrow⟩ := h s hs
      rcases hgrow with he | ⟨-, hd⟩
      · exact absurd (equiv_trans he (hall s' hs')) hne
      · exact Or.inr ⟨hcovered, distinct_parts_of_equiv (hall s' hs') hd⟩
  · exact Or.inr ⟨hcovered, hd⟩

/-- The parts of a union are parts of its members. -/
theorem covered_unionOf? {ts base : List Ty} {t : Ty} (ht : ∀ s ∈ ts, s.Clean)
    (h : ∀ s ∈ ts, Covered (s.parts .union) base) (hts : unionOf? ts = some t) :
    Covered (t.parts .union) base := by
  obtain ⟨-, hg⟩ := gathers_unionOf? ht hts
  apply hg.covered.trans
  intro m hm
  obtain ⟨s, hs, hms⟩ := List.mem_flatMap.1 hm
  exact h s hs m hms

instance (ts : List Ty) : Decidable (Distinct ts) :=
  inferInstanceAs (Decidable (ts.Pairwise fun a b => a.equiv b = false))

def hasPart (t b : Ty) : Bool := (t.parts .union).any (equiv b)

def weight (base : List Ty) (t : Ty) : Nat :=
  2 * base.countP t.hasPart + if Distinct (t.parts .union) then 1 else 0

theorem weight_le (base : List Ty) (t : Ty) : t.weight base ≤ 2 * base.length + 1 := by
  have hcount : base.countP t.hasPart ≤ base.length := List.countP_le_length
  unfold weight
  split <;> omega

theorem hasPart_of_covered {t u b : Ty} (h : Covered (t.parts .union) (u.parts .union))
    (hb : t.hasPart b = true) : u.hasPart b = true := by
  obtain ⟨m, hm, hbm⟩ := List.any_eq_true.1 hb
  obtain ⟨m', hm', hmm⟩ := h m hm
  exact List.any_eq_true.2 ⟨m', hm', equiv_trans hbm hmm⟩

theorem weight_congr {base : List Ty} {t u : Ty} (h : t.equiv u = true) :
    t.weight base = u.weight base := by
  have hparts : t.hasPart = u.hasPart := by
    funext b
    rw [Bool.eq_iff_iff]
    exact ⟨hasPart_of_covered (parts_matched .union h).covered,
      hasPart_of_covered (parts_matched .union (equiv_symm h)).covered⟩
  have hdistinct : Distinct (t.parts .union) ↔ Distinct (u.parts .union) :=
    ⟨distinct_parts_of_equiv h, distinct_parts_of_equiv (equiv_symm h)⟩
  simp only [weight, hparts, hdistinct]

theorem weight_lt {base : List Ty} {t u : Ty} (hb : Covered (u.parts .union) base)
    (h : GrowsTo t u) (hne : t.equiv u = false) : t.weight base < u.weight base := by
  rcases h with he | ⟨hc, hd⟩
  · rw [he] at hne
    cases hne
  have hmono : ∀ b ∈ base, t.hasPart b = true → u.hasPart b = true :=
    fun b _ => hasPart_of_covered hc
  by_cases hdt : Distinct (t.parts .union)
  · -- without a new part the two would be equal
    obtain ⟨b, hb, hub, htb⟩ : ∃ b ∈ base, u.hasPart b = true ∧ t.hasPart b = false := by
      by_contra hnone
      push Not at hnone
      have hback : Covered (u.parts .union) (t.parts .union) := by
        intro m hm
        obtain ⟨b, hbase, hmb⟩ := hb m hm
        have hub : u.hasPart b = true := List.any_eq_true.2 ⟨m, hm, equiv_symm hmb⟩
        have htb : t.hasPart b = true := by simpa using hnone b hbase hub
        obtain ⟨m', hm', hbm⟩ := List.any_eq_true.1 htb
        exact ⟨m', hm', equiv_trans hmb hbm⟩
      rw [equiv_of_matched_parts (matched_of_covered hdt hd hc hback)] at hne
      cases hne
    have hcount := countP_lt hmono hb hub htb
    simp only [weight, if_pos hdt, if_pos hd]
    omega
  · have hcount := List.countP_mono_left hmono
    simp only [weight, if_neg hdt, if_pos hd]
    omega

theorem weight_mono {base : List Ty} {t u : Ty} (hb : Covered (u.parts .union) base)
    (h : GrowsTo t u) : t.weight base ≤ u.weight base := by
  cases he : t.equiv u with
  | true => exact Nat.le_of_eq (weight_congr he)
  | false => exact Nat.le_of_lt (weight_lt hb h he)

end TypeRecovery.Ty
