import TypeRecovery.Proofs.Fitting
import TypeRecovery.Proofs.Gathering

/-!
# Relations under which types can be exchanged

A relation of types that is kept by all operations that rules use. Equality is one; equality of clean
types is another, and says in addition that rules make clean types of clean types.
-/
namespace TypeRecovery.Ty

/-- Answers that can stand for each other: there are some, and they are related one by one, or in
some order where all are clean. -/
structure Answers (R : Ty → Ty → Prop) (ts us : List Ty) : Prop where
  ne_nil : ts ≠ []
  related : List.Forall₂ R ts us ∨
    (∃ vs, List.Forall₂ R ts vs ∧ vs.Perm us) ∧ (∀ t ∈ ts, t.Clean) ∧ ∀ u ∈ us, u.Clean

structure Exchange (R : Ty → Ty → Prop) : Prop where
  equiv : ∀ {t u}, R t u → t.equiv u = true
  clean : ∀ {t}, t.Clean → R t t
  arrayOf : ∀ {t u}, R t u → R (arrayOf t) (arrayOf u)
  element : ∀ {t u}, R t u → Option.Rel R t.elementType? u.elementType?
  combine : ∀ c {a a' b b'}, R a a' → R b b' → R (combine c a b) (combine c a' b')
  remove : ∀ {u u' t t'}, R u u' → R t t' → R (u.remove t) (u'.remove t')
  lubAll : ∀ {tss uss}, List.Forall₂ (Answers R) tss uss → tss ≠ [] →
    R (lubAll tss.flatten) (lubAll uss.flatten)

theorem answers_singleton {R : Ty → Ty → Prop} {t u : Ty} (h : R t u) : Answers R [t] [u] :=
  ⟨by simp, Or.inl (.cons h .nil)⟩

theorem Answers.length_eq {R : Ty → Ty → Prop} {ts us : List Ty} (h : Answers R ts us) :
    ts.length = us.length := by
  rcases h.related with hf | ⟨⟨vs, hf, hp⟩, -⟩
  · exact hf.length_eq
  · rw [hf.length_eq, hp.length_eq]

theorem Answers.right_ne_nil {R : Ty → Ty → Prop} {ts us : List Ty} (h : Answers R ts us) :
    us ≠ [] := by
  intro hu
  have hl := h.length_eq
  rw [hu, List.length_nil, List.length_eq_zero_iff] at hl
  exact h.ne_nil hl

theorem flatten_ne_nil {R : Ty → Ty → Prop} {tss uss : List (List Ty)}
    (h : List.Forall₂ (Answers R) tss uss) (hne : tss ≠ []) :
    tss.flatten ≠ [] ∧ uss.flatten ≠ [] := by
  cases h with
  | nil => exact absurd rfl hne
  | cons h _ => simp [h.ne_nil, h.right_ne_nil]

theorem element_congr {t u : Ty} (h : t.equiv u = true) :
    Option.Rel (fun t u => equiv t u = true) t.elementType? u.elementType? := by
  cases t with
  | arrayOf t =>
    obtain ⟨u, rfl, htu⟩ := equiv_arrayOf_cases h
    exact .some htu
  | compound c x y rest =>
    obtain ⟨x', y', rest', rfl, -⟩ := equiv_compound_cases h
    exact .none
  | _ => cases u <;> first | exact .none | simp [equiv, classKey?] at h

theorem matched_of_answers {R : Ty → Ty → Prop} (hR : ∀ t u, R t u → equiv t u = true)
    {ts us : List Ty} (h : Answers R ts us) : Matched ts us := by
  rcases h.related with hf | ⟨⟨vs, hf, hp⟩, -⟩
  · exact matched_of_forall₂ (hf.imp hR)
  · exact ⟨vs, hp, hf.imp hR⟩

/-- Lists of answers, merged one after the other, come to equal types. -/
theorem foldl_lub_flatten {R : Ty → Ty → Prop} (hR : ∀ t u, R t u → equiv t u = true)
    {tss uss : List (List Ty)} (h : List.Forall₂ (Answers R) tss uss) {a b : Ty}
    (hab : a.equiv b = true) :
    (tss.flatten.foldl lub a).equiv (uss.flatten.foldl lub b) = true := by
  induction h generalizing a b with
  | nil => exact hab
  | @cons ts us tss uss hts _ ih =>
    rw [List.flatten_cons, List.flatten_cons, List.foldl_append, List.foldl_append]
    apply ih
    rcases hts.related with hf | ⟨-, ht, hu⟩
    · exact foldl_congr (fun _ _ _ _ => lub_congr) (hf.imp hR) hab
    · exact foldl_lub_equiv hab (matched_of_answers hR hts) ht hu

theorem exchange_equiv : Exchange fun t u => t.equiv u = true where
  equiv := id
  clean := fun {t} _ => equiv_refl t
  arrayOf := by
    intro t u h
    rwa [Ty.equiv]
  element := element_congr
  combine := fun c _ _ _ _ => combine_congr c
  remove := remove_congr
  lubAll := fun h _ => foldl_lub_flatten (fun _ _ => id) h (equiv_refl bottom)

/-- A property of types that the operations keep. -/
structure Preserved (P : Ty → Prop) : Prop where
  clean : ∀ {t}, t.Clean → P t
  arrayOf : ∀ {t}, P t → P (arrayOf t)
  element : ∀ {t e}, P t → t.elementType? = some e → P e
  combine : ∀ {c a b}, P a → P b → P (combine c a b)
  remove : ∀ {u}, P u → ∀ t, P (u.remove t)

/-- Equal types that both have the property. -/
def EquivWith (P : Ty → Prop) (t u : Ty) : Prop := t.equiv u = true ∧ P t ∧ P u

theorem forall_of_forall₂ {α : Type} {P : α → Prop} {R : α → α → Prop} {as bs : List α}
    (hR : ∀ a b, R a b → P a ∧ P b) (h : List.Forall₂ R as bs) :
    (∀ a ∈ as, P a) ∧ ∀ b ∈ bs, P b := by
  induction h with
  | nil => simp
  | cons h _ ih =>
    have hab := hR _ _ h
    exact ⟨List.forall_mem_cons.2 ⟨hab.1, ih.1⟩, List.forall_mem_cons.2 ⟨hab.2, ih.2⟩⟩

theorem Preserved.of_answers {P : Ty → Prop} (hP : Preserved P) {ts us : List Ty}
    (h : Answers (EquivWith P) ts us) : (∀ t ∈ ts, P t) ∧ ∀ u ∈ us, P u := by
  rcases h.related with hf | ⟨-, hc⟩
  · exact forall_of_forall₂ (fun _ _ h => h.2) hf
  · exact ⟨fun t ht => hP.clean (hc.1 t ht), fun u hu => hP.clean (hc.2 u hu)⟩

theorem Preserved.of_mem_flatten {P : Ty → Prop} (hP : Preserved P) {tss uss : List (List Ty)}
    (h : List.Forall₂ (Answers (EquivWith P)) tss uss) :
    (∀ t ∈ tss.flatten, P t) ∧ ∀ u ∈ uss.flatten, P u := by
  induction h with
  | nil => simp
  | cons h _ ih =>
    have hc := hP.of_answers h
    simp only [List.flatten_cons, List.mem_append, or_imp, forall_and]
    exact ⟨⟨hc.1, ih.1⟩, hc.2, ih.2⟩

theorem Preserved.exchange {P : Ty → Prop} (hP : Preserved P) : Exchange (EquivWith P) where
  equiv := fun h => h.1
  clean := fun {t} h => ⟨equiv_refl t, hP.clean h, hP.clean h⟩
  arrayOf := by
    rintro t u ⟨he, ht, hu⟩
    exact ⟨by rwa [Ty.equiv], hP.arrayOf ht, hP.arrayOf hu⟩
  element := by
    rintro t u ⟨he, ht, hu⟩
    have h := element_congr he
    generalize hte : t.elementType? = e at h
    generalize hue : u.elementType? = e' at h
    cases h with
    | some h => exact .some ⟨h, hP.element ht hte, hP.element hu hue⟩
    | none => exact .none
  combine := by
    rintro c a a' b b' ⟨ha, hac, hac'⟩ ⟨hb, hbc, hbc'⟩
    exact ⟨combine_congr c ha hb, hP.combine hac hbc, hP.combine hac' hbc'⟩
  remove := by
    rintro u u' t t' ⟨hu, huc, huc'⟩ ⟨ht, -, -⟩
    exact ⟨remove_congr hu ht, hP.remove huc t, hP.remove huc' t'⟩
  lubAll := by
    intro tss uss h hne
    have hc := hP.of_mem_flatten h
    have hn := flatten_ne_nil h hne
    exact ⟨foldl_lub_flatten (fun _ _ h => h.1) h (equiv_refl bottom),
      lubAll_keeps (fun _ _ => hP.combine) hn.1 hc.1,
      lubAll_keeps (fun _ _ => hP.combine) hn.2 hc.2⟩

theorem preserved_clean : Preserved Clean where
  clean := id
  arrayOf := clean_arrayOf.2
  element := Clean.element
  combine := clean_combine
  remove := clean_remove

theorem preserved_known : Preserved Known where
  clean := Clean.known
  arrayOf := known_arrayOf.2
  element := Known.element
  combine := known_combine
  remove := known_remove

/-- Equality of clean types. -/
def CleanEquiv (t u : Ty) : Prop := t.equiv u = true ∧ t.Clean ∧ u.Clean

theorem exchange_cleanEquiv : Exchange CleanEquiv := preserved_clean.exchange

theorem Exchange.combineAll? {R : Ty → Ty → Prop} (hR : Exchange R) (c : Combinator)
    {ts us : List Ty} (h : List.Forall₂ R ts us) :
    Option.Rel R (combineAll? c ts) (combineAll? c us) := by
  cases h with
  | nil => exact .none
  | @cons t u ts us htu h =>
    refine .some ?_
    induction h generalizing t u with
    | nil => exact htu
    | cons h _ ih => exact ih (hR.combine c htu h)

theorem Exchange.kind_eq {R : Ty → Ty → Prop} (hR : Exchange R) {t u : Ty} (h : R t u) :
    t.kind = u.kind :=
  kind_eq_of_equiv (hR.equiv h)

/-- Whether a type is one of objects does not depend on how it is written. -/
theorem fits_object_of_equiv {h : Hierarchy} {t u : Ty} (htu : t.equiv u = true)
    (ht : fits h t object = true) : fits h u object = true := by
  induction t using members_induction generalizing u with
  | leaf t hm he =>
    cases t <;> cases u <;> simp_all [equiv, classKey?, fits, meets, fitsPlain, kind, members,
      elementType?]
  | arrayOf t _ => simp [fits, meets, equiv] at ht
  | compound c x y rest ih =>
    obtain ⟨x', y', rest', rfl, hp⟩ := equiv_compound_cases htu
    have hm := matched_of_pairOff hp
    cases c with
    | union =>
      refine fits_union_left.2 (Or.inr fun m' hm' => ?_)
      obtain ⟨m, hmem, hmm⟩ := hm.exists_left hm'
      refine ih m hmem hmm ?_
      rcases fits_union_left.1 ht with he | hall
      · simp [equiv] at he
      · exact hall m hmem
    | intersection =>
      obtain ⟨m, hmem, hfit⟩ := (fits_intersection_left rfl).1 ht
      obtain ⟨m', hmem', hmm⟩ := hm.exists_right hmem
      exact (fits_intersection_left rfl).2 ⟨m', hmem', ih m hmem hmm hfit⟩

theorem fits_object_congr {h : Hierarchy} {t u : Ty} (htu : t.equiv u = true) :
    fits h t object = fits h u object := by
  rw [Bool.eq_iff_iff]
  exact ⟨fits_object_of_equiv htu, fits_object_of_equiv (equiv_symm htu)⟩

end TypeRecovery.Ty
