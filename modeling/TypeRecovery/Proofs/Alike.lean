import Mathlib.Data.List.Forall2
import TypeRecovery.Recovery.Inquiry

/-!
# Inquiries that come to related outcomes

Two inquiries, each with its own knowledge, are alike when their outcomes are of the same sort and
hold related results. Alikeness is kept by everything inquiries are put together from.
-/
namespace TypeRecovery

variable {α β γ δ : Type}

/-- Outcomes of the same sort, with results related by `R` and guesses related by `G`. -/
inductive Outcome.Rel (R : α → β → Prop) (G : Ty → Ty → Prop) : Outcome α → Outcome β → Prop
  | answer {a : α} {b : β} (h : R a b) : Rel R G (.answer a) (.answer b)
  | wait : Rel R G .wait .wait
  | guess {t u : Ty} (h : G t u) : Rel R G (.guess t) (.guess u)
  | fault (f : Fault) : Rel R G (.fault f) (.fault f)

theorem Outcome.Rel.mono {R S : α → β → Prop} {G : Ty → Ty → Prop} {o : Outcome α} {p : Outcome β}
    (h : Rel R G o p) (hRS : ∀ a b, R a b → S a b) : Rel S G o p := by
  cases h with
  | answer h => exact .answer (hRS _ _ h)
  | wait => exact .wait
  | guess h => exact .guess h
  | fault f => exact .fault f

namespace Inquiry

instance : LawfulMonad Inquiry :=
  LawfulMonad.mk' Inquiry
    (by
      intro α i
      induction i with
      | ask x next ih => exact congrArg (ask x) (funext ih)
      | _ => rfl)
    (fun _ _ => rfl)
    (by
      intro α β γ i k l
      induction i with
      | ask x next ih => exact congrArg (ask x) (funext ih)
      | _ => rfl)

def Alike (R : α → β → Prop) (G : Ty → Ty → Prop) (known known' : OperandId → Option Ty)
    (i : Inquiry α) (j : Inquiry β) : Prop :=
  Outcome.Rel R G (i.outcome known) (j.outcome known')

variable {R : α → β → Prop} {S : γ → δ → Prop} {G K : Ty → Ty → Prop}
  {known known' : OperandId → Option Ty}

theorem alike_answer {a : α} {b : β} (h : R a b) :
    Alike R G known known' (answer a) (answer b) :=
  .answer h

theorem Alike.mono {S : α → β → Prop} {i : Inquiry α} {j : Inquiry β}
    (h : Alike R G known known' i j) (hRS : ∀ a b, R a b → S a b) : Alike S G known known' i j :=
  Outcome.Rel.mono h hRS

theorem Alike.bind {i : Inquiry α} {j : Inquiry β} {k : α → Inquiry γ} {l : β → Inquiry δ}
    (h : Alike R G known known' i j) (hk : ∀ a b, R a b → Alike S G known known' (k a) (l b)) :
    Alike S G known known' (i >>= k) (j >>= l) := by
  unfold Alike at h ⊢
  rw [outcome_bind, outcome_bind]
  generalize i.outcome known = o at h ⊢
  generalize j.outcome known' = p at h ⊢
  cases h with
  | answer h => exact hk _ _ h
  | wait => exact .wait
  | guess h => exact .guess h
  | fault f => exact .fault f

/-- The last step of a rule puts a result together. -/
theorem Alike.map {i : Inquiry α} {j : Inquiry β} {f : α → γ} {g : β → δ}
    (h : Alike R G known known' i j) (hfg : ∀ a b, R a b → S (f a) (g b)) :
    Alike S G known known' (i >>= fun a => pure (f a)) (j >>= fun b => pure (g b)) :=
  h.bind fun _ _ hab => alike_answer (hfg _ _ hab)

theorem alike_ofOption {a : Option α} {b : Option β} (h : Option.Rel R a b) :
    Alike R G known known' (ofOption a) (ofOption b) := by
  cases h with
  | some h => exact .answer h
  | none => exact .wait

theorem alike_known? (hk : ∀ x, Option.Rel K (known x) (known' x)) (x : Option OperandId) :
    Alike (Option.Rel K) G known known' (known? x) (known? x) := by
  cases x with
  | none => exact .answer .none
  | some x => exact .answer (hk x)

theorem alike_known (hk : ∀ x, Option.Rel K (known x) (known' x)) (x : Option OperandId) :
    Alike K G known known' (Inquiry.known x) (Inquiry.known x) := by
  refine (alike_known? hk x).bind fun t u htu => ?_
  cases htu with
  | some h => exact .answer h
  | none => exact .wait

/-- The same questions about the same things. -/
theorem alike_mapM_self {f : γ → Inquiry α} {g : γ → Inquiry β} (xs : List γ)
    (hfg : ∀ x ∈ xs, Alike R G known known' (f x) (g x)) :
    Alike (List.Forall₂ R) G known known' (xs.mapM f) (xs.mapM g) := by
  induction xs with
  | nil =>
    rw [List.mapM_nil, List.mapM_nil]
    exact .answer .nil
  | cons x xs ih =>
    rw [List.mapM_cons, List.mapM_cons]
    refine (hfg x List.mem_cons_self).bind fun a b hab => ?_
    exact (ih fun y hy => hfg y (List.mem_cons_of_mem x hy)).map fun as bs habs => .cons hab habs

theorem outcome_mapFault (g : Fault → Fault) (i : Inquiry α) :
    (i.mapFault g).outcome known = match i.outcome known with
      | .fault f => .fault (g f)
      | o => o := by
  induction i with
  | ask x next ih => exact ih (known x)
  | _ => rfl

theorem Alike.mapFault {i : Inquiry α} {j : Inquiry β} (h : Alike R G known known' i j)
    (g : Fault → Fault) : Alike R G known known' (i.mapFault g) (j.mapFault g) := by
  unfold Alike at h ⊢
  rw [outcome_mapFault, outcome_mapFault]
  generalize i.outcome known = o at h ⊢
  generalize j.outcome known' = p at h ⊢
  cases h with
  | answer h => exact .answer h
  | wait => exact .wait
  | guess h => exact .guess h
  | fault f => exact .fault (g f)

/-- Where every inquiry answers, so do all of them together. -/
theorem outcome_mapM {f : γ → Inquiry α} {xs : List γ} {as : List α}
    (h : List.Forall₂ (fun x a => (f x).outcome known = .answer a) xs as) :
    (xs.mapM f).outcome known = .answer as := by
  induction h with
  | nil =>
    rw [List.mapM_nil]
    rfl
  | cons hx _ ih =>
    simp only [List.mapM_cons, outcome_bind, hx, ih]
    rfl

theorem outcome_known? (x : Option OperandId) :
    (known? x).outcome known = .answer (x.bind known) := by
  cases x <;> rfl

/-- The inquiry cannot fail and makes no guess. -/
def Plain (known : OperandId → Option Ty) (i : Inquiry α) : Prop :=
  (∃ a, i.outcome known = .answer a) ∨ i.outcome known = .wait

theorem outcome_rel_refl (o : Outcome (List α)) : Outcome.Rel List.Perm Eq o o := by
  cases o with
  | answer as => exact .answer (List.Perm.refl as)
  | wait => exact .wait
  | guess t => exact .guess rfl
  | fault f => exact .fault f

theorem outcome_rel_trans {o p q : Outcome (List α)} (h : Outcome.Rel List.Perm Eq o p)
    (h' : Outcome.Rel List.Perm Eq p q) : Outcome.Rel List.Perm Eq o q := by
  cases h with
  | answer h => cases h' with | answer h' => exact .answer (h.trans h')
  | wait => exact h'
  | guess h => exact h ▸ h'
  | fault f => exact h'

/-- Inquiries that can only answer or wait may be made in any order. -/
theorem alike_mapM_perm {f : γ → Inquiry α} (hf : ∀ c, Plain known (f c)) {xs ys : List γ}
    (h : xs.Perm ys) : Alike List.Perm Eq known known (xs.mapM f) (ys.mapM f) := by
  induction h with
  | nil => exact outcome_rel_refl _
  | cons x _ ih =>
    unfold Alike at ih ⊢
    rw [List.mapM_cons, List.mapM_cons, outcome_bind, outcome_bind]
    rcases hf x with ⟨a, ha⟩ | hw
    · simp only [ha]
      exact Alike.map ih fun as bs hab => hab.cons a
    · simp only [hw]
      exact .wait
  | swap x y l =>
    unfold Alike
    simp only [List.mapM_cons, outcome_bind]
    rcases hf x with ⟨a, ha⟩ | hw <;> rcases hf y with ⟨b, hb⟩ | hw'
    · simp only [ha, hb]
      cases (l.mapM f).outcome known with
      | answer as => exact .answer (List.Perm.swap a b as)
      | wait => exact .wait
      | guess t => exact .guess rfl
      | fault e => exact .fault e
    · simp only [ha, hw']
      exact .wait
    · simp only [hw, hb]
      exact .wait
    · simp only [hw, hw']
      exact .wait
  | trans _ _ ih ih' => exact outcome_rel_trans ih ih'

theorem Alike.comp {S : List β → List β → Prop} {R : List α → List β → Prop}
    {i : Inquiry (List α)} {j k : Inquiry (List β)} (h : Alike R G known known' i j)
    (h' : Alike S Eq known' known' j k) :
    Alike (fun as cs => ∃ bs, R as bs ∧ S bs cs) G known known' i k := by
  unfold Alike at h h' ⊢
  generalize i.outcome known = o at h ⊢
  generalize j.outcome known' = p at h h'
  generalize k.outcome known' = q at h' ⊢
  cases h with
  | answer h => cases h' with | answer h' => exact .answer ⟨_, h, h'⟩
  | wait => cases h' with | wait => exact .wait
  | guess h => cases h' with | guess h' => exact .guess (h' ▸ h)
  | fault f => cases h' with | fault => exact .fault f

theorem plain_mapM {f : γ → Inquiry α} {xs : List γ} (hf : ∀ x ∈ xs, Plain known (f x)) :
    Plain known (xs.mapM f) := by
  induction xs with
  | nil => exact Or.inl ⟨[], by rw [List.mapM_nil]; rfl⟩
  | cons x xs ih =>
    rw [Plain, List.mapM_cons, outcome_bind]
    rcases hf x List.mem_cons_self with ⟨a, ha⟩ | hw
    · simp only [ha, outcome_bind]
      rcases ih fun y hy => hf y (List.mem_cons_of_mem x hy) with ⟨as, has⟩ | hw
      · exact Or.inl ⟨a :: as, by simp only [has]; rfl⟩
      · exact Or.inr (by simp only [hw])
    · exact Or.inr (by simp only [hw])

end Inquiry

end TypeRecovery
