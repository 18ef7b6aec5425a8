import TypeRecovery.Proofs.Promotion

/-!
# Where findings come from and how they end

What is found about an operand at the start depends on that operand alone. A type that is settled
later was answered by the rules from types that were settled before, and those stay. When a run
converges, the type of each operand is what is known of it at the end, settled or guessed.
-/
namespace TypeRecovery

theorem Finding.Same.isSettled {v w : Finding} (h : Finding.Same v w) :
    v.isSettled = w.isSettled := by
  cases h <;> rfl

theorem exists_of_rel_some {R : Ty → Ty → Prop} {o : Option Ty} {u : Ty}
    (h : Option.Rel R o (some u)) : ∃ t, o = some t ∧ R t u := by
  cases h with
  | some h => exact ⟨_, rfl, h⟩

theorem eq_none_of_rel_none {R : Ty → Ty → Prop} {o : Option Ty} (h : Option.Rel R none o) :
    o = none := by
  cases h
  rfl

/-- The type that rules come to, as an answer or as a guess. -/
def Outcome.type? : Outcome Ty → Option Ty
  | .answer t | .guess t => some t
  | _ => none

namespace Analysis

open Inquiry

variable {a : Analysis}

/-- The type that an operand comes with: its own, that of its class or that of its value. -/
def start? (a : Analysis) (x : OperandId) : Option Ty :=
  let o := a.graph.operand x
  if !o.type.isUnknown then some o.type
  else match o.objectClass?, o.literal? with
    | some cls, _ => some (Ty.declaredOrMixed cls)
    | none, some v => (Ty.ofValue v).toOption
    | none, none => none

/-- A type that an operand comes with is its own, or it is clean. -/
theorem start?_cases {x : OperandId} {t : Ty} (h : a.start? x = some t) :
    (a.graph.operand x).type = t ∧ t.isUnknown = false ∨ t.Clean := by
  unfold start? at h
  simp only at h
  split at h
  · rename_i hu
    obtain rfl := Option.some.inj h
    exact Or.inl ⟨rfl, by simpa using hu⟩
  · split at h
    · obtain rfl := Option.some.inj h
      exact Or.inr (Ty.clean_declaredOrMixed _)
    · rename_i v _ _
      cases hv : Ty.ofValue v with
      | error e => simp [hv, Except.toOption] at h
      | ok u =>
        obtain rfl : u = t := by simpa [hv, Except.toOption] using h
        exact Or.inr (Ty.clean_of_ofValue hv)
    · cases h

/-- Nothing is known of the operand at the start, but something may become known. -/
structure Open (a : Analysis) (x : OperandId) : Prop where
  mem : x ∈ a.operands
  start : a.start? x = none

theorem seedOne_start {f g : Findings} {x : OperandId} (h : a.seedOne f x = .ok g) :
    a.start? x = none ∧ g = f.add x ∨ ∃ t, a.start? x = some t ∧ g = f.settle x t := by
  unfold seedOne at h
  unfold start?
  simp only at h ⊢
  split at h
  · rename_i hu
    exact Or.inr ⟨_, by rw [if_pos hu], (Except.ok.inj h).symm⟩
  · rename_i hu
    rw [if_neg hu]
    cases hcls : (a.graph.operand x).objectClass? with
    | some cls =>
      simp only [hcls] at h
      exact Or.inr ⟨_, rfl, (Except.ok.inj h).symm⟩
    | none =>
      cases hv : (a.graph.operand x).literal? with
      | none =>
        simp only [hcls, hv] at h
        exact Or.inl ⟨rfl, (Except.ok.inj h).symm⟩
      | some v =>
        simp only [hcls, hv] at h
        split at h
        · rename_i t ht
          exact Or.inr ⟨t, by simp only [ht]; rfl, (Except.ok.inj h).symm⟩
        · cases h

/-- What seeding some operands leaves. -/
structure Seeded (a : Analysis) (xs : List OperandId) (f : Findings) : Prop where
  about : ∀ x, f.about x = if x ∈ xs then (a.start? x).elim .nothing .settled else .nothing
  keys : ∀ x, x ∈ f.table.keys ↔ x ∈ xs

theorem Seeded.seedOne {xs : List OperandId} {f g : Findings} {x : OperandId} (h : a.Seeded xs f)
    (hg : a.seedOne f x = .ok g) : a.Seeded (xs ++ [x]) g := by
  have hkeys {k : Option Finding → Finding} (y : OperandId) :
      y ∈ (f.table.alter x k).keys ↔ y ∈ xs ++ [x] := by
    rw [Table.keys_alter]
    split
    · rename_i hx
      rw [h.keys, List.mem_append, List.mem_singleton]
      exact ⟨Or.inl, fun hy => hy.elim id fun hyx => hyx ▸ (h.keys x).1 hx⟩
    · rw [List.mem_append, List.mem_append, h.keys]
  rcases seedOne_start hg with ⟨hs, rfl⟩ | ⟨t, hs, rfl⟩
  · refine ⟨fun y => ?_, hkeys⟩
    rw [Findings.about_add, h.about]
    by_cases hy : y = x
    · subst hy
      simp [hs]
    · simp [hy]
  · refine ⟨fun y => ?_, hkeys⟩
    rw [Findings.about_settle, h.about]
    by_cases hy : y = x
    · subst hy
      simp [hs]
    · simp [hy, Ne.symm hy]

theorem seeded_of_seed {f : Findings} (h : a.seed = .ok f) : a.Seeded a.operands f := by
  have hfold (xs done : List OperandId) (g : Findings) (hg : a.Seeded done g)
      (h : xs.foldlM a.seedOne g = .ok f) : a.Seeded (done ++ xs) f := by
    induction xs generalizing done g with
    | nil =>
      obtain rfl : g = f := Except.ok.inj h
      rwa [List.append_nil]
    | cons x xs ih =>
      rw [List.foldlM_cons] at h
      cases hx : a.seedOne g x with
      | error e => simp [hx, bind, Except.bind] at h
      | ok g' =>
        simp only [hx, bind, Except.bind] at h
        have := ih (done ++ [x]) g' (hg.seedOne hx) h
        rwa [List.append_assoc] at this
  refine hfold a.operands [] .empty ⟨fun x => ?_, fun x => ?_⟩ h
  · simp [Findings.about, Findings.empty, Table.get?, Table.empty, Table.lookupIn]
  · simp [Findings.empty, Table.empty, Table.keys]

/-- Whether an operand can be entered does not depend on those that came before. -/
theorem exists_seedOne {f f' g : Findings} {x : OperandId} (h : a.seedOne f x = .ok g) :
    ∃ g', a.seedOne f' x = .ok g' := by
  unfold seedOne at h ⊢
  simp only at h ⊢
  by_cases hu : (!(a.graph.operand x).type.isUnknown) = true
  · exact ⟨_, if_pos hu⟩
  · rw [if_neg hu] at h ⊢
    cases hcls : (a.graph.operand x).objectClass? with
    | some cls => exact ⟨_, rfl⟩
    | none =>
      cases hv : (a.graph.operand x).literal? with
      | none => exact ⟨_, rfl⟩
      | some v =>
        cases ht : Ty.ofValue v with
        | ok t => exact ⟨f'.settle x t, by simp only [ht]⟩
        | error p => simp [hcls, hv, ht] at h

theorem exists_seedOne_of_mem {xs : List OperandId} {f g : Findings}
    (h : xs.foldlM a.seedOne f = .ok g) {x : OperandId} (hx : x ∈ xs) (f' : Findings) :
    ∃ g', a.seedOne f' x = .ok g' := by
  induction xs generalizing f with
  | nil => cases hx
  | cons z xs ih =>
    rw [List.foldlM_cons] at h
    cases hz : a.seedOne f z with
    | error e => simp [hz, bind, Except.bind] at h
    | ok f₁ =>
      simp only [hz, bind, Except.bind] at h
      rcases List.mem_cons.1 hx with rfl | hx
      · exact exists_seedOne hz
      · exact ih h hx

/-- Operands of which each can be entered can be entered one after the other. -/
theorem exists_foldlM_seedOne {xs : List OperandId}
    (h : ∀ x ∈ xs, ∀ f', ∃ g', a.seedOne f' x = .ok g') (f : Findings) :
    ∃ g, xs.foldlM a.seedOne f = .ok g := by
  induction xs generalizing f with
  | nil => exact ⟨f, rfl⟩
  | cons x xs ih =>
    obtain ⟨f₁, hf₁⟩ := h x List.mem_cons_self f
    obtain ⟨g, hg⟩ := ih (fun y hy => h y (List.mem_cons_of_mem x hy)) f₁
    refine ⟨g, ?_⟩
    simp only [List.foldlM_cons, hf₁, bind, Except.bind]
    exact hg

/-- Operands can be entered in any order. -/
theorem exists_seeding {xs ys : List OperandId} {f f' g : Findings}
    (h : xs.foldlM a.seedOne f = .ok g) (hys : ∀ y ∈ ys, y ∈ xs) :
    ∃ g', ys.foldlM a.seedOne f' = .ok g' :=
  exists_foldlM_seedOne (fun y hy => exists_seedOne_of_mem h (hys y hy)) f'

theorem Seeded.start?_of_settled {xs : List OperandId} {f : Findings} (h : a.Seeded xs f)
    {x : OperandId} {t : Ty} (hx : f.about x = .settled t) : x ∈ xs ∧ a.start? x = some t := by
  rw [h.about] at hx
  split at hx
  · rename_i hmem
    cases hs : a.start? x with
    | none => simp [hs] at hx
    | some s => exact ⟨hmem, by simpa [hs] using hx⟩
  · cases hx

theorem Meets.mem_keys {f : Findings} (h : a.Meets f) (x : OperandId) :
    x ∈ f.table.keys ↔ x ∈ a.operands := by
  induction h with
  | seed h => exact (seeded_of_seed h).keys x
  | attempt _ hk hx h ih => rw [(attempt_spec h hx).keys hk, ih]
  | count _ ih => exact ih

theorem Meets.about_of_not_mem {f : Findings} (h : a.Meets f) {x : OperandId}
    (hx : x ∉ a.operands) : f.about x = .nothing :=
  Findings.about_of_not_mem (mt (h.mem_keys x).1 hx)

/-- What is settled stays. -/
theorem AttemptSpec.settled {f g : Findings} {x y : OperandId} {settled : Bool} {t : Ty}
    (h : AttemptSpec a f x g settled) (hx : (f.about x).isSettled = false)
    (hy : f.about y = .settled t) : g.about y = .settled t := by
  rw [h.others y, hy]
  rintro rfl
  rw [hy] at hx
  cases hx

theorem Meets.about_of_start {f : Findings} (h : a.Meets f) {x : OperandId} {t : Ty}
    (hx : x ∈ a.operands) (hs : a.start? x = some t) : f.about x = .settled t := by
  induction h with
  | seed h => rw [(seeded_of_seed h).about, if_pos hx, hs, Option.elim_some]
  | attempt _ _ hx h ih => exact (attempt_spec h hx).settled hx ih
  | count _ ih => exact ih

theorem Meets.start?_of_pending {f : Findings} (h : a.Meets f) {x : OperandId}
    (hk : x ∈ f.table.keys) (hx : (f.about x).isSettled = false) : a.start? x = none := by
  cases hs : a.start? x with
  | none => rfl
  | some s =>
    rw [h.about_of_start ((h.mem_keys x).1 hk) hs] at hx
    cases hx

/-- The rules answer `t` for `x` from what is settled in `f`, and miss nothing else than what `known`
does not tell. -/
def AnsweredBy (a : Analysis) (f : Findings) (x : OperandId) (t : Ty)
    (known : OperandId → Option Ty) : Prop :=
  (a.inquiry x).outcome known = .answer t ∧
    ∀ y ∈ (a.inquiry x).asked known, known y = none ∨ ∃ s, known y = some s ∧ f.about y = .settled s

theorem answeredBy_of_attempted {f : Findings} {x : OperandId} {t : Ty}
    (h : a.Attempted f x (.settled t)) (hx : (f.about x).isSettled = false) :
    a.AnsweredBy f x t f.known? := by
  unfold Attempted at h
  split at h
  · rename_i u hu
    split at h
    · cases h
    · rename_i hguess
      obtain rfl : t = u := by simpa using h
      refine ⟨hu, fun y hy => ?_⟩
      have hnoguess : (f.about y).isGuess = false := by
        simpa using List.any_eq_false.1 (by simpa [hearsGuess] using hguess) y hy
      rw [Findings.known?]
      cases hfy : f.about y with
      | nothing => exact Or.inl rfl
      | guess u => simp [hfy, Finding.isGuess] at hnoguess
      | settled u => exact Or.inr ⟨u, rfl, rfl⟩
  · rw [← h] at hx
    cases hx
  · cases h
  · exact h.elim

/-- A type that is settled was there at the start, or the rules answered it from settled types. -/
theorem Meets.origin {f : Findings} (h : a.Meets f) {x : OperandId} {t : Ty}
    (hx : f.about x = .settled t) :
    x ∈ a.operands ∧ (a.start? x = some t ∨
      a.start? x = none ∧ ∃ f₀, a.Meets f₀ ∧ a.AnsweredBy f x t f₀.known?) := by
  induction h generalizing x t with
  | seed h =>
    obtain ⟨hmem, hs⟩ := (seeded_of_seed h).start?_of_settled hx
    exact ⟨hmem, Or.inl hs⟩
  | @attempt f g z settled hf hk hz hg ih =>
    have hspec := attempt_spec hg hz
    have hold {y : OperandId} {s : Ty} {known : OperandId → Option Ty}
        (h : a.AnsweredBy f y s known) : a.AnsweredBy g y s known :=
      ⟨h.1, fun w hw => (h.2 w hw).imp_right fun ⟨u, hu, hfu⟩ => ⟨u, hu, hspec.settled hz hfu⟩⟩
    by_cases hxz : x = z
    · subst hxz
      have hmem := (hf.mem_keys x).1 hk
      have hattempted := hspec.attempted
      rw [hx] at hattempted
      exact ⟨hmem, Or.inr ⟨hf.start?_of_pending hk hz, f, hf,
        hold (answeredBy_of_attempted hattempted hz)⟩⟩
    · rw [hspec.others x hxz] at hx
      obtain ⟨hmem, horigin⟩ := ih hx
      exact ⟨hmem, horigin.imp_right fun ⟨hs, f₀, hf₀, hknown⟩ => ⟨hs, f₀, hf₀, hold hknown⟩⟩
  | count _ ih => exact ih hx

/-- Rules that do not wait leave the type that they come to. -/
theorem type?_of_attempted {f : Findings} {x : OperandId} {v : Finding} (h : a.Attempted f x v)
    (hwait : (a.inquiry x).outcome f.known? ≠ .wait) :
    ∃ t, ((a.inquiry x).outcome f.known?).type? = some t ∧ v.known? = some t := by
  unfold Attempted at h
  split at h
  · rename_i t ht
    refine ⟨t, by rw [ht]; rfl, ?_⟩
    rw [h]
    split <;> rfl
  · rename_i ho
    exact absurd ho hwait
  · rename_i t ht
    exact ⟨t, by rw [ht]; rfl, by rw [h]; rfl⟩
  · exact h.elim

/-- What is known of an operand at any time was there at the start, or the rules came to it from what
was known before. -/
theorem Meets.known_induction {P : OperandId → Ty → Prop}
    (start : ∀ x t, x ∈ a.operands → a.start? x = some t → P x t)
    (rule : ∀ f g x t, a.Meets f → a.Meets g → a.Open x → g.known? x = some t →
      (∀ y s, f.known? y = some s → P y s) → ((a.inquiry x).outcome f.known?).type? = some t →
      P x t)
    {f : Findings} (hf : a.Meets f) {x : OperandId} {t : Ty} (hx : f.known? x = some t) : P x t := by
  induction hf generalizing x t with
  | seed h =>
    rcases (seed_spec h).about x with hn | ⟨u, hu, -⟩
    · simp [Findings.known?, hn, Finding.known?] at hx
    · obtain rfl : u = t := by simpa [Findings.known?, hu, Finding.known?] using hx
      obtain ⟨hmem, hs⟩ := (seeded_of_seed h).start?_of_settled hu
      exact start x u hmem hs
  | @attempt f g z settled hf hk hz hg ih =>
    have hspec := attempt_spec hg hz
    by_cases hxz : x = z
    · subst hxz
      by_cases hwait : (a.inquiry x).outcome f.known? = .wait
      · have hattempted := hspec.attempted
        rw [Attempted, hwait] at hattempted
        rw [Findings.known?, hattempted] at hx
        exact ih hx
      · obtain ⟨u, hu, hv⟩ := type?_of_attempted hspec.attempted hwait
        obtain rfl : u = t := Option.some.inj (hv.symm.trans hx)
        have hopen : a.Open x := ⟨(hf.mem_keys x).1 hk, hf.start?_of_pending hk hz⟩
        exact rule f g x u hf (.attempt hf hk hz hg) hopen hx (fun _ _ => ih) hu
    · rw [Findings.known?, hspec.others x hxz] at hx
      exact ih hx
  | count _ ih => exact ih hx

/-- The findings at the end: nothing is pending, or a round without progress leaves them. -/
inductive Ends (a : Analysis) : Findings → Prop
  | done {n : Nat} {g : Findings} (hg : a.Reaches n g) (hp : g.pending = []) : Ends a g
  | stalled {n : Nat} {f g : Findings} (hf : a.Reaches n f) (h : a.Stalls f g) : Ends a g

theorem Ends.meets {g : Findings} (h : a.Ends g) : a.Meets g := by
  cases h with
  | done hg _ => exact hg.meets
  | stalled hf h => exact (h.spec hf).1

/-- What is not settled at the end is what a last attempt left, made with findings that are the same
as those at the end. -/
theorem Ends.attempted {g : Findings} (h : a.Ends g) {x : OperandId} (hx : x ∈ a.operands)
    (hs : (g.about x).isSettled = false) :
    ∃ f, a.Meets f ∧ (∀ y, Finding.Same (f.about y) (g.about y)) ∧ a.Attempted f x (g.about x) := by
  cases h with
  | done hg hp =>
    have hpending := (Findings.mem_pending hg.meets.nodup).2 ⟨(hg.meets.mem_keys x).2 hx, hs⟩
    rw [hp] at hpending
    cases hpending
  | @stalled n f g hf h =>
    obtain ⟨-, hspec, hsame⟩ := h.spec hf
    have hpending : x ∈ f.pending := by
      rw [Findings.mem_pending hf.meets.nodup, (hsame x).isSettled]
      exact ⟨(hf.meets.mem_keys x).2 hx, hs⟩
    obtain ⟨f', hf', hmix, -, hattempted⟩ := hspec.attempted hf.meets.nodup hpending
    refine ⟨f', hf', fun y => ?_, hattempted⟩
    rcases hmix y with hy | hy
    · exact hy ▸ hsame y
    · exact hy ▸ .refl _

/-- Where nothing is pending, no guess is left. -/
theorem Meets.promote_of_done {f : Findings} (h : a.Meets f) (hp : f.pending = []) (x : OperandId) :
    (f.about x).promote = f.about x := by
  cases hx : f.about x with
  | guess t =>
    have hmem := Findings.mem_pending_of_guess h.nodup hx
    rw [hp] at hmem
    cases hmem
  | _ => rfl

theorem ends_of_solve {n limit : Nat} {f : Findings} {e : Ending} (hf : a.Reaches n f)
    (h : a.solve limit f = .ok e) (hc : e.converged = true) :
    ∃ g, a.Ends g ∧ ∀ x, e.findings.about x = (g.about x).promote := by
  induction limit generalizing n f e with
  | zero =>
    obtain rfl := Except.ok.inj h
    have hp : f.pending = [] := by simpa using hc
    exact ⟨f, .done hf hp, fun x => (hf.meets.promote_of_done hp x).symm⟩
  | succ limit ih =>
    rcases solve_cases h with ⟨hp, rfl⟩ | ⟨hp, g, k, hg, hrest⟩
    · exact ⟨f, .done hf hp, fun x => (hf.meets.promote_of_done hp x).symm⟩
    rcases hrest with ⟨⟨rfl, hchanges⟩, rfl⟩ | ⟨hprogress, e', he, rfl⟩
    · refine ⟨g, .stalled hf ⟨hp, hg, hchanges⟩, fun x => ?_⟩
      rw [Findings.about_promote, Findings.about_takeChanges]
    · exact ih (e := e') (.round hf hp hg hprogress) he hc

theorem analysis_of_run {r : Recovery} (h : Recovery.run a = .ok r) : r.analysis = a := by
  obtain ⟨f₀, hs, hsolve⟩ := solve_of_run h
  simp only [Recovery.run, hs, bind, Except.bind, hsolve] at h
  rw [← Except.ok.inj h]

/-- The type of each operand is what is known of it at the end. -/
theorem ends_of_run {r : Recovery} (h : Recovery.run a = .ok r) (hc : r.converged = true) :
    ∃ g, a.Ends g ∧ ∀ x, r.typeOf x = (g.known? x).getD .unknown := by
  obtain ⟨f₀, hs, hsolve⟩ := solve_of_run h
  obtain ⟨g, hg, hfindings⟩ := ends_of_solve (.seed hs) hsolve hc
  refine ⟨g, hg, fun x => ?_⟩
  rw [Recovery.typeOf, analysis_of_run h]
  split
  · rw [Findings.final, Findings.settled?, hfindings, Findings.known?]
    cases g.about x <;> rfl
  · rename_i hx
    rw [Findings.known?, hg.meets.about_of_not_mem hx]
    rfl

end Analysis

end TypeRecovery
