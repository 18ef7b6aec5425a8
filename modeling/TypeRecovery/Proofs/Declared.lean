import TypeRecovery.Proofs.Flatness
import TypeRecovery.Proofs.Searches
import TypeRecovery.Recovery.Rules

/-!
# Declared types are clean

Every type that a declaration, a doc comment or a signature stands for is clean. A search for a
member brings up nothing that is not declared for some class or said by the signatures, so the types
of methods and properties are clean too.
-/
namespace TypeRecovery

theorem Declaration.clean_of_mem_keywords {e : String × Ty} (h : e ∈ keywords) : e.2.Clean := by
  simp only [keywords, List.mem_cons, List.not_mem_nil, or_false] at h
  rcases h with rfl | rfl | rfl | rfl | rfl | rfl | rfl | rfl | rfl | rfl | rfl | rfl | rfl | rfl |
    rfl | rfl | rfl
  case inr.inr.inr.inr.inr.inr.inr.inr.inr.inr.inr.inr.inr.inr.inl => exact Ty.clean_numeric
  case inr.inr.inr.inr.inr.inr.inr.inr.inr.inr.inr.inr.inr.inr.inr.inl => exact Ty.clean_mixed
  all_goals exact Ty.clean_of_leaf rfl rfl (by simp)

theorem Declaration.known_meaningOfName (chars : List Char) : (meaningOfName chars).Known := by
  unfold meaningOfName
  simp only
  cases h : keywords.lookup (Text.lower (String.ofList (chars.dropWhile (· == '\\')))) with
  | none => exact (Ty.clean_of_leaf rfl rfl (by simp)).known
  | some t =>
    obtain ⟨front, back, hk, -⟩ := List.lookup_eq_some_iff.1 h
    have hmem : (_, t) ∈ keywords := hk ▸ List.mem_append_right front List.mem_cons_self
    exact (clean_of_mem_keywords hmem).known

theorem Declaration.known_suffixed {t : Ty} (h : t.Known) (n : Nat) : (suffixed t n).Known := by
  induction n with
  | zero => exact h
  | succ n ih => exact Ty.known_arrayOf.2 ih

theorem Declaration.known_meaning (d : Declaration) : d.meaning.Known := by
  have pair {c : Combinator} {a b : Ty} (ha : a.Known) (hb : b.Known) :
      (Ty.compound c a b []).Known := by
    refine Ty.known_compound.2 fun m hm => ?_
    simp only [List.mem_cons, List.not_mem_nil, or_false] at hm
    rcases hm with rfl | rfl
    · exact ha
    · exact hb
  refine Declaration.meaning.induct (fun d => d.meaning.Known) (fun o => o.meaning.Known)
    (fun a => a.meaning.Known) ?_ ?_ ?_ ?_ ?_ ?_ d
  · intro d ih
    exact Ty.known_simplify (pair ih (Ty.clean_of_leaf rfl rfl (by simp)).known)
  · intro o ih
    exact ih
  · intro o c d iho ihd
    exact pair iho ihd
  · intro a n ih
    exact known_suffixed ih n
  · intro d ih
    exact ih
  · intro cs
    exact known_meaningOfName cs

theorem Ty.clean_declaredOrMixed (v : Value) : (declaredOrMixed v).Clean := by
  unfold declaredOrMixed
  split
  · rename_i t h
    cases v with
    | text s =>
      simp only [declared, ofText, ofTrimmed] at h
      split at h
      · simp at h
      · split at h
        · rename_i u hu
          split at hu
          · obtain rfl : _ = u := by simpa using hu
            obtain rfl : _ = t := by simpa using h
            exact clean_simplify (Declaration.known_meaning _)
          · simp at hu
        · simp at h
    | _ => simp [declared] at h
  · exact clean_mixed

theorem Ty.clean_ofTextOrMixed (s : String) : (ofTextOrMixed s).Clean := clean_declaredOrMixed _

theorem Ty.clean_of_ofValue {v : Value} {t : Ty} (h : ofValue v = .ok t) : t.Clean := by
  unfold ofValue at h
  split at h
  all_goals first
    | (obtain rfl := Except.ok.inj h; exact clean_of_leaf rfl rfl (by simp))
    | simp at h

theorem DocComment.clean_declaredType (tag : Tag) (comment : Option String) :
    (declaredType tag comment).Clean := by
  unfold declaredType
  split
  · exact Ty.clean_ofTextOrMixed _
  · exact Ty.clean_mixed

namespace Signatures

theorem clean_of_typeOf? {decl : Value} {t : Ty} (h : typeOf? decl = some t) : t.Clean := by
  unfold typeOf? at h
  split at h
  · obtain rfl : _ = t := by simpa using h
    exact Ty.clean_declaredOrMixed decl
  · simp at h

theorem clean_of_functionType? {s : Signatures} {name : Key} {t : Ty}
    (h : s.functionType? name = some t) : t.Clean := by
  obtain ⟨decl, -, ht⟩ := Option.bind_eq_some_iff.1 h
  exact clean_of_typeOf? ht

theorem clean_of_memberType? {s : Signatures} {kind : MemberKind} {cls member : Key} {t : Ty}
    (h : s.memberType? kind cls member = some t) : t.Clean := by
  obtain ⟨decl, -, ht⟩ := Option.bind_eq_some_iff.1 h
  exact clean_of_typeOf? ht

end Signatures

namespace Analysis

variable (a : Analysis)

theorem clean_refine {comment declared : Ty} (hc : comment.Clean) (hd : declared.Clean) :
    (a.refine comment declared).Clean := by
  unfold refine
  split
  · exact hc
  · exact hd

theorem clean_functionType (f : Routine) : (functionType f).Clean := by
  unfold functionType
  split
  · exact DocComment.clean_declaredType _ _
  · exact Ty.clean_ofTextOrMixed _

theorem clean_methodType (m : Routine) : (a.methodType m).Clean := by
  unfold methodType
  simp only
  split
  · exact DocComment.clean_declaredType _ _
  · split
    · exact DocComment.clean_declaredType _ _
    · exact Ty.clean_ofTextOrMixed _

theorem clean_of_propertyType? {p : Property} {t : Ty} (h : a.propertyType? p = some t) :
    t.Clean := by
  unfold propertyType? at h
  simp only at h
  have hdecl : ∀ u, (if p.declared == "" then none else some (Ty.ofTextOrMixed p.declared)) =
      some u → u.Clean := by
    intro u hu
    split at hu
    · simp at hu
    · obtain rfl : _ = u := by simpa using hu
      exact Ty.clean_ofTextOrMixed _
  split at h
  · exact hdecl t h
  · split at h
    · obtain rfl : _ = t := by simpa using h
      exact DocComment.clean_declaredType _ _
    · rename_i u hu
      obtain rfl : _ = t := by simpa using h
      exact a.clean_refine (DocComment.clean_declaredType _ _) (hdecl u hu)

theorem clean_parameterType (name declared : String) (fallback : Option OperandId)
    (comment : Option String) : (a.parameterType name declared fallback comment).Clean := by
  unfold parameterType
  simp only
  split
  · exact DocComment.clean_declaredType _ _
  · apply a.clean_refine (DocComment.clean_declaredType _ _)
    split
    · exact Ty.clean_combine (Ty.clean_ofTextOrMixed _) (Ty.clean_of_leaf rfl rfl (by simp))
    · exact Ty.clean_ofTextOrMixed _

theorem of_declared? {α β : Type} {f : List α → List β} {xs : List α} {ys : List β}
    (h : declared? f xs = some ys) : ys = f xs := by
  unfold declared? at h
  split at h
  · simp at h
  · simpa using h.symm

theorem clean_methodTypes (cls name : Key) : ∀ t ∈ a.methodTypes cls name, t.Clean := by
  apply Search.of_mem_find
  · intro c items h t ht
    obtain rfl := of_declared? h
    obtain ⟨m, -, rfl⟩ := List.mem_map.1 ht
    exact a.clean_methodType m
  · intro k t ht
    exact Signatures.clean_of_memberType? (Option.mem_toList.1 ht)

theorem clean_propertyTypes (cls name : Key) : ∀ t ∈ a.propertyTypes cls name, t.Clean := by
  apply Search.of_mem_find
  · intro c items h t ht
    obtain rfl := of_declared? h
    obtain ⟨p, -, hp⟩ := List.mem_filterMap.1 ht
    exact a.clean_of_propertyType? hp
  · intro k t ht
    exact Signatures.clean_of_memberType? (Option.mem_toList.1 ht)

theorem clean_callTypes (static : Bool) (cls name : Key) :
    ∀ t ∈ a.callTypes static cls name, t.Clean := by
  unfold callTypes
  simp only
  split
  · exact a.clean_methodTypes cls _
  · exact a.clean_methodTypes cls name

theorem clean_fetchTypes (static : Bool) (cls name : Key) :
    ∀ t ∈ a.fetchTypes static cls name, t.Clean := by
  unfold fetchTypes
  simp only
  split
  · exact a.clean_propertyTypes cls name
  · split
    · simp
    · exact a.clean_methodTypes cls _

/-- A constant that the signatures know has a clean type. -/
theorem clean_of_mem_constantSources {cls name : Key} {t : Ty}
    (h : .signature t ∈ a.constantSources cls name) : t.Clean := by
  have hall : ∀ s ∈ a.constantSources cls name, ∀ u, s = .signature u → u.Clean := by
    apply Search.of_mem_find
    · intro c items hi s hs u hu
      obtain rfl := of_declared? hi
      obtain ⟨d, -, rfl⟩ := List.mem_map.1 hs
      simp at hu
    · intro k s hs u hu
      obtain ⟨v, hv, rfl⟩ := Option.map_eq_some_iff.1 (Option.mem_toList.1 hs)
      obtain rfl : v = u := by simpa using hu
      exact Signatures.clean_of_memberType? hv
  exact hall _ h t rfl

end Analysis

end TypeRecovery
