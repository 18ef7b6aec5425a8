import TypeRecovery.Proofs.ClassHierarchy
import TypeRecovery.Proofs.Declared

/-!
# Which methods are found

A method of a class is looked up in the program and the signatures together. The search passes from
a class to the traits it uses and to the class it extends, from a trait to the traits it uses, and
from an interface to those it extends; classes may be declared more than once and extend each other
in a circle. It comes to an end, and something is found exactly if one of the names on the way has a
definition. Only where none has, the method that catches calls of missing methods is asked for.
-/
namespace TypeRecovery.Analysis

open Relation

/-- A search for a member goes on from one name to the other. -/
inductive LooksIn (a : Analysis) : Key → Key → Prop
  | classTrait {head : Head} {name trait : String} {parent : Option String}
      {interfaces traits : List String} {body : List Op}
      (hop : .classLike head name (.ofClass parent interfaces traits) body ∈ a.visited)
      (ht : trait ∈ traits) (hon : a.settings.traitMembers = true) :
      a.LooksIn (Key.of name) (Key.of trait)
  | classParent {head : Head} {name parent : String} {interfaces traits : List String}
      {body : List Op}
      (hop : .classLike head name (.ofClass (some parent) interfaces traits) body ∈ a.visited) :
      a.LooksIn (Key.of name) (Key.of parent)
  | traitTrait {head : Head} {name trait : String} {traits : List String} {body : List Op}
      (hop : .classLike head name (.ofTrait traits) body ∈ a.visited) (ht : trait ∈ traits)
      (hon : a.settings.traitMembers = true) : a.LooksIn (Key.of name) (Key.of trait)
  | interfaceParent {head : Head} {name parent : String} {parents : List String} {body : List Op}
      (hop : .classLike head name (.ofInterface parents) body ∈ a.visited) (hp : parent ∈ parents) :
      a.LooksIn (Key.of name) (Key.of parent)

/-- A class-like of the name declares the method, or the signatures give it a type. -/
def DefinesMethod (a : Analysis) (m k : Key) : Prop :=
  (∃ head name heritage body mhead f, .classLike head name heritage body ∈ a.visited ∧
    Key.of name = k ∧ .method mhead f ∈ body ∧ Key.of (a.graph.func f).name = m) ∨
  a.signatures.memberType? .method k m ≠ none

/-- A definition of the method can be got to from the class. -/
def HasMethod (a : Analysis) (cls m : Key) : Prop :=
  ∃ k, ReflTransGen a.LooksIn cls k ∧ a.DefinesMethod m k

/-- The search for a method. -/
def methodSearch (a : Analysis) (m : Key) : Search Ty where
  own? := fun c => declared? (·.map a.methodType) (c.methodsNamed m)
  signature := fun k => (a.signatures.memberType? .method k m).toList
  inTraits := a.settings.traitMembers

variable {a : Analysis}

theorem find_methodSearch (cls m : Key) :
    (a.methodSearch m).find a.index cls = a.methodTypes cls m := rfl

theorem declared?_ne_none_iff {α β : Type} {f : List α → List β} {xs : List α} :
    declared? f xs ≠ none ↔ xs ≠ [] := by
  simp [declared?]

theorem own?_methodSearch_ne_nil (m : Key) (c : ClassLike) :
    (a.methodSearch m).own? c ≠ some [] := by
  intro h
  have hne : c.methodsNamed m ≠ [] := declared?_ne_none_iff.1 (ne_of_eq_of_ne h (by simp))
  exact hne (List.map_eq_nil_iff.1 (of_declared? h).symm)

theorem mem_classesNamed_iff (hi : Index.build a.graph a.visited = .ok a.index) {k : Key}
    {c : ClassLike} : c ∈ a.index.classesNamed k ↔
      ∃ head name heritage body, .classLike head name heritage body ∈ a.visited ∧ Key.of name = k ∧
        Index.classLikeOf a.graph (.classLike head name heritage body) = .ok c := by
  rw [Index.mem_classesNamed hi, Index.mem_classLikes hi]
  constructor
  · rintro ⟨⟨head, name, heritage, body, hop, hc⟩, hk⟩
    obtain rfl := Except.ok.inj hc
    exact ⟨head, name, heritage, body, hop, hk, rfl⟩
  · rintro ⟨head, name, heritage, body, hop, hk, hc⟩
    obtain rfl := Except.ok.inj hc
    exact ⟨⟨head, name, heritage, body, hop, rfl⟩, hk⟩

theorem step_methodSearch_iff (hi : Index.build a.graph a.visited = .ok a.index) {m k k' : Key} :
    (a.methodSearch m).Step a.index k k' ↔ a.LooksIn k k' := by
  have hon : (a.methodSearch m).inTraits = a.settings.traitMembers := rfl
  simp only [Search.Step, mem_classesNamed_iff hi, Search.nextOf, List.mem_append,
    Search.mem_traitsOf, hon, Search.parentsOf]
  constructor
  · rintro ⟨c, ⟨head, name, heritage, body, hop, rfl, hc⟩, hk⟩
    obtain rfl := Except.ok.inj hc
    rcases hk with ⟨hon, hk⟩ | hk
    · obtain ⟨t, ht, rfl⟩ := List.mem_map.1 hk
      cases heritage with
      | ofClass parent interfaces traits => exact .classTrait hop ht hon
      | ofTrait traits => exact .traitTrait hop ht hon
      | ofInterface parents => exact absurd ht List.not_mem_nil
    · obtain ⟨p, hp, rfl⟩ := List.mem_map.1 hk
      cases heritage with
      | ofClass parent interfaces traits =>
        obtain rfl := Option.mem_toList.1 hp
        exact .classParent hop
      | ofTrait traits => exact absurd hp List.not_mem_nil
      | ofInterface parents => exact .interfaceParent hop hp
  · intro h
    cases h with
    | classTrait hop ht hon =>
      exact ⟨_, ⟨_, _, _, _, hop, rfl, rfl⟩, Or.inl ⟨hon, List.mem_map_of_mem ht⟩⟩
    | @classParent _ _ parent _ _ _ hop =>
      have hp : parent ∈ (some parent).toList := List.mem_singleton_self parent
      exact ⟨_, ⟨_, _, _, _, hop, rfl, rfl⟩, Or.inr (List.mem_map_of_mem hp)⟩
    | traitTrait hop ht hon =>
      exact ⟨_, ⟨_, _, _, _, hop, rfl, rfl⟩, Or.inl ⟨hon, List.mem_map_of_mem ht⟩⟩
    | interfaceParent hop hp =>
      exact ⟨_, ⟨_, _, _, _, hop, rfl, rfl⟩, Or.inr (List.mem_map_of_mem hp)⟩

theorem answers_methodSearch_iff (hi : Index.build a.graph a.visited = .ok a.index) {m k : Key} :
    (a.methodSearch m).Answers a.index k ↔ a.DefinesMethod m k := by
  have hsig : (a.methodSearch m).signature k ≠ [] ↔ a.signatures.memberType? .method k m ≠ none := by
    simp [methodSearch]
  rw [Search.Answers, DefinesMethod, hsig]
  refine or_congr_left ?_
  constructor
  · rintro ⟨c, hc, hown⟩
    obtain ⟨head, name, heritage, body, hop, hk, hc⟩ := (mem_classesNamed_iff hi).1 hc
    obtain ⟨r, hr⟩ := List.exists_mem_of_ne_nil _ (declared?_ne_none_iff.1 hown)
    obtain ⟨mhead, f, hm, -, hf⟩ := (Index.mem_methodsNamed hc).1 hr
    exact ⟨head, name, heritage, body, mhead, f, hop, hk, hm, hf⟩
  · rintro ⟨head, name, heritage, body, mhead, f, hop, hk, hm, hf⟩
    obtain ⟨c, hc⟩ : ∃ c, Index.classLikeOf a.graph (.classLike head name heritage body) = .ok c :=
      ⟨_, rfl⟩
    have hr := (Index.mem_methodsNamed hc).2 ⟨mhead, f, hm, rfl, hf⟩
    refine ⟨c, (mem_classesNamed_iff hi).2 ⟨head, name, heritage, body, hop, hk, hc⟩, ?_⟩
    exact declared?_ne_none_iff.2 (List.ne_nil_of_mem hr)

theorem methodTypes_ne_nil_iff (hi : Index.build a.graph a.visited = .ok a.index) {cls m : Key} :
    a.methodTypes cls m ≠ [] ↔ a.HasMethod cls m := by
  have hstep : (a.methodSearch m).Step a.index = a.LooksIn := by
    funext k k'
    exact propext (step_methodSearch_iff hi)
  rw [← find_methodSearch, Search.find_ne_nil_iff (own?_methodSearch_ne_nil m), hstep]
  exact exists_congr fun k => and_congr_right fun _ => answers_methodSearch_iff hi

/-- The search for a method comes to an end, with one answer and without entering a name twice. The
answer is empty exactly if no definition can be got to, and exactly then a call falls back on the
method that catches calls of methods that do not exist. -/
theorem methodLookup_iff_hasMethod {g : Graph} {settings : Settings} {s : Signatures}
    (ha : Analysis.of g settings s = .ok a) (cls m : Key) :
    (∃ visited : List Key, visited.Nodup ∧ ∀ items after,
      (a.methodSearch m).Finds a.index (.name cls) [] items after ↔
        items = a.methodTypes cls m ∧ after = visited) ∧
    (a.methodTypes cls m ≠ [] ↔ a.HasMethod cls m) ∧
    ∀ static, (a.HasMethod cls m → a.callTypes static cls m = a.methodTypes cls m) ∧
      (¬a.HasMethod cls m → a.callTypes static cls m = a.methodTypes cls (catchAll static)) := by
  have hfound : a.methodTypes cls m ≠ [] ↔ a.HasMethod cls m :=
    methodTypes_ne_nil_iff (reads_of ha).index
  have hfinds := (a.methodSearch m).finds_inName a.index [] cls
  refine ⟨⟨_, hfinds.nodup List.nodup_nil, fun items after => ?_⟩, hfound, fun static => ?_⟩
  · constructor
    · exact fun h => h.unique hfinds
    · rintro ⟨rfl, rfl⟩
      exact hfinds
  · simp only [callTypes, List.isEmpty_iff]
    constructor
    · intro h
      rw [if_neg (hfound.2 h)]
    · intro h
      rw [if_pos (not_not.1 fun hne => h (hfound.1 hne))]

/-- Circles and a class that is declared twice. `A` and `B` extend each other, and so do the traits;
only the second declaration of `A` leads out. -/
def knotFirst : Op := .classLike {} "A" (.ofClass (some "B") [] ["T"]) []

def knotBack : Op := .classLike {} "B" (.ofClass (some "A") [] []) []

def knotSecond : Op := .classLike {} "a" (.ofClass (some "C") [] []) []

def knotOut : Op := .classLike {} "C" (.ofClass none [] []) [.method {} ⟨1⟩]

def knotTrait : Op := .classLike {} "T" (.ofTrait ["U"]) []

def knotOther : Op := .classLike {} "U" (.ofTrait ["T"]) []

def knotOps : List Op := [knotFirst, knotBack, knotSecond, knotOut, knotTrait, knotOther]

def knotGraph : Graph :=
  { operands := #[]
    funcs := #[{ name := "main", blocks := [knotOps] }, { name := "m", returns := "int" }]
    log := knotOps.toArray
    scripts := [{ file := "main", main := ⟨0⟩ }] }

def knotClasses : List ClassLike :=
  [⟨"A", .ofClass (some "B") [] ["T"], .empty, .empty, .empty⟩,
    ⟨"B", .ofClass (some "A") [] [], .empty, .empty, .empty⟩,
    ⟨"a", .ofClass (some "C") [] [], .empty, .empty, .empty⟩,
    ⟨"C", .ofClass none [] [], ⟨[(Key.of "m", [⟨"m", "int", none⟩])]⟩, .empty, .empty⟩,
    ⟨"T", .ofTrait ["U"], .empty, .empty, .empty⟩, ⟨"U", .ofTrait ["T"], .empty, .empty, .empty⟩]

def knotAnalysis : Analysis :=
  { graph := knotGraph
    settings := {}
    signatures := .empty
    visited :=
      [knotFirst, knotBack, knotSecond, knotOut, .method {} ⟨1⟩, knotTrait, knotOther]
    operands := []
    index := ⟨knotClasses, .group (fun c => Key.of c.name) knotClasses, .empty, .empty⟩
    hierarchy := extend .empty knotClasses }

theorem knot_hasMethod : knotAnalysis.HasMethod (Key.of "B") (Key.of "M") := by
  have hback : knotBack ∈ knotAnalysis.visited := by simp [knotAnalysis]
  have hsecond : knotSecond ∈ knotAnalysis.visited := by simp [knotAnalysis]
  have hout : knotOut ∈ knotAnalysis.visited := by simp [knotAnalysis]
  have hcase : Key.of "A" = Key.of "a" := by decide
  have hA : knotAnalysis.LooksIn (Key.of "B") (Key.of "a") := hcase ▸ .classParent hback
  have hC : knotAnalysis.LooksIn (Key.of "a") (Key.of "C") := .classParent hsecond
  refine ⟨Key.of "C", .tail (.single hA) hC, Or.inl ?_⟩
  exact ⟨_, _, _, _, {}, ⟨1⟩, hout, rfl, List.mem_cons_self, by decide⟩

theorem knot_not_hasMethod : ¬knotAnalysis.HasMethod (Key.of "B") (Key.of "gone") := by
  rintro ⟨k, -, ⟨head, name, heritage, body, mhead, f, hop, -, hm, hf⟩ | hsig⟩
  · simp only [knotAnalysis, knotFirst, knotBack, knotSecond, knotOut, knotTrait, knotOther,
      List.mem_cons, List.not_mem_nil, or_false, Op.classLike.injEq, reduceCtorEq, false_or] at hop
    obtain rfl : f = ⟨1⟩ := by
      rcases hop with ⟨-, -, -, rfl⟩ | ⟨-, -, -, rfl⟩ | ⟨-, -, -, rfl⟩ | ⟨-, -, -, rfl⟩ |
        ⟨-, -, -, rfl⟩ | ⟨-, -, -, rfl⟩ <;> simp_all
    revert hf
    decide
  · exact hsig (Signatures.memberType?_empty .method k (Key.of "gone"))

theorem methodLookup_iff_hasMethod_knot :
    Analysis.of knotGraph {} .empty = .ok knotAnalysis ∧
      knotAnalysis.methodTypes (Key.of "B") (Key.of "M") ≠ [] ∧
      knotAnalysis.methodTypes (Key.of "B") (Key.of "gone") = [] ∧
      knotAnalysis.callTypes true (Key.of "B") (Key.of "gone") =
        knotAnalysis.methodTypes (Key.of "B") ⟨"__callstatic"⟩ := by
  have hvisited : knotGraph.visited =
      [knotFirst, knotBack, knotSecond, knotOut, .method {} ⟨1⟩, knotTrait, knotOther] := by
    cbv
  have hindex : Index.build knotGraph knotAnalysis.visited = .ok knotAnalysis.index := rfl
  have hof : Analysis.of knotGraph {} .empty = .ok knotAnalysis :=
    of_eq_ok hvisited hindex Signatures.hierarchy_empty
  obtain ⟨-, hfound, -⟩ := methodLookup_iff_hasMethod hof (Key.of "B") (Key.of "M")
  obtain ⟨-, hmissing, hcall⟩ := methodLookup_iff_hasMethod hof (Key.of "B") (Key.of "gone")
  refine ⟨hof, hfound.2 knot_hasMethod, ?_, (hcall true).2 knot_not_hasMethod⟩
  exact not_not.1 fun hne => knot_not_hasMethod (hmissing.1 hne)

end TypeRecovery.Analysis
