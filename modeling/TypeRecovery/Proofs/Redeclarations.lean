import Mathlib.Data.List.Forall2
import TypeRecovery.Proofs.ClassHierarchy
import TypeRecovery.Proofs.Traversals

/-!
# Names that are declared more than once

An index finds all statements that declare a name, in the order in which they came, interfaces
before classes before traits. Class-likes of one name are found together, but each keeps the members
of its own body. What the index holds and the statements are paired off one by one, so that nothing
can be lost, come twice, change its place or pass to another class-like of the same name.
-/
namespace TypeRecovery

theorem mapM_eq_ok_iff {ε α β : Type} {f : α → Except ε β} {xs : List α} {ys : List β} :
    xs.mapM f = .ok ys ↔ List.Forall₂ (fun x y => f x = .ok y) xs ys := by
  induction xs generalizing ys with
  | nil =>
    rw [List.forall₂_nil_left_iff]
    exact ⟨fun h => (Except.ok.inj h).symm, fun h => h ▸ rfl⟩
  | cons x xs ih =>
    rw [List.mapM_cons, bind_eq_ok_iff, List.forall₂_cons_left_iff]
    constructor
    · rintro ⟨y, hy, h⟩
      obtain ⟨ys', hys, h⟩ := bind_eq_ok_iff.1 h
      exact ⟨y, ys', hy, ih.1 hys, (Except.ok.inj h).symm⟩
    · rintro ⟨y, ys', hy, hys, rfl⟩
      exact ⟨y, hy, bind_eq_ok_iff.2 ⟨ys', ih.2 hys, rfl⟩⟩

theorem exists_forall₂ {α β : Type} {R : α → β → Prop} {xs : List α}
    (h : ∀ x ∈ xs, ∃ y, R x y) : ∃ ys, List.Forall₂ R xs ys := by
  induction xs with
  | nil => exact ⟨[], .nil⟩
  | cons x xs ih =>
    obtain ⟨y, hy⟩ := h x List.mem_cons_self
    obtain ⟨ys, hys⟩ := ih fun z hz => h z (List.mem_cons_of_mem x hz)
    exact ⟨y :: ys, .cons hy hys⟩

theorem forall₂_filterMap {α β : Type} (f : α → Option β) (xs : List α) :
    List.Forall₂ (fun x y => f x = some y) (xs.filter fun x => (f x).isSome) (xs.filterMap f) := by
  induction xs with
  | nil => exact .nil
  | cons x xs ih =>
    cases hx : f x with
    | none =>
      rw [List.filterMap_cons_none hx, List.filter_cons_of_neg (by simp [hx])]
      exact ih
    | some y =>
      rw [List.filterMap_cons_some hx, List.filter_cons_of_pos (by simp [hx])]
      exact .cons hx ih

/-- The items under a key are paired off with those that belong to items of the key. -/
theorem Table.forall₂_group {α β γ : Type} [DecidableEq α] {R : β → γ → Prop} {key : γ → α} {k : α}
    {p : β → Bool} (hp : ∀ x y, R x y → (p x = true ↔ key y = k)) {xs : List β} {ys : List γ}
    (h : List.Forall₂ R xs ys) :
    List.Forall₂ R (xs.filter p) (((group key ys).get? k).getD []) := by
  rw [getD_get?_group]
  refine List.rel_filter (fun {x y} hxy => ?_) h
  simpa using hp x y hxy

/-- What a statement declares, class-likes apart. -/
inductive Declared where
  | routine (r : Routine)
  | property (p : Property)
  | constant (c : Constant)

def Declared.name : Declared → String
  | routine r => r.name
  | property p => p.name
  | constant c => c.name

namespace Op

def declared? (g : Graph) : Op → Option Declared
  | function head f | method head f => some (.routine (g.routine head f))
  | property head name type _ => some (.property ⟨name, type, head.comment⟩)
  | classConstant _ name value | constant _ name value => some (.constant ⟨name, value⟩)
  | _ => none

def declaredName? (g : Graph) : Op → Option String
  | classLike _ name _ _ => some name
  | op => (op.declared? g).map Declared.name

/-- The operation declares the name, in some letter case. -/
def isNamed (g : Graph) (name : String) (op : Op) : Bool :=
  (op.declaredName? g).any fun n => Text.lower n = Text.lower name

/-- The statements of a sort in the body that declare a name, in order. -/
def members (g : Graph) (sort : Action) (name : String) (op : Op) : List Op :=
  op.body.filter fun m => m.action = sort && m.isNamed g name

theorem isNamed_iff {g : Graph} {op : Op} {n : String} (h : op.declaredName? g = some n)
    (name : String) : op.isNamed g name = true ↔ Key.of n = Key.of name := by
  simp [isNamed, h, Key.of]

theorem declaredName?_of_declared? {g : Graph} {op : Op} {d : Declared}
    (h : op.declared? g = some d) : op.declaredName? g = some d.name := by
  cases op with
  | classLike => cases h
  | _ => exact congrArg (Option.map Declared.name) h

/-- Only class-likes and what is declared otherwise have names. -/
theorem declared?_ne_none_of_isNamed {g : Graph} {name : String} {op : Op}
    (hop : op.isNamed g name = true) (hc : ∀ heritage : Heritage, op.action ≠ heritage.action) :
    op.declared? g ≠ none := by
  intro h
  cases op with
  | classLike _ _ heritage _ => exact hc heritage rfl
  | _ => simp [isNamed, declaredName?, h] at hop

end Op

/-- The members that a table holds under a name are those that the body declares. The sort is not
one of class-likes, which have names but are no members. -/
theorem forall₂_members {g : Graph} {sort : Action} {α : Type} {wrap : α → Declared}
    {pick : Op → Option α} (hsort : ∀ heritage : Heritage, sort ≠ heritage.action)
    (hpick : ∀ op, (pick op).map wrap = (op.declared? g).filter fun _ => op.action = sort)
    (op : Op) (name : String) :
    List.Forall₂ (fun m x => m.declared? g = some (wrap x)) (op.members g sort name)
      (((Table.group (fun x => Key.of (wrap x).name) (op.body.filterMap pick)).get?
        (Key.of name)).getD []) := by
  have hpairs : List.Forall₂ (fun m x => m.declared? g = some (wrap x))
      (op.body.filter fun m => (pick m).isSome) (op.body.filterMap pick) := by
    refine (forall₂_filterMap pick op.body).imp fun m x hx => ?_
    have hm := hpick m
    rw [hx, Option.map_some] at hm
    exact Option.eq_some_of_filter_eq_some hm.symm
  have hmembers : op.members g sort name =
      (op.body.filter fun m => (pick m).isSome).filter (Op.isNamed g name) := by
    rw [Op.members, List.filter_filter]
    -- An operation can bear the action of the sort and declare nothing: it is not picked, and
    -- among the members it falls out for want of a name.
    refine List.filter_congr fun m _ => ?_
    cases hnamed : m.isNamed g name with
    | false => simp
    | true =>
      rw [Bool.and_true, Bool.true_and, ← Option.isSome_map (f := wrap), hpick]
      by_cases hm : m.action = sort
      · have hdeclared := Op.declared?_ne_none_of_isNamed hnamed (hm ▸ hsort)
        obtain ⟨d, hd⟩ := Option.ne_none_iff_exists'.1 hdeclared
        simp [hm, hd]
      · simp [hm]
  rw [hmembers]
  refine Table.forall₂_group (fun m x h => ?_) hpairs
  exact Op.isNamed_iff (Op.declaredName?_of_declared? h) name

/-- The class-like has the name and the supertypes of a statement, and under each name the members
that the statement's own body declares. -/
structure Op.IndexedAs (g : Graph) (op : Op) (c : ClassLike) : Prop where
  statement : ∃ head, op = .classLike head c.name c.heritage op.body
  methods : ∀ name, List.Forall₂ (fun m r => m.declared? g = some (.routine r))
    (op.members g .methodDecl name) (c.methodsNamed (Key.of name))
  properties : ∀ name, List.Forall₂ (fun m p => m.declared? g = some (.property p))
    (op.members g .propertyDecl name) (c.propertiesNamed (Key.of name))
  constants : ∀ name, List.Forall₂ (fun m k => m.declared? g = some (.constant k))
    (op.members g .classConstantDecl name) (c.constantsNamed (Key.of name))

theorem Op.indexedAs_of_classLikeOf {g : Graph} {op : Op} {c : ClassLike}
    (h : Index.classLikeOf g op = .ok c) : op.IndexedAs g c := by
  cases op with
  | classLike head name heritage body =>
    obtain rfl := Except.ok.inj h
    refine ⟨⟨head, rfl⟩, ?_, ?_, ?_⟩
    all_goals
      refine forall₂_members (fun heritage => ?_) (fun m => ?_) (.classLike head name heritage body)
      · cases heritage <;> exact nofun
      · cases m <;> rfl
  | _ => cases h

/-- The operation is a declaration of the sort. One that only bears the action of the sort, without
the parts of a declaration, is none. -/
inductive Op.Declares (sort : Action) : Op → Prop
  | classLike {head : Head} {name : String} {heritage : Heritage} {body : List Op}
      (h : heritage.action = sort) : Declares sort (.classLike head name heritage body)
  | function {head : Head} {f : FuncId} (h : .functionDecl = sort) :
      Declares sort (.function head f)
  | constant {head : Head} {name : String} {value : Option OperandId} (h : .constantDecl = sort) :
      Declares sort (.constant head name value)

theorem Op.Declares.action_eq {sort : Action} {op : Op} (h : op.Declares sort) :
    op.action = sort := by
  cases h with
  | classLike h | function h | constant h => exact h

structure Statement (sort : Action) where
  op : Op
  declares : op.Declares sort

/-- The statements that an index is made of, those of each sort in an order of their own. -/
structure Statements where
  interfaces : List (Statement .interfaceDecl)
  classes : List (Statement .classDecl)
  traits : List (Statement .traitDecl)
  functions : List (Statement .functionDecl)
  constants : List (Statement .constantDecl)

namespace Statements

/-- The class-likes, in the order in which they are found. -/
def classLikes (s : Statements) : List Op :=
  s.interfaces.map (·.op) ++ s.classes.map (·.op) ++ s.traits.map (·.op)

/-- The statements are the declarations among some operations, with the sorts mixed in any way. -/
structure StandIn (s : Statements) (ops : List Op) : Prop where
  interfaces : ops.filter (fun op => op.action = .interfaceDecl) = s.interfaces.map (·.op)
  classes : ops.filter (fun op => op.action = .classDecl) = s.classes.map (·.op)
  traits : ops.filter (fun op => op.action = .traitDecl) = s.traits.map (·.op)
  functions : ops.filter (fun op => op.action = .functionDecl) = s.functions.map (·.op)
  constants : ops.filter (fun op => op.action = .constantDecl) = s.constants.map (·.op)

end Statements

theorem Statement.filter_map_op {sort : Action} (xs : List (Statement sort)) (a : Action) :
    (xs.map (·.op)).filter (fun op => op.action = a) = if sort = a then xs.map (·.op) else [] := by
  split
  · rename_i h
    refine List.filter_eq_self.2 fun op hop => ?_
    obtain ⟨x, -, rfl⟩ := List.mem_map.1 hop
    simp [x.declares.action_eq, h]
  · rename_i h
    refine List.filter_eq_nil_iff.2 fun op hop => ?_
    obtain ⟨x, -, rfl⟩ := List.mem_map.1 hop
    simp [x.declares.action_eq, h]

theorem Statements.exists_standIn (s : Statements) : ∃ ops, s.StandIn ops := by
  refine ⟨s.classLikes ++ s.functions.map (·.op) ++ s.constants.map (·.op), ?_⟩
  constructor <;> simp [classLikes, List.filter_append, Statement.filter_map_op]

theorem Statement.exists_classLike {sort : Action} (x : Statement sort) (g : Graph)
    (hsort : sort ∈ [.interfaceDecl, .classDecl, .traitDecl]) :
    ∃ c, Index.classLikeOf g x.op = .ok c := by
  obtain ⟨op, h⟩ := x
  cases h with
  | classLike => exact ⟨_, rfl⟩
  | function h | constant h => simp [← h] at hsort

theorem Statement.exists_function (x : Statement .functionDecl) (g : Graph) :
    ∃ r, Index.functionOf g x.op = .ok r ∧ x.op.declared? g = some (.routine r) := by
  obtain ⟨op, h⟩ := x
  cases h with
  | function => exact ⟨_, rfl, rfl⟩
  | @classLike _ _ heritage _ h => cases heritage <;> cases h
  | constant h => cases h

theorem Statement.exists_constant (x : Statement .constantDecl) (g : Graph) :
    ∃ c, Index.constantOf x.op = .ok c ∧ x.op.declared? g = some (.constant c) := by
  obtain ⟨op, h⟩ := x
  cases h with
  | constant => exact ⟨_, rfl, rfl⟩
  | @classLike _ _ heritage _ h => cases heritage <;> cases h
  | function h => cases h

/-- Statements are indexed without a fault, and what the index holds is paired off with them. -/
theorem Index.build_of_standIn (g : Graph) {s : Statements} {ops : List Op} (h : s.StandIn ops) :
    ∃ cs fs ks,
      Index.build g ops = .ok ⟨cs, .group (fun c => Key.of c.name) cs,
        .group (fun f => Key.of f.name) fs, .group (fun c => c.name) ks⟩ ∧
      List.Forall₂ (Op.IndexedAs g) s.classLikes cs ∧
      List.Forall₂ (fun op r => op.declared? g = some (.routine r)) (s.functions.map (·.op)) fs ∧
      List.Forall₂ (fun op c => op.declared? g = some (.constant c))
        (s.constants.map (·.op)) ks := by
  obtain ⟨cs, hcs⟩ : ∃ cs, List.Forall₂ (fun op c => classLikeOf g op = .ok c) s.classLikes cs := by
    refine exists_forall₂ fun op hop => ?_
    simp only [Statements.classLikes, List.mem_append, List.mem_map] at hop
    rcases hop with (⟨x, -, rfl⟩ | ⟨x, -, rfl⟩) | ⟨x, -, rfl⟩
    all_goals exact x.exists_classLike g (by simp)
  obtain ⟨fs, hfs⟩ : ∃ fs, List.Forall₂
      (fun op r => functionOf g op = .ok r ∧ op.declared? g = some (.routine r))
      (s.functions.map (·.op)) fs :=
    exists_forall₂ (List.forall_mem_map.2 fun x _ => x.exists_function g)
  obtain ⟨ks, hks⟩ : ∃ ks, List.Forall₂
      (fun op c => constantOf op = .ok c ∧ op.declared? g = some (.constant c))
      (s.constants.map (·.op)) ks :=
    exists_forall₂ (List.forall_mem_map.2 fun x _ => x.exists_constant g)
  refine ⟨cs, fs, ks, ?_, hcs.imp fun _ _ => Op.indexedAs_of_classLikeOf,
    hfs.imp fun _ _ => And.right, hks.imp fun _ _ => And.right⟩
  simp only [Index.build, h.interfaces, h.classes, h.traits, h.functions, h.constants]
  rw [← Statements.classLikes, mapM_eq_ok_iff.2 hcs,
    mapM_eq_ok_iff.2 (hfs.imp fun _ _ => And.left), mapM_eq_ok_iff.2 (hks.imp fun _ _ => And.left)]
  rfl

/-- Whatever interfaces, classes, traits, functions and constants there are, some operations hold
them, and an index of such operations pairs its class-likes off with the interfaces, the classes and
the traits, each with the members of its own body. It finds under a name the class-likes, in this
order, and the functions that declare the name in some letter case, and the constants that declare
just the name. -/
theorem Index.lookups_of_statements (g : Graph) (s : Statements) :
    (∃ ops, s.StandIn ops) ∧
    ∀ ops, s.StandIn ops → ∃ i, Index.build g ops = .ok i ∧
      List.Forall₂ (Op.IndexedAs g) s.classLikes i.classLikes ∧
      ∀ name,
        List.Forall₂ (Op.IndexedAs g) (s.classLikes.filter (Op.isNamed g name))
          (i.classesNamed (Key.of name)) ∧
        List.Forall₂ (fun op r => op.declared? g = some (.routine r))
          ((s.functions.map (·.op)).filter (Op.isNamed g name)) (i.functionsNamed (Key.of name)) ∧
        List.Forall₂ (fun op c => op.declared? g = some (.constant c))
          ((s.constants.map (·.op)).filter fun op => op.declaredName? g = some name)
          (i.constantsNamed name) := by
  refine ⟨s.exists_standIn, fun ops h => ?_⟩
  obtain ⟨cs, fs, ks, hbuild, hcs, hfs, hks⟩ := Index.build_of_standIn g h
  refine ⟨_, hbuild, hcs, fun name => ⟨?_, ?_, ?_⟩⟩
  · refine Table.forall₂_group (fun op c hc => ?_) hcs
    obtain ⟨head, hop⟩ := hc.statement
    exact Op.isNamed_iff (congrArg (Op.declaredName? g) hop) name
  · refine Table.forall₂_group (fun op r hr => ?_) hfs
    exact Op.isNamed_iff (Op.declaredName?_of_declared? hr) name
  · refine Table.forall₂_group (fun op c hc => ?_) hks
    rw [decide_eq_true_eq, Op.declaredName?_of_declared? hc, Option.some.injEq]
    rfl

def dupGraph : Graph := { funcs := #[{ name := "a" }, { name := "A" }, { name := "b" }] }

def dupInterface : Op := .classLike {} "Dup" (.ofInterface []) [.method {} ⟨0⟩]

def dupFirst : Op :=
  .classLike {} "dup" (.ofClass none [] []) [.method {} ⟨2⟩, .property {} "A" "" none]

def dupSecond : Op :=
  .classLike {} "DUP" (.ofClass none [] []) [.method {} ⟨1⟩, .method {} ⟨2⟩, .method {} ⟨0⟩]

def dupLower : Op := .constant {} "dup" none

def dupUpper : Op := .constant {} "DUP" none

def dupOps : List Op := [dupFirst, dupLower, dupInterface, dupSecond, dupUpper]

def dupStatements : Statements where
  interfaces := [⟨dupInterface, .classLike rfl⟩]
  classes := [⟨dupFirst, .classLike rfl⟩, ⟨dupSecond, .classLike rfl⟩]
  traits := []
  functions := []
  constants := [⟨dupLower, .constant rfl⟩, ⟨dupUpper, .constant rfl⟩]

theorem Index.lookups_of_statements_dup :
    dupStatements.StandIn dupOps ∧ ∃ i, Index.build dupGraph dupOps = .ok i ∧
      (∃ c c₁ c₂, i.classesNamed (Key.of "dUp") = [c, c₁, c₂] ∧
        c.methodsNamed (Key.of "A") = [⟨"a", "", none⟩] ∧ c₁.methodsNamed (Key.of "A") = [] ∧
        c₂.methodsNamed (Key.of "A") = [⟨"A", "", none⟩, ⟨"a", "", none⟩]) ∧
      i.constantsNamed "DUP" = [⟨"DUP", none⟩] := by
  have hops : dupStatements.StandIn dupOps := ⟨rfl, rfl, rfl, rfl, rfl⟩
  obtain ⟨-, hindex⟩ := Index.lookups_of_statements dupGraph dupStatements
  obtain ⟨i, hi, -, hnamed⟩ := hindex dupOps hops
  have hclasses : List.Forall₂ (Op.IndexedAs dupGraph) [dupInterface, dupFirst, dupSecond]
      (i.classesNamed (Key.of "dUp")) := (hnamed "dUp").1
  have hconstants : List.Forall₂ (fun op c => op.declared? dupGraph = some (.constant c)) [dupUpper]
      (i.constantsNamed "DUP") := (hnamed "DUP").2.2
  have hunique : Relator.RightUnique fun m r => Op.declared? dupGraph m = some (.routine r) :=
    fun _ _ _ h h' => Declared.routine.inj (Option.some.inj (h.symm.trans h'))
  simp only [List.forall₂_cons_left_iff, List.forall₂_nil_left_iff] at hclasses hconstants
  refine ⟨hops, i, hi, ?_, ?_⟩
  · obtain ⟨c, _, hc, ⟨c₁, _, hc₁, ⟨c₂, _, hc₂, rfl, rfl⟩, rfl⟩, hcs⟩ := hclasses
    refine ⟨c, c₁, c₂, hcs, ?_, ?_, ?_⟩
    · exact List.right_unique_forall₂' hunique (hc.methods "A") (.cons rfl .nil)
    · exact List.right_unique_forall₂' hunique (hc₁.methods "A") .nil
    · exact List.right_unique_forall₂' hunique (hc₂.methods "A") (.cons rfl (.cons rfl .nil))
  · obtain ⟨c, _, hc, rfl, hcs⟩ := hconstants
    rw [hcs, ← Declared.constant.inj (Option.some.inj hc)]

end TypeRecovery
