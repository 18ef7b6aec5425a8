import TypeRecovery.Proofs.FoldedDeclarations
import TypeRecovery.Proofs.Traversals

/-!
# Letter case of programs

The folding of a program folds the names of its class-likes, functions and members, the names in
their heritage, the declared types, the literals and the classes of bound variables. Names of global
constants keep their letters, and so do literals that name one. The folded program has the same
operations in the same places. Whatever is looked up by name is found under the same key, so the
analysis of the folded program is the folding of the analysis.
-/
namespace TypeRecovery

namespace Table

variable {α β γ : Type} [DecidableEq α]

theorem mapValues_alter {g : β → γ} {f : Option β → β} {f' : Option γ → γ}
    (h : ∀ o, f' (o.map g) = g (f o)) (t : Table α β) (k : α) :
    (t.mapValues g).alter k f' = (t.alter k f).mapValues g := by
  obtain ⟨es⟩ := t
  simp only [alter, mapValues, mk.injEq]
  induction es with
  | nil => simpa [alterIn] using h none
  | cons e es ih =>
    obtain ⟨k', v⟩ := e
    by_cases hk : k' = k
    · simpa [alterIn, hk] using h (some v)
    · simp [alterIn, hk, ih]

theorem mapValues_put (g : β → γ) (t : Table α β) (k : α) (v : β) :
    (t.mapValues g).put k (g v) = (t.put k v).mapValues g := by
  apply mapValues_alter
  intro o
  rfl

theorem group_map {key : γ → α} {φ : γ → γ} (h : ∀ x, key (φ x) = key x) (xs : List γ) :
    group key (xs.map φ) = (group key xs).mapValues (List.map φ) := by
  have hfold (t : Table α (List γ)) :
      (xs.map φ).foldl (fun t x => t.alter (key x) fun ys => ys.getD [] ++ [x])
          (t.mapValues (List.map φ)) =
        (xs.foldl (fun t x => t.alter (key x) fun ys => ys.getD [] ++ [x]) t).mapValues
          (List.map φ) := by
    induction xs generalizing t with
    | nil => rfl
    | cons x xs ih =>
      rw [List.map_cons, List.foldl_cons, List.foldl_cons, h, ← ih]
      congr 1
      apply mapValues_alter
      intro ys
      cases ys <;> simp
  exact hfold empty

end Table

theorem mapM_map_except {α α' β β' : Type} {φ : α → α'} {ψ : β → β'} {f : α → Except Fault β}
    {f' : α' → Except Fault β'} (h : ∀ x, f' (φ x) = (f x).map ψ) (xs : List α) :
    (xs.map φ).mapM f' = (xs.mapM f).map (List.map ψ) := by
  induction xs with
  | nil => rfl
  | cons x xs ih =>
    rw [List.map_cons, List.mapM_cons, List.mapM_cons, h, ih]
    cases f x with
    | error e => rfl
    | ok y => cases xs.mapM f <;> rfl

theorem Key.of_comp_folded : Key.of ∘ Text.folded = Key.of := funext Key.of_folded

def Heritage.folded : Heritage → Heritage
  | ofClass parent interfaces traits =>
    ofClass (parent.map Text.folded) (interfaces.map Text.folded) (traits.map Text.folded)
  | ofInterface parents => ofInterface (parents.map Text.folded)
  | ofTrait traits => ofTrait (traits.map Text.folded)

namespace Heritage

theorem supertypes_folded (h : Heritage) :
    h.folded.supertypes.map Key.of = h.supertypes.map Key.of := by
  cases h with
  | ofClass parent interfaces traits =>
    cases parent <;> simp [folded, supertypes, Key.of_comp_folded]
  | _ => simp [folded, supertypes]

theorem traits_folded (h : Heritage) : h.folded.traits.map Key.of = h.traits.map Key.of := by
  cases h <;> simp [folded, traits]

theorem parents_folded (h : Heritage) : h.folded.parents.map Key.of = h.parents.map Key.of := by
  cases h with
  | ofClass parent interfaces traits => cases parent <;> simp [folded, parents]
  | _ => simp [folded, parents]

end Heritage

namespace Op

mutual

/-- The operation with its names and declared types folded, but for the name of a parameter, which
is a variable, and that of a global constant. -/
def folded : Op → Op
  | parameter head name declared fallback comment =>
    parameter head name (Text.folded declared) fallback comment
  | property head name declared fallback =>
    property head (Text.folded name) (Text.folded declared) fallback
  | classConstant head name value => classConstant head (Text.folded name) value
  | classLike head name heritage body =>
    classLike head (Text.folded name) heritage.folded (foldedAll body)
  | op => op

def foldedAll : List Op → List Op
  | [] => []
  | op :: ops => op.folded :: foldedAll ops

end

theorem foldedAll_eq (ops : List Op) : foldedAll ops = ops.map folded := by
  induction ops with
  | nil => rfl
  | cons op ops ih => rw [foldedAll, ih, List.map_cons]

theorem folded_classLike (head : Head) (name : String) (heritage : Heritage) (body : List Op) :
    (classLike head name heritage body).folded =
      classLike head (Text.folded name) heritage.folded (body.map folded) := by
  rw [folded, foldedAll_eq]

@[simp] theorem head_folded (op : Op) : op.folded.head = op.head := by
  cases op <;> rfl

@[simp] theorem action_folded (op : Op) : op.folded.action = op.action := by
  cases op with
  | classLike head name heritage body => cases heritage <;> rfl
  | _ => rfl

@[simp] theorem slot?_folded (s : Slot) (op : Op) : op.folded.slot? s = op.slot? s := by
  cases op with
  | parameter head name declared fallback comment => cases fallback <;> rfl
  | property head name declared fallback => cases fallback <;> rfl
  | _ => rfl

theorem reads_folded (op : Op) : op.folded.reads = op.reads := by
  cases op <;> rfl

theorem writes_folded (op : Op) : op.folded.writes = op.writes := by
  rw [writes, head_folded, writes]

theorem func?_folded (op : Op) : op.folded.func? = op.func? := by
  cases op <;> rfl

theorem body_folded (op : Op) : op.folded.body = op.body.map folded := by
  cases op with
  | classLike head name heritage body => exact foldedAll_eq body
  | _ => rfl

end Op

def Func.folded (f : Func) : Func :=
  { f with
    name := Text.folded f.name
    params := f.params.map Op.folded
    returns := Text.folded f.returns
    owner := Text.folded f.owner
    blocks := f.blocks.map (List.map Op.folded) }

theorem Func.ops_folded (f : Func) : f.folded.ops = f.ops.map Op.folded := by
  simp [ops, body, folded, List.map_flatten]

/-- The operand with its type and the class that it is bound to folded, and its literal too unless
this is the name of a global constant. -/
def Operand.folded (constant : Bool) (x : Operand) : Operand :=
  { origin := match x.origin with
      | .literal v => .literal (if constant then v else v.folded)
      | .bound name scope cls => .bound name scope (cls.map Value.folded)
      | origin => origin
    type := x.type.folded }

/-- The operand by which the operation names something. -/
def Op.nameOperand? (op : Op) : Option OperandId :=
  match op.slot? .name with
  | some (.one x) => x
  | _ => none

namespace Graph

/-- Whether the operand names a global constant. -/
def namesConstant (g : Graph) (x : OperandId) : Bool :=
  g.log.any fun op => op.action = .constFetch && op.nameOperand? = some x

/-- The program with its names folded, but for those of global constants. -/
def folded (g : Graph) : Graph :=
  { g with
    operands := g.operands.mapIdx fun i x => x.folded (g.namesConstant ⟨i⟩)
    funcs := g.funcs.map Func.folded
    log := g.log.map Op.folded }

variable (g : Graph)

theorem operand_folded (x : OperandId) :
    g.folded.operand x = (g.operand x).folded (g.namesConstant x) := by
  obtain ⟨i⟩ := x
  simp only [operand, folded, Array.getElem?_mapIdx]
  cases g.operands[i]? <;> rfl

theorem literal?_folded (x : OperandId) :
    g.folded.literal? x =
      (g.literal? x).map fun v => if g.namesConstant x then v else v.folded := by
  rw [literal?, operand_folded, literal?]
  obtain ⟨origin, type⟩ := g.operand x
  cases origin <;> rfl

theorem objectClass?_folded (x : OperandId) :
    (g.folded.operand x).objectClass? = (g.operand x).objectClass?.map Value.folded := by
  rw [operand_folded]
  obtain ⟨origin, type⟩ := g.operand x
  cases origin with
  | bound name scope cls => cases scope <;> rfl
  | _ => rfl

theorem sortName_folded (x : OperandId) :
    (g.folded.operand x).sortName = (g.operand x).sortName := by
  rw [operand_folded]
  obtain ⟨origin, type⟩ := g.operand x
  cases origin <;> rfl

theorem func?_folded (f : FuncId) : g.folded.func? f = (g.func? f).map Func.folded := by
  simp [func?, folded]

theorem func_folded (f : FuncId) : g.folded.func f = (g.func f).folded := by
  rw [func, func?_folded, func]
  cases g.func? f <;> rfl

theorem reshaped_folded : g.Reshaped Op.folded g.folded where
  func? := Op.func?_folded
  body := Op.body_folded
  ops f := by
    rw [func?_folded]
    cases g.func? f with
    | none => rfl
    | some fn => exact congrArg some fn.ops_folded
  scripts := rfl

theorem producers_folded (x : OperandId) :
    g.folded.producers x = (g.producers x).map Op.folded := by
  simp [producers, folded, List.filter_map, Function.comp_def]

theorem fetchesNull_folded (op : Op) : g.folded.fetchesNull op.folded = g.fetchesNull op := by
  unfold fetchesNull
  rw [Op.action_folded, Op.slot?_folded]
  congr 1
  split
  · rename_i x _
    rw [literal?_folded]
    cases g.literal? x with
    | none => rfl
    | some v =>
      cases v <;> cases g.namesConstant x <;> simp [Value.folded, Text.lower_folded]
  · rfl

theorem isNull_folded (x : OperandId) : g.folded.isNull x = g.isNull x := by
  have hany : (g.folded.producers x).any g.folded.fetchesNull =
      (g.producers x).any g.fetchesNull := by
    rw [producers_folded, List.any_map]
    exact congrArg (g.producers x).any (funext fun op => g.fetchesNull_folded op)
  unfold isNull
  rw [hany, literal?_folded]
  cases g.literal? x with
  | none => rfl
  | some v => cases v <;> cases g.namesConstant x <;> rfl

end Graph

def Routine.folded (r : Routine) : Routine :=
  { r with name := Text.folded r.name, returns := Text.folded r.returns }

def Property.folded (p : Property) : Property :=
  { p with name := Text.folded p.name, declared := Text.folded p.declared }

def Constant.folded (c : Constant) : Constant := { c with name := Text.folded c.name }

def ClassLike.folded (c : ClassLike) : ClassLike :=
  { name := Text.folded c.name
    heritage := c.heritage.folded
    methods := c.methods.mapValues (List.map Routine.folded)
    properties := c.properties.mapValues (List.map Property.folded)
    constants := c.constants.mapValues (List.map Constant.folded) }

/-- The names of global constants stay. -/
def Index.folded (i : Index) : Index :=
  { classLikes := i.classLikes.map ClassLike.folded
    byName := i.byName.mapValues (List.map ClassLike.folded)
    functions := i.functions.mapValues (List.map Routine.folded)
    constants := i.constants }

def Analysis.folded (a : Analysis) : Analysis :=
  { a with
    graph := a.graph.folded
    visited := a.visited.map Op.folded
    index := a.index.folded }

theorem Graph.routine_folded (g : Graph) (head : Head) (f : FuncId) :
    g.folded.routine head f = (g.routine head f).folded := by
  rw [routine, func_folded, routine]
  rfl

theorem Graph.methods_folded (g : Graph) (body : List Op) :
    g.folded.methods (body.map Op.folded) = (g.methods body).map Routine.folded := by
  rw [methods, methods, List.filterMap_map, List.map_filterMap]
  congr 1
  funext op
  cases op with
  | method head f => exact congrArg some (g.routine_folded head f)
  | _ => rfl

theorem Op.properties_folded (body : List Op) :
    properties (body.map folded) = (properties body).map Property.folded := by
  rw [properties, properties, List.filterMap_map, List.map_filterMap]
  congr 1
  funext op
  cases op <;> rfl

theorem Op.constants_folded (body : List Op) :
    constants (body.map folded) = (constants body).map Constant.folded := by
  rw [constants, constants, List.filterMap_map, List.map_filterMap]
  congr 1
  funext op
  cases op <;> rfl

namespace Index

theorem classLikeOf_folded (g : Graph) (op : Op) :
    classLikeOf g.folded op.folded = (classLikeOf g op).map ClassLike.folded := by
  cases op with
  | classLike head name heritage body =>
    rw [Op.folded_classLike, classLikeOf, classLikeOf, g.methods_folded, Op.properties_folded,
      Op.constants_folded, Table.group_map, Table.group_map, Table.group_map]
    · rfl
    all_goals
      intro x
      exact Key.of_folded x.name
  | _ => rfl

theorem functionOf_folded (g : Graph) (op : Op) :
    functionOf g.folded op.folded = (functionOf g op).map Routine.folded := by
  cases op with
  | function head f => exact congrArg Except.ok (g.routine_folded head f)
  | classLike head name heritage body => cases heritage <;> rfl
  | _ => rfl

theorem constantOf_folded (op : Op) : constantOf op.folded = (constantOf op).map id := by
  cases op with
  | classLike head name heritage body => cases heritage <;> rfl
  | _ => rfl

theorem build_folded (g : Graph) (ops : List Op) :
    build g.folded (ops.map Op.folded) = (build g ops).map folded := by
  have hdeclared (a : Action) : (ops.map Op.folded).filter (fun op => op.action = a) =
      (ops.filter fun op => op.action = a).map Op.folded := by
    simp [List.filter_map, Function.comp_def]
  have hclasses (cs : List ClassLike) :
      Table.group (fun c => Key.of c.name) (cs.map ClassLike.folded) =
        (Table.group (fun c => Key.of c.name) cs).mapValues (List.map ClassLike.folded) :=
    Table.group_map (fun c => by exact Key.of_folded c.name) cs
  have hfunctions (fs : List Routine) :
      Table.group (fun f => Key.of f.name) (fs.map Routine.folded) =
        (Table.group (fun f => Key.of f.name) fs).mapValues (List.map Routine.folded) :=
    Table.group_map (fun f => by exact Key.of_folded f.name) fs
  unfold build
  simp only [hdeclared, ← List.map_append]
  rw [mapM_map_except (classLikeOf_folded g), mapM_map_except (functionOf_folded g),
    mapM_map_except constantOf_folded]
  generalize List.mapM (classLikeOf g) _ = classLikes
  generalize List.mapM (functionOf g) _ = functions
  generalize List.mapM constantOf _ = constants
  cases classLikes with
  | error e => rfl
  | ok cs =>
    cases functions with
    | error e => rfl
    | ok fs =>
      cases constants with
      | error e => rfl
      | ok ks =>
        simp only [Except.map, bind, Except.bind, pure, Except.pure, folded, List.map_id]
        rw [hclasses, hfunctions]

theorem classesNamed_folded (i : Index) (k : Key) :
    i.folded.classesNamed k = (i.classesNamed k).map ClassLike.folded := by
  rw [classesNamed, folded, Table.get?_mapValues, classesNamed]
  cases i.byName.get? k <;> rfl

theorem functionsNamed_folded (i : Index) (k : Key) :
    i.folded.functionsNamed k = (i.functionsNamed k).map Routine.folded := by
  rw [functionsNamed, folded, Table.get?_mapValues, functionsNamed]
  cases i.functions.get? k <;> rfl

end Index

namespace ClassLike

theorem methodsNamed_folded (c : ClassLike) (k : Key) :
    c.folded.methodsNamed k = (c.methodsNamed k).map Routine.folded := by
  rw [methodsNamed, folded, Table.get?_mapValues, methodsNamed]
  cases c.methods.get? k <;> rfl

theorem propertiesNamed_folded (c : ClassLike) (k : Key) :
    c.folded.propertiesNamed k = (c.propertiesNamed k).map Property.folded := by
  rw [propertiesNamed, folded, Table.get?_mapValues, propertiesNamed]
  cases c.properties.get? k <;> rfl

theorem constantsNamed_folded (c : ClassLike) (k : Key) :
    c.folded.constantsNamed k = (c.constantsNamed k).map Constant.folded := by
  rw [constantsNamed, folded, Table.get?_mapValues, constantsNamed]
  cases c.constants.get? k <;> rfl

end ClassLike

namespace Analysis

/-- The hierarchy holds keys only. -/
theorem extend_folded (h : Hierarchy) (cs : List ClassLike) :
    extend h (cs.map ClassLike.folded) = extend h cs := by
  have hname (c : ClassLike) : Key.of c.folded.name = Key.of c.name := Key.of_folded c.name
  have hsupertypes (c : ClassLike) : c.folded.heritage.supertypes.map Key.of =
      c.heritage.supertypes.map Key.of := c.heritage.supertypes_folded
  simp only [extend, List.foldl_map, hname, hsupertypes]

/-- The analysis of the folded program is the folding of the analysis. -/
theorem of_folded (g : Graph) (settings : Settings) (signatures : Signatures) :
    Analysis.of g.folded settings signatures = (Analysis.of g settings signatures).map folded := by
  have hvisited : g.folded.visited = g.visited.map Op.folded := g.reshaped_folded.visited
  have hused : g.folded.usedOperands = g.usedOperands :=
    g.reshaped_folded.usedOperands Op.reads_folded Op.writes_folded
  unfold Analysis.of
  rw [hvisited, hused, Index.build_folded]
  cases Index.build g g.visited with
  | error e => rfl
  | ok i =>
    simp only [Except.map, bind, Except.bind, pure, Except.pure, Except.ok.injEq, folded,
      Analysis.mk.injEq, true_and]
    exact extend_folded _ _

end Analysis

end TypeRecovery
