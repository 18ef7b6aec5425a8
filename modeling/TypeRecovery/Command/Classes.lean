import TypeRecovery.Graph.Basic
import TypeRecovery.Signatures.Reader

/-!
# Classes described in a document

A document lists interfaces, classes and traits with the names of their supertypes. Names need not
be texts to be listed, but they have to be to be used.
-/
namespace TypeRecovery.Command

/-- Why a document does not describe classes. -/
inductive Unfit where
  /-- It is not of the form expected. -/
  | malformed
  | fault (f : Fault)

/-- A class-like as the document describes it. -/
structure Described where
  action : Action
  name : Value
  parent : Value := .null
  interfaces : List Value := []
  traits : List Value := []

namespace Described

/-- The supertypes in the order in which they are linked. -/
def supertypes (d : Described) : List Value :=
  (if d.parent.isPresent then [d.parent] else []) ++ d.interfaces ++ d.traits

end Described

def listed (v : Value) : Except Unfit (List Value) := (Signatures.itemsOf v).mapError fun _ => .malformed

/-- The entries of a section, which may be missing. -/
def entriesOf (document : List (String × Value)) (name : String) : Except Unfit (List Value) :=
  match Value.field? name document with
  | none => .ok []
  | some v => listed v

/-- The items of a field, which may be missing or empty. -/
def namesIn (entry : List (String × Value)) (name : String) : Except Unfit (List Value) :=
  match Value.field? name entry with
  | none => .ok []
  | some v => if v.isPresent then listed v else .ok []

def entryOf (v : Value) : Except Unfit (List (String × Value) × Value) :=
  match v with
  | .record fields => match Value.field? "name" fields with
    | some name => .ok (fields, name)
    | none => .error .malformed
  | _ => .error .malformed

def interfaceOf (v : Value) : Except Unfit Described := do
  let (entry, name) ← entryOf v
  return { action := .interfaceDecl, name, interfaces := ← namesIn entry "extends" }

def classOf (v : Value) : Except Unfit Described := do
  let (entry, name) ← entryOf v
  return { action := .classDecl, name, parent := (Value.field? "extends" entry).getD .null
           interfaces := ← namesIn entry "implements", traits := ← namesIn entry "uses" }

def traitOf (v : Value) : Except Unfit Described := do
  let (entry, name) ← entryOf v
  return { action := .traitDecl, name, traits := ← namesIn entry "uses" }

/-- Interfaces first, then classes, then traits. -/
def described (document : Value) : Except Unfit (List Described) := do
  match document with
  | .record fields =>
    let interfaces ← (← entriesOf fields "interfaces").mapM interfaceOf
    let classes ← (← entriesOf fields "classes").mapM classOf
    let traits ← (← entriesOf fields "traits").mapM traitOf
    return interfaces ++ classes ++ traits
  | v => throw (.fault (.noPart v.kindName "get"))

def requireText (v : Value) : Except Unfit String := (Fault.requireName v).mapError .fault

def Described.op (d : Described) : Except Unfit Op := do
  let name ← requireText d.name
  let interfaces ← d.interfaces.mapM requireText
  let traits ← d.traits.mapM requireText
  let heritage ← match d.action with
    | .interfaceDecl => pure (Heritage.ofInterface interfaces)
    | .traitDecl => pure (Heritage.ofTrait traits)
    | _ =>
      let parent ← if d.parent.isPresent then some <$> requireText d.parent else pure none
      pure (Heritage.ofClass parent interfaces traits)
  return .classLike {} name heritage []

/-- A program of one script that declares the classes. All names are used before any supertype is. -/
def programOf (ds : List Described) : Except Unfit Graph := do
  let _ ← ds.mapM fun d => requireText d.name
  let _ ← (ds.flatMap Described.supertypes).mapM requireText
  let ops ← ds.mapM Described.op
  let (main, g) := ops.foldl Graph.addOp Graph.empty |>.addFunc
    { name := "\x7bmain\x7d", blocks := [ops] }
  return g.addScript { file := "<json>", main }

end TypeRecovery.Command
