import TypeRecovery.Problem.Basic
import TypeRecovery.Signatures.Basic

/-!
# Reading signatures

A document of signatures has a table of functions and a table of classes. Reading goes from front to
back and stops at the first fault; what was read before it stands.
-/
namespace TypeRecovery.Signatures

/-- Entries in order, up to the first fault if there is one. -/
structure Reading where
  entries : List Entry := []
  fault : Option Fault := none

namespace Reading

def of (x : Except Fault (List Entry)) : Reading :=
  match x with
  | .ok es => ⟨es, none⟩
  | .error f => ⟨[], some f⟩

/-- The second part is read only if the first has no fault. -/
def followedBy (r next : Reading) : Reading :=
  match r.fault with
  | some _ => r
  | none => ⟨r.entries ++ next.entries, next.fault⟩

def all (rs : List Reading) : Reading := rs.foldr followedBy {}

end Reading

/-- The fields of a table, which may be left out. -/
def fieldsOf (v : Value) : Except Fault (List (String × Value)) :=
  if !v.isPresent then .ok []
  else match v with
    | .record fs => .ok fs
    | v => .error (.noPart v.kindName "items")

/-- A field of something that has fields. -/
def fieldOf (v : Value) (name : String) : Except Fault Value :=
  match v with
  | .record fs => .ok ((Value.field? name fs).getD .null)
  | v => .error (.noPart v.kindName "get")

/-- The items of something that can be listed: of a text its characters, of a record its names. -/
def itemsOf (v : Value) : Except Fault (List Value) :=
  match v with
  | .list vs => .ok vs
  | .text s => .ok (s.toList.map fun c => .text c.toString)
  | .record fs => .ok (fs.map fun (name, _) => .text name)
  | v => .error (.notListable v.kindName)

def parentEntries (cls : Key) (info : Value) : Except Fault (List Entry) := do
  let parent ← fieldOf info "extends"
  if parent.isPresent then return [.parent cls (Key.of (← Fault.requireName parent))]
  return []

def interfaceEntries (cls : Key) (info : Value) : Except Fault (List Entry) := do
  let parents ← fieldOf info "implements"
  if !parents.isPresent then return []
  return [.interfaces cls (← (← itemsOf parents).mapM fun v => Key.of <$> Fault.requireName v)]

def memberEntries (kind : MemberKind) (field : String) (cls : Key) (info : Value) :
    Except Fault (List Entry) := do
  let fields ← fieldsOf (← fieldOf info field)
  return fields.map fun (name, decl) => .member kind cls (Key.of name) decl

def readClass (name : String) (info : Value) : Reading :=
  let cls := Key.of name
  let info := if info.isPresent then info else .record []
  Reading.all [⟨[.className cls name], none⟩, .of (parentEntries cls info),
    .of (interfaceEntries cls info), .of (memberEntries .method "methods" cls info),
    .of (memberEntries .property "properties" cls info),
    .of (memberEntries .constant "constants" cls info)]

def read (data : Value) : Reading :=
  let functions := do
    return (← fieldsOf (← fieldOf data "functions")).map fun (name, decl) =>
      Entry.function (Key.of name) decl
  let classes := match fieldOf data "classes" >>= fieldsOf with
    | .ok fs => Reading.all (fs.map fun (name, info) => readClass name info)
    | .error f => ⟨[], some f⟩
  (Reading.of functions).followedBy classes

/-- Adds a document of signatures. A fault leaves the part in front of it added. -/
def merge (s : Signatures) (data : Value) : Signatures × Option Fault :=
  let r := read data
  (s.addAll r.entries, r.fault)

end TypeRecovery.Signatures
