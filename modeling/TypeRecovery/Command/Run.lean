import TypeRecovery.Analysis
import TypeRecovery.Command.Classes
import TypeRecovery.Command.Invocation
import TypeRecovery.Command.Log
import TypeRecovery.Signatures.Packaged
import TypeRecovery.Ty.Render
import TypeRecovery.Value.Json
import TypeRecovery.Value.JsonWriter

/-!
# Running an invocation

The output, the error lines and the end of a run. A file that a task needs is read beforehand; its
text is missing if it cannot be read.
-/
namespace TypeRecovery.Command

inductive Ending where
  | exit (code : Nat)
  /-- A document that is no JSON text. -/
  | unreadable
  | fault (f : Fault)

structure Response where
  out : String := ""
  err : List String := []
  ending : Ending := .exit 0

/-- The codes with which the program ends. -/
def failed : Ending := .exit 1
def unusable : Ending := .exit 2

def version : String := "phptypes 0.1.0"

/-- The line about a declaration that is taken for any value. -/
def fallback (p : Problem) : LogLine :=
  ⟨.debug, "declparser", "Falling back to mixed: " ++ p.message⟩

/-- The type of a declaration, and a line where it cannot be read. -/
def declaredLogged (v : Value) : Ty × List LogLine :=
  match Ty.declared v with
  | .ok t => (t, [])
  | .error p => (.mixed, [fallback p])

def runDeclarations (verbosity : Nat) (strict : Bool) : List String → Response
  | [] => {}
  | text :: rest =>
    let next := runDeclarations verbosity strict rest
    if strict then
      match Ty.declared (.text text) with
      | .ok t => { next with out := t.render ++ "\n" ++ next.out }
      | .error p => { next with err := p.text :: next.err, ending := failed }
    else
      let (t, lines) := declaredLogged (.text text)
      { next with out := t.render ++ "\n" ++ next.out, err := shownLines verbosity lines ++ next.err }

def loadedLine (s : Signatures) : LogLine :=
  ⟨.debug, "builtins", "Loaded " ++ toString s.functions.size ++ " built-in functions and " ++
    toString s.classes.size ++ " built-in classes"⟩

def indexedLine (i : Index) : LogLine :=
  let count (a : Action) : String :=
    toString (i.classLikes.countP fun c => c.heritage.action = a)
  ⟨.info, "declarations", "Indexed " ++ count .classDecl ++ " classes, " ++ count .interfaceDecl ++
    " interfaces, " ++ count .traitDecl ++ " traits, " ++
    toString i.functions.values.flatten.length ++ " functions, " ++
    toString i.constants.values.flatten.length ++ " constants"⟩

def analysedLine (a : Analysis) : LogLine :=
  ⟨.info, "state", "Loaded " ++ toString a.graph.scripts.length ++ " scripts: " ++
    toString a.operands.length ++ " operands, " ++ toString a.hierarchy.size ++
    " names in hierarchy"⟩

def keyTexts (ks : List Key) : Value := .list ((Key.sort ks).map fun k => .text k.text)

/-- What stands above and below each class of the program. -/
def hierarchyPage (a : Analysis) : Value :=
  let names := Key.sort ((a.index.classLikes.map fun c => Key.of c.name).eraseDups)
  let table (f : Key → List Key) : Value := .record (names.map fun k => (k.text, keyTexts (f k)))
  .record [("resolves", table a.hierarchy.ancestors), ("resolved_by", table a.hierarchy.descendants)]

def Response.ofFault (f : Fault) : Response := { ending := .fault f }

def runHierarchy (verbosity : Nat) (file : Option String) : Response :=
  match file.bind Value.Json.read? with
  | none => { ending := unusable }
  | some document => match described document >>= programOf with
    | .error .malformed => { ending := unusable }
    | .error (.fault f) => .ofFault f
    | .ok g => match Analysis.of g {} Signatures.packaged with
      | .error f => .ofFault f
      | .ok a =>
        { out := Value.Json.writePage (hierarchyPage a) ++ "\n"
          err := shownLines verbosity
            [loadedLine a.signatures, indexedLine a.index, analysedLine a] }

/-- The class and the member of a name with `::`. -/
def splitMember : List Char → Option (List Char × List Char)
  | [] => none
  | ':' :: ':' :: member => some ([], member)
  | c :: cs => (splitMember cs).map fun (cls, member) => (c :: cls, member)

/-- The declaration of a function, or of a method named with its class. -/
def builtinDeclaration? (s : Signatures) (name : String) : Option Value :=
  match splitMember name.toList with
  | some (cls, member) =>
    (s.lineage [] (Key.of (String.ofList cls))).findSome? fun c =>
      s.ownDeclaration? .method c (Key.of (String.ofList member))
  | none => s.functions.get? (Key.of name)

def showBuiltin (verbosity : Nat) (s : Signatures) (lines : List LogLine) (name : String) :
    Response :=
  match (builtinDeclaration? s name).filter (·.isPresent) with
  | none =>
    { err := shownLines verbosity lines ++ ["No built-in return type known for " ++ name]
      ending := failed }
  | some decl =>
    let (t, more) := declaredLogged decl
    { out := t.render ++ "\n", err := shownLines verbosity (lines ++ more) }

def runBuiltin (verbosity : Nat) (name : String) (path file : Option String) : Response :=
  match path with
  | none => showBuiltin verbosity .packaged [loadedLine .packaged] name
  | some path => match file with
    | none => { ending := unusable }
    | some text => match Value.Json.read? text with
      | none => { ending := .unreadable }
      | some data => match Signatures.packaged.merge data with
        | (_, some f) => .ofFault f
        | (s, none) =>
          let merged : LogLine :=
            ⟨.info, "builtins", "Merged built-in signatures from " ++ normalPath path⟩
          showBuiltin verbosity s [merged, loadedLine s] name

/-- Runs an invocation with the text of the file that its task reads. -/
def run (i : Invocation) (file : Option String) : Response :=
  match i.task with
  | .declarations strict texts => runDeclarations i.verbosity strict texts
  | .hierarchy _ => runHierarchy i.verbosity file
  | .builtin name path => runBuiltin i.verbosity name path file

/-- The response to a command line; `file` gives the text of a file. -/
def respond (args : List String) (file : String → Option String) : Response :=
  match Request.ofArguments args with
  | .invocation i => run i (i.task.path?.bind file)
  | .version => { out := version ++ "\n" }
  | .help => {}
  | .misuse => { ending := unusable }

end TypeRecovery.Command
