import TypeRecovery.Command.Line

/-!
# Invocations

What the program is asked to do: show the canonical form of declarations, the hierarchy of declared
classes, or the type of a built-in function or method.
-/
namespace TypeRecovery.Command

inductive Task where
  | declarations (strict : Bool) (texts : List String)
  | hierarchy (path : String)
  | builtin (name : String) (signaturePath : Option String)

structure Invocation where
  verbosity : Nat
  task : Task

/-- What a command line comes to. -/
inductive Request where
  | invocation (i : Invocation)
  | version
  | help
  | misuse

inductive MainTag where
  | help
  | version
  | verbose
  deriving DecidableEq

inductive TaskTag where
  | help
  | strict
  | signatures
  deriving DecidableEq

def mainLayout : Layout MainTag where
  opts := [⟨["-h", "--help"], false, .help⟩, ⟨["--version"], false, .version⟩,
    ⟨["-v", "--verbose"], false, .verbose⟩]
  arity := .command

def helpOption : Opt TaskTag := ⟨["-h", "--help"], false, .help⟩

def declarationsLayout : Layout TaskTag :=
  ⟨[helpOption, ⟨["--strict"], false, .strict⟩], .oneOrMore⟩

def hierarchyLayout : Layout TaskTag := ⟨[helpOption], .one⟩

def builtinLayout : Layout TaskTag :=
  ⟨[helpOption, ⟨["--builtins"], true, .signatures⟩], .one⟩

/-- The options and arguments of a task; the last value of an option counts. -/
structure Given where
  strict : Bool := false
  signaturePath : Option String := none
  arguments : List String := []
  hasLeft : Bool := false

/-- Goes through what was read. Asking for help ends it. -/
def gather (isWrong : Bool) (g : Given) : List (Item TaskTag) → Except Request Given
  | [] => if isWrong then .error .misuse else .ok g
  | .option .help _ :: _ => .error .help
  | .option .strict _ :: rest => gather isWrong { g with strict := true } rest
  | .option .signatures value :: rest => gather isWrong { g with signaturePath := value } rest
  | .arguments texts :: rest => gather isWrong { g with arguments := texts } rest
  | .left _ :: rest => gather isWrong { g with hasLeft := true } rest

def given (l : Layout TaskTag) (args : List String) : Except Request Given :=
  let r := l.read args
  gather r.isWrong {} r.items

/-- The task that a command names, and whether something is left over. -/
def task (command : String) (args : List String) : Except Request (Task × Bool) := do
  match command with
  | "decl" =>
    let g ← given declarationsLayout args
    return (.declarations g.strict g.arguments, g.hasLeft)
  | "hierarchy" =>
    let g ← given hierarchyLayout args
    return (.hierarchy (g.arguments.headD ""), g.hasLeft)
  | "builtin" =>
    let g ← given builtinLayout args
    return (.builtin (g.arguments.headD "") g.signaturePath, g.hasLeft)
  | _ => throw .misuse

/-- Goes through what was read in front of the command, and then through the command. -/
def request (isWrong : Bool) (verbosity : Nat) (found : Option Task) (hasLeft : Bool) :
    List (Item MainTag) → Request
  | [] =>
    match found with
    | some t => if isWrong || hasLeft then .misuse else .invocation ⟨verbosity, t⟩
    | none => .misuse
  | .option .help _ :: _ => .help
  | .option .version _ :: _ => .version
  | .option .verbose _ :: rest => request isWrong (verbosity + 1) found hasLeft rest
  | .left _ :: rest => request isWrong verbosity found true rest
  | .arguments texts :: rest =>
    match task (texts.headD "") texts.tail with
    | .ok (t, left) => request isWrong verbosity (some t) (hasLeft || left) rest
    | .error r => r

def Request.ofArguments (args : List String) : Request :=
  let r := mainLayout.read args
  request r.isWrong 0 none false r.items

/-- The file that a task reads. -/
def Task.path? : Task → Option String
  | declarations .. => none
  | hierarchy path => some path
  | builtin _ path => path

end TypeRecovery.Command
