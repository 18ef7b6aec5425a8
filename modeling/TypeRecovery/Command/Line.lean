import TypeRecovery.Text.Digit

/-!
# Reading a command line

A command line mixes options with arguments. An option has names of which long ones may be shortened
as long as one option only is meant, it may carry its value behind `=`, and short options may share
one dash. Everything behind `--` is an argument. A layout says which options there are and how many
arguments are taken; what does not fit is left over. Reading stops at the first thing that is wrong,
and what was read before it stands, because an option such as a request for the version takes effect
where it stands.
-/
namespace TypeRecovery.Command

structure Opt (α : Type) where
  names : List String
  takesValue : Bool
  tag : α

/-- How many arguments are taken. -/
inductive Arity where
  | one
  | oneOrMore
  /-- One argument and everything behind it, options included; it may be missing. -/
  | command
  deriving DecidableEq

structure Layout (α : Type) where
  opts : List (Opt α)
  arity : Arity

/-- What is read off a command line. -/
inductive Item (α : Type) where
  | option (tag : α) (value : Option String)
  | arguments (texts : List String)
  | left (text : String)

structure Reading (α : Type) where
  items : List (Item α) := []
  isWrong : Bool := false

namespace Reading

variable {α : Type}

def wrong : Reading α := ⟨[], true⟩
def before (items : List (Item α)) (r : Reading α) : Reading α := ⟨items ++ r.items, r.isWrong⟩

end Reading

/-- An option as it was found: its name, and the value that came with it, behind `=` or not. -/
structure Found (α : Type) where
  opt : Opt α
  name : String
  value : Option (Bool × String) := none

inductive Token (α : Type) where
  | argument (text : String)
  | dashes
  | option (text : String) (found : Found α)
  | unknown (text : String)

def Token.text {α : Type} : Token α → String
  | argument t | unknown t | option t _ => t
  | dashes => "--"

def Token.isOption {α : Type} : Token α → Bool
  | option .. | unknown _ => true
  | _ => false

/-- The text in front of the first `=` and the text behind it. -/
def splitValue (s : String) : String × Option String :=
  let cs := s.toList
  match cs.dropWhile (· != '=') with
  | [] => (s, none)
  | _ :: value => (String.ofList (cs.takeWhile (· != '=')), some (String.ofList value))

/-- A number with a minus, which is an argument although it starts like an option. -/
def isNegativeNumber (s : String) : Bool :=
  match s.toList with
  | '-' :: cs =>
    let cs := if cs.getLast? == some '\n' then cs.dropLast else cs
    let whole := cs.takeWhile Text.isDecimalDigit
    match cs.dropWhile Text.isDecimalDigit with
    | [] => !whole.isEmpty
    | '.' :: fraction => !fraction.isEmpty && fraction.all Text.isDecimalDigit
    | _ => false
  | _ => false

namespace Layout

variable {α : Type}

def named (l : Layout α) : List (String × Opt α) :=
  l.opts.flatMap fun o => o.names.map fun n => (n, o)

def find? (l : Layout α) (name : String) : Option (Opt α) :=
  (l.named.find? fun e => e.1 == name).map Prod.snd

/-- The options that a text may mean which is none of the names. -/
def meanings (l : Layout α) (s : String) : List (Found α) :=
  match s.toList with
  | '-' :: '-' :: _ =>
    let (start, value) := splitValue s
    (l.named.filter fun e => start.toList.isPrefixOf e.1.toList).map fun (n, o) =>
      ⟨o, n, value.map fun v => (true, v)⟩
  | '-' :: c :: rest =>
    l.named.filterMap fun (n, o) =>
      if n.toList == ['-', c] then some ⟨o, n, some (false, String.ofList rest)⟩
      else if s.toList.isPrefixOf n.toList then some ⟨o, n, none⟩
      else none
  | _ => []

/-- What a text in front of `--` is; nothing if it may mean several options. -/
def token? (l : Layout α) (s : String) : Option (Token α) :=
  match s.toList with
  | '-' :: _ :: _ =>
    match l.find? s, splitValue s with
    | some o, _ => some (.option s ⟨o, s, none⟩)
    | none, (name, value) =>
      match value, l.find? name with
      | some v, some o => some (.option s ⟨o, name, some (true, v)⟩)
      | _, _ =>
        match l.meanings s with
        | [f] => some (.option s f)
        | _ :: _ :: _ => none
        | [] =>
          if isNegativeNumber s || s.toList.contains ' ' then some (.argument s)
          else some (.unknown s)
  | _ => some (.argument s)

def tokens? (l : Layout α) : List String → Option (List (Token α))
  | [] => some []
  | s :: rest =>
    if s == "--" then some (.dashes :: rest.map .argument)
    else do return (← l.token? s) :: (← l.tokens? rest)

/-- What one text with options comes to. The last option may need the next argument. -/
inductive Spelled (α : Type) where
  | wrong
  | complete (items : List (Item α))
  | needsValue (items : List (Item α)) (tag : α)

/-- An option that stands without a value of its own. -/
def bare (o : Opt α) (items : List (Item α)) : Spelled α :=
  if o.takesValue then .needsValue items o.tag else .complete (items ++ [.option o.tag none])

/-- Options that share one dash. `joined` is the text behind the first. -/
def cluster (l : Layout α) (o : Opt α) (items : List (Item α)) (equals : Bool) :
    (joined : List Char) → Spelled α
  | [] => if o.takesValue then .complete (items ++ [.option o.tag (some "")]) else .wrong
  | c :: cs =>
    if o.takesValue then .complete (items ++ [.option o.tag (some (String.ofList (c :: cs)))])
    else if equals || c == '-' then .wrong
    else
      let items := items ++ [.option o.tag none]
      match l.find? (String.ofList ['-', c]) with
      | none => .complete (.left (String.ofList ('-' :: c :: cs)) :: items)
      | some next => match cs with
        | [] => bare next items
        | '=' :: value => l.cluster next items true value
        | cs => l.cluster next items false cs

def spell (l : Layout α) (f : Found α) : Spelled α :=
  match f.value with
  | none => bare f.opt []
  | some (equals, value) =>
    match f.name.toList with
    | '-' :: '-' :: _ =>
      if f.opt.takesValue then .complete [.option f.opt.tag (some value)] else .wrong
    | _ => l.cluster f.opt [] equals value.toList

/-- The number of tokens that the arguments take from the front, or none if they cannot start
there. -/
def extent (arity : Arity) (tokens : List (Token α)) : Option Nat :=
  let lead := match tokens with
    | .dashes :: _ => 1
    | _ => 0
  match tokens.drop lead with
  | .argument _ :: rest =>
    match arity with
    | .one => match rest with
      | .dashes :: _ => some (lead + 2)
      | _ => some (lead + 1)
    | .oneOrMore => some (lead + 1 + (rest.takeWhile fun t => !t.isOption).length)
    | .command => some tokens.length
  | _ => none

/-- The texts of arguments; a first `--` among them only marks where options end. -/
def argumentTexts (arity : Arity) (tokens : List (Token α)) : List String :=
  let texts := tokens.map Token.text
  if arity = .command then texts else texts.erase "--"

def scan (l : Layout α) (taken : Bool) (tokens : List (Token α)) : Reading α :=
  match tokens with
  | [] => ⟨[], !taken && l.arity ≠ .command⟩
  | .unknown s :: rest => (l.scan taken rest).before [.left s]
  | .option _ f :: rest =>
    match l.spell f with
    | .wrong => .wrong
    | .complete items => (l.scan taken rest).before items
    | .needsValue items tag => match rest with
      | .argument v :: rest' => (l.scan taken rest').before (items ++ [.option tag (some v)])
      | _ => .wrong
  | t :: rest =>
    match if taken then none else extent l.arity (t :: rest) with
    | none => (l.scan taken rest).before [.left t.text]
    | some n =>
      (l.scan true (rest.drop (n - 1))).before
        [.arguments (argumentTexts l.arity ((t :: rest).take n))]
  termination_by tokens.length
  decreasing_by
    all_goals simp only [List.length_cons, List.length_drop]
    all_goals omega

def read (l : Layout α) (args : List String) : Reading α :=
  match l.tokens? args with
  | none => .wrong
  | some tokens => l.scan false tokens

end Layout

end TypeRecovery.Command
