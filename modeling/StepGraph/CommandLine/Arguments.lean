/-!
# Command line arguments

Three commands, each with the path of a graph: `compile`, `validate` and
`normalize`. Aliases and the wish for more detail may stand before or after
the command; aliases after it put the ones before it out of force. The
other options belong to `compile` and may stand there once. An option's
value follows in the same argument or is the next one, which then does not
begin with a hyphen unless it is nothing else. Behind a double hyphen no
argument is an option. In the place of a command, `help` may stand, and then
the name of the one command that it is about.
-/

namespace StepGraph.CommandLine

/-- What is to be done with the graph at a path. -/
inductive Command where
  | compile (graph : String) (output artifact : Option String) (comments : Bool)
  | validate (graph : String)
  | normalize (graph : String)
  deriving DecidableEq, Repr

/-- A command with the aliases that hold for it. -/
structure Invocation where
  aliases : List String
  command : Command
  deriving DecidableEq, Repr

/-- What the arguments ask for. -/
inductive Request where
  | run (invocation : Invocation)
  | help
  deriving DecidableEq, Repr

/-- What is wrong with the arguments. -/
inductive UsageError where
  | missingCommand
  | unknownCommand (argument : String)
  | unknownOption (argument : String)
  | missingValue (flag : String)
  | unexpectedValue (flag : String)
  | repeatedOption (flag : String)
  | missingGraph
  | surplusArgument (argument : String)
  deriving DecidableEq, Repr

def UsageError.message : UsageError → String
  | missingCommand => "a command is required"
  | unknownCommand argument => "unrecognized command '" ++ argument ++ "'"
  | unknownOption argument => "unexpected argument '" ++ argument ++ "'"
  | missingValue flag => "a value is required for '" ++ flag ++ "'"
  | unexpectedValue flag => "no value is possible for '" ++ flag ++ "'"
  | repeatedOption flag => "'" ++ flag ++ "' cannot be used several times"
  | missingGraph => "the path of a graph is required"
  | surplusArgument argument => "unexpected argument '" ++ argument ++ "'"

/-! ## Names -/

inductive CommandName where
  | compile
  | validate
  | normalize
  deriving DecidableEq, Repr

def CommandName.ofText? (text : String) : Option CommandName :=
  [("compile", compile), ("validate", validate), ("normalize", normalize)].lookup text

/-- The command that only explains the others, and itself. -/
def helpName : String := "help"

/-- The options that take a value. -/
inductive Valued where
  | kindAlias
  | output
  | artifact
  deriving DecidableEq, Repr

/-- The options that are there or not. -/
inductive Switch where
  | verbose
  | help
  | comments
  deriving DecidableEq, Repr

/-- An option, known by a long name and perhaps by a letter. -/
inductive Flag where
  | valued (flag : Valued)
  | switch (flag : Switch)
  deriving DecidableEq, Repr

/-- The options that may stand with a command, or before any. -/
def Flag.allowed (command : Option CommandName) : Flag → Bool
  | valued .kindAlias => true
  | switch .verbose => true
  | switch .help => true
  | _ => command == some .compile

def Flag.ofLong? (name : String) : Option Flag :=
  [("alias", valued .kindAlias), ("output", valued .output), ("artifact", valued .artifact),
    ("verbose", switch .verbose), ("help", switch .help),
    ("comments", switch .comments)].lookup name

def Flag.ofLetter? (letter : Char) : Option Flag :=
  [('o', valued .output), ('v', switch .verbose), ('h', switch .help)].lookup letter

/-! ## Reading -/

/-- What has been read so far. -/
structure Progress where
  outerAliases : List String := []
  innerAliases : List String := []
  command : Option CommandName := none
  graph : Option String := none
  output : Option String := none
  artifact : Option String := none
  comments : Bool := false
  helps : Bool := false
  literal : Bool := false

namespace Progress

/-- An option with its value. -/
def setValue (p : Progress) (flag value : String) : Valued → Except UsageError Progress
  | .kindAlias =>
    if p.command.isSome then .ok { p with innerAliases := p.innerAliases ++ [value] }
    else .ok { p with outerAliases := p.outerAliases ++ [value] }
  | .output =>
    if p.output.isSome then .error (.repeatedOption flag) else .ok { p with output := some value }
  | .artifact =>
    if p.artifact.isSome then .error (.repeatedOption flag)
    else .ok { p with artifact := some value }

/-- An option without a value. -/
def setSwitch (p : Progress) (flag : String) : Switch → Except UsageError Progress
  | .verbose => .ok p
  | .help => .ok { p with helps := true }
  | .comments =>
    if p.comments then .error (.repeatedOption flag) else .ok { p with comments := true }

/-- An argument that is no option: the command, then its graph. -/
def positional (p : Progress) (argument : String) : Except UsageError Progress :=
  match p.command with
  | none =>
    if p.literal then .error (.surplusArgument argument)
    else match CommandName.ofText? argument with
      | some name => .ok { p with command := some name }
      | none => .error (.unknownCommand argument)
  | some _ =>
    if p.graph.isSome then .error (.surplusArgument argument)
    else .ok { p with graph := some argument }

end Progress

/-- What one argument leads to: it is done with, its option waits for a
value, or it asks for help on what follows. -/
inductive Step where
  | done (progress : Progress)
  | awaits (progress : Progress) (flag : String) (valued : Valued)
  | explains (progress : Progress)

/-- The letters of an argument with one hyphen. The rest of the argument
is the value of a letter that takes one, an equals sign aside. -/
def readLetters (p : Progress) : List Char → Except UsageError Step
  | [] => .ok (.done p)
  | letter :: rest =>
    let flag := "-" ++ String.singleton letter
    match (Flag.ofLetter? letter).filter (Flag.allowed p.command) with
    | none => .error (.unknownOption flag)
    | some (.switch s) =>
      match p.setSwitch flag s with
      | .ok p => if p.helps then .ok (.done p) else readLetters p rest
      | .error e => .error e
    | some (.valued v) =>
      match rest with
      | [] => .ok (.awaits p flag v)
      | '=' :: value => .done <$> p.setValue flag (String.ofList value) v
      | value => .done <$> p.setValue flag (String.ofList value) v

/-- An argument with two hyphens: a name, and a value behind an equals
sign. -/
def readLong (p : Progress) (text : List Char) : Except UsageError Step :=
  let name := String.ofList (text.takeWhile (· != '='))
  let flag := "--" ++ name
  match (Flag.ofLong? name).filter (Flag.allowed p.command), text.dropWhile (· != '=') with
  | none, _ => .error (.unknownOption flag)
  | some (.switch s), [] => .done <$> p.setSwitch flag s
  | some (.switch _), _ => .error (.unexpectedValue flag)
  | some (.valued v), [] => .ok (.awaits p flag v)
  | some (.valued v), _ :: value => .done <$> p.setValue flag (String.ofList value) v

/-- One argument, as long as arguments may be options. -/
def readArgument (p : Progress) (argument : String) : Except UsageError Step :=
  match argument.toList with
  | ['-', '-'] => .ok (.done { p with literal := true })
  | '-' :: '-' :: text => readLong p text
  | '-' :: first :: rest => readLetters p (first :: rest)
  | _ =>
    if p.command.isNone ∧ argument = helpName then .ok (.explains p)
    else .done <$> p.positional argument

/-- Whether an argument can be the value of the option before it. -/
def isValue (argument : String) : Bool :=
  match argument.toList with
  | '-' :: _ :: _ => false
  | _ => true

/-- What may follow the word `help`: the command that help is wanted on, or
nothing. -/
def readTopic : List String → Except UsageError Unit
  | [] => .ok ()
  | topic :: rest =>
    if topic = helpName ∨ (CommandName.ofText? topic).isSome then
      match rest with
      | [] => .ok ()
      | argument :: _ => .error (.unknownCommand argument)
    else .error (.unknownCommand topic)

/-- All arguments in a row, the first of them perhaps awaited as a
value. -/
def readAll : Step → List String → Except UsageError Progress
  | .explains p, topics =>
    match readTopic topics with
    | .ok () => .ok { p with helps := true }
    | .error e => .error e
  | .done p, [] => .ok p
  | .awaits _ flag _, [] => .error (.missingValue flag)
  | .awaits p flag v, argument :: rest =>
    if isValue argument then
      match p.setValue flag argument v with
      | .ok p => readAll (.done p) rest
      | .error e => .error e
    else .error (.missingValue flag)
  | .done p, argument :: rest =>
    if p.helps then .ok p
    else
      let step := if p.literal then .done <$> p.positional argument else readArgument p argument
      match step with
      | .ok step => readAll step rest
      | .error e => .error e

/-- The command that was read, once everything it needs is there. -/
def Progress.command? (p : Progress) : Except UsageError Command :=
  match p.command, p.graph with
  | none, _ => .error .missingCommand
  | some _, none => .error .missingGraph
  | some .compile, some graph => .ok (.compile graph p.output p.artifact p.comments)
  | some .validate, some graph => .ok (.validate graph)
  | some .normalize, some graph => .ok (.normalize graph)

/-- **What the arguments ask for.** -/
def parse (arguments : List String) : Except UsageError Request := do
  let p ← readAll (.done {}) arguments
  if p.helps then return .help
  let command ← p.command?
  let aliases := if p.innerAliases.isEmpty then p.outerAliases else p.innerAliases
  return .run ⟨aliases, command⟩

end StepGraph.CommandLine
