import StepGraph.Artifact.Basic
import StepGraph.CommandLine.Arguments
import StepGraph.Document.Text
import StepGraph.Script.Compilation

/-!
# Running commands

A command reads a graph, reports what it finds on the error stream, and
writes a script, an artifact, or the graph in its saved form. The world is
a `Host`, so that a command means the same over files and in memory. The
first failure ends a command; what was written before it stays.
-/

namespace StepGraph.CommandLine

/-- Why a file was not written. -/
inductive WriteFault where
  | notCreated (reason : String)
  | notWritten (reason : String)

def WriteFault.reason : WriteFault → String
  | notCreated reason => reason
  | notWritten reason => reason

/-- What a command needs of the world. -/
structure Host (m : Type → Type) where
  /-- The text of a file, or why there is none. -/
  readText : String → m (Except String String)
  writeBytes : String → List UInt8 → m (Except WriteFault Unit)
  /-- Text for the output stream. -/
  print : String → m Unit
  /-- A line for the error stream. -/
  report : String → m Unit
  /-- The time since the start, as text. -/
  elapsed : m String

/-- How a program ends. -/
inductive Exit where
  | success
  | failure
  | usage
  deriving DecidableEq, Repr

def Exit.code : Exit → Nat
  | success => 0
  | failure => 1
  | usage => 2

/-! ## Pieces -/

/-- A tag and its target around the first equals sign, without the blanks
around them. -/
def splitAlias? (text : String) : Option (String × String) :=
  let cs := text.toList
  match cs.dropWhile (· != '=') with
  | [] => none
  | _ :: target =>
    some (String.ofList (Text.trim (cs.takeWhile (· != '='))), String.ofList (Text.trim target))

/-- The registry that the aliases make. -/
def registryOf : List String → Except String Registry
  | aliases => do
    let pairs ← aliases.mapM fun text =>
      match splitAlias? text with
      | some pair => .ok pair
      | none => .error ("Invalid alias '" ++ text ++ "', expected USER=BUILTIN")
    return Registry.builtin.withAliases pairs

section

variable {m : Type → Type} [Monad m] (host : Host m)

/-- A line on the error stream. -/
def report (line : String) : ExceptT String m Unit :=
  ExceptT.lift (host.report line)

/-- Text on the output stream. -/
def print (text : String) : ExceptT String m Unit :=
  ExceptT.lift (host.print text)

/-- Load the graph at a path and warn of nodes that nothing binds. The
commands draw no ids, so any source does. -/
def loadGraph (path : String) (registry : Registry) : ExceptT String m Loaded := do
  match ← ExceptT.lift (host.readText path) with
  | .error reason => throw ("Failed to read graph file '" ++ path ++ "': " ++ reason)
  | .ok text =>
    match Document.loadText text registry (.seeded 0) with
    | .error error => throw ("Failed to load graph: " ++ error.message)
    | .ok loaded =>
      loaded.unbound.forM fun problem => report host ("  warning: " ++ problem.message)
      return loaded

/-- Report every fault. -/
def reportFaults (found : ValidationReport) : ExceptT String m Unit :=
  found.errors.forM fun error => report host ("  error: " ++ error.message)

/-- Write the script to a file or to the output stream. -/
def writeScript (script : Script) : Option String → ExceptT String m Unit
  | none => print host script.text
  | some path => do
    match ← ExceptT.lift (host.writeBytes path script.text.toByteArray.data.toList) with
    | .error fault => throw ("Failed to write script to '" ++ path ++ "': " ++ fault.reason)
    | .ok () => report host ("  -> Wrote script to '" ++ path ++ "'")

/-- Why an artifact was not written. -/
def artifactFault (path : String) : WriteFault → String
  | .notCreated reason => "Could not create file '" ++ path ++ "': " ++ reason
  | .notWritten reason => "Could not write to file '" ++ path ++ "': " ++ reason

/-- Write the artifact of a script, where one is asked for. -/
def writeArtifact (script : Script) : Option String → ExceptT String m Unit
  | none => return ()
  | some path => do
    match ← ExceptT.lift (host.writeBytes path (Artifact.ofScript script).encode) with
    | .error fault => throw ("Failed to write artifact: " ++ artifactFault path fault)
    | .ok () => report host ("  -> Wrote artifact to '" ++ path ++ "'")

/-! ## Commands -/

def runCompile (registry : Registry) (path : String) (output artifact : Option String)
    (comments : Bool) : ExceptT String m Unit := do
  let loaded ← loadGraph host path registry
  let graph := loaded.store.graph
  match graph.compile registry comments with
  | .error found =>
    reportFaults host found
    throw "Compilation blocked by configuration errors"
  | .ok script =>
    script.diagnostics.forM fun problem => report host ("  warning: " ++ problem.message)
    writeScript host script output
    writeArtifact host script artifact
    let elapsed ← ExceptT.lift host.elapsed
    report host ("Compiled " ++ Text.natText graph.nodes.length ++ " nodes into "
      ++ Text.natText script.text.utf8ByteSize ++ " bytes in " ++ elapsed)

def runValidate (registry : Registry) (path : String) : ExceptT String m Unit := do
  let loaded ← loadGraph host path registry
  let graph := loaded.store.graph
  match graph.validate registry with
  | .ok () =>
    print host ("Graph is valid: " ++ Text.natText graph.nodes.length ++ " nodes, "
      ++ Text.natText graph.edges.length ++ " edges, "
      ++ Text.natText loaded.unbound.length ++ " unbound\n")
  | .error found =>
    reportFaults host found
    throw (Text.natText found.errors.length ++ " configuration error(s)")

def runNormalize (registry : Registry) (path : String) : ExceptT String m Unit := do
  let loaded ← loadGraph host path registry
  print host (loaded.store.text ++ "\n")

def runInvocation (invocation : Invocation) : ExceptT String m Unit := do
  let registry ← ExceptT.mk (pure (registryOf invocation.aliases))
  match invocation.command with
  | .compile path output artifact comments =>
    runCompile host registry path output artifact comments
  | .validate path => runValidate host registry path
  | .normalize path => runNormalize host registry path

/-- How the program is used. -/
def usage : String :=
  "Usage: step-graph [-v] [--alias USER=BUILTIN] COMMAND GRAPH

Commands:
  compile    Validate and compile a graph into a script
             [-o OUTPUT] [--artifact ARTIFACT] [--comments]
  validate   Check a graph for structural and configuration errors
  normalize  Load a graph and print its canonical JSON form
"

/-- **Run the program** on its arguments. -/
def run (arguments : List String) : m Exit := do
  match parse arguments with
  | .error error =>
    host.report ("error: " ++ error.message)
    host.report usage
    return .usage
  | .ok .help =>
    host.print usage
    return .success
  | .ok (.run invocation) =>
    match ← (runInvocation host invocation).run with
    | .ok () => return .success
    | .error message =>
      host.report ("\nError: " ++ message)
      return .failure

end

end StepGraph.CommandLine
