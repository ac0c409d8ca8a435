import StepGraph.CommandLine.Run

/-!
# The program

The commands, run over the files and streams of the process.
-/

namespace StepGraph.CommandLine

/-- The reason of a failed access to a file. -/
def failureReason : IO.Error → String
  | .noFileOrDirectory _ code _ =>
    "No such file or directory (os error " ++ toString code ++ ")"
  | error => toString error

/-- Read a file as UTF-8 text. -/
def readFile (path : String) : IO (Except String String) := do
  match ← (IO.FS.readBinFile path).toBaseIO with
  | .error error => return .error (failureReason error)
  | .ok bytes =>
    match String.fromUTF8? bytes with
    | some text => return .ok text
    | none => return .error "stream did not contain valid UTF-8"

/-- Create a file and write bytes to it. -/
def writeFile (path : String) (bytes : List UInt8) : IO (Except WriteFault Unit) := do
  match ← (IO.FS.Handle.mk path .write).toBaseIO with
  | .error error => return .error (.notCreated (failureReason error))
  | .ok handle =>
    match ← (handle.write ⟨bytes.toArray⟩).toBaseIO with
    | .error error => return .error (.notWritten (failureReason error))
    | .ok () => return .ok ()

/-- The process as a host; time runs from `start`. -/
def processHost (start : Nat) : Host IO where
  readText := readFile
  writeBytes := writeFile
  print := IO.print
  report := fun line => do (← IO.getStderr).putStrLn line
  elapsed := do return toString ((← IO.monoMsNow) - start) ++ "ms"

end StepGraph.CommandLine

/-- Run the command that the arguments name and exit with its code. -/
def main (arguments : List String) : IO UInt32 := do
  let host := StepGraph.CommandLine.processHost (← IO.monoMsNow)
  let exit ← StepGraph.CommandLine.run host arguments
  return exit.code.toUInt32
