import StepGraph.Artifact.Varint
import StepGraph.Script.Generation

/-!
# Artifacts

An artifact is a script as it is handed to the bot runtime: the version of
the runtime, the text, and the messages of what was left out. Its bytes are
the three in a row, a text as its length and its UTF-8 bytes, a list as its
length and its items. Reading takes what it needs from the front and
refuses every version but the runtime's own.
-/

namespace StepGraph

/-- A compiled script with the version of the runtime it is written for. -/
structure Artifact where
  version : UInt32
  script : String
  diagnostics : List String
  deriving DecidableEq, Repr

/-- Why bytes are no artifact that the runtime takes. -/
inductive ArtifactError where
  | versionMismatch (expected found : Nat)
  /-- The bytes end early or spell no artifact. -/
  | malformed
  deriving DecidableEq, Repr

def ArtifactError.message : ArtifactError → String
  | versionMismatch expected found =>
    "Artifact was built for runtime ABI " ++ Text.natText found ++ ", expected "
      ++ Text.natText expected
  | malformed => "Deserialization failed"

namespace Artifact

/-- The artifact of a script. -/
def ofScript (script : Script) : Artifact where
  version := Script.runtimeVersion.toUInt32
  script := script.text
  diagnostics := script.diagnostics.map Diagnostic.message

/-! ## Writing -/

/-- The bytes of a text. -/
def encodeText (text : String) : List UInt8 :=
  Varint.encode text.utf8ByteSize ++ text.toByteArray.data.toList

/-- **The bytes of an artifact.** -/
def encode (artifact : Artifact) : List UInt8 :=
  Varint.encode artifact.version.toNat ++ encodeText artifact.script
    ++ Varint.encode artifact.diagnostics.length
    ++ artifact.diagnostics.flatMap encodeText

/-! ## Reading -/

/-- A text, and what follows it. -/
def decodeText? (bytes : List UInt8) : Option (String × List UInt8) := do
  let (length, bytes) ← Varint.decode? 8 bytes
  let (text, bytes) ← Varint.split? length bytes
  return (← String.fromUTF8? ⟨text.toArray⟩, bytes)

/-- A number of texts, and what follows them. -/
def decodeTexts? : Nat → List UInt8 → Option (List String × List UInt8)
  | 0, bytes => some ([], bytes)
  | count + 1, bytes => do
    let (text, bytes) ← decodeText? bytes
    let (texts, bytes) ← decodeTexts? count bytes
    return (text :: texts, bytes)

/-- An artifact of any version, and what follows it. -/
def decodeAny? (bytes : List UInt8) : Option (Artifact × List UInt8) := do
  let (version, bytes) ← Varint.decode? 4 bytes
  let (script, bytes) ← decodeText? bytes
  let (count, bytes) ← Varint.decode? 8 bytes
  let (diagnostics, bytes) ← decodeTexts? count bytes
  return (⟨version.toUInt32, script, diagnostics⟩, bytes)

/-- **The artifact that bytes begin with**, where it is written for the
runtime's version. -/
def decode (bytes : List UInt8) : Except ArtifactError Artifact :=
  match decodeAny? bytes with
  | none => .error .malformed
  | some (artifact, _) =>
    if artifact.version.toNat = Script.runtimeVersion then .ok artifact
    else .error (.versionMismatch Script.runtimeVersion artifact.version.toNat)

end Artifact

end StepGraph
