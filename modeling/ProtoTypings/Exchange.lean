import ProtoTypings.Descriptor.Wire
import ProtoTypings.Output
/-!
# Exchange with the compiler

The exchange with the protobuf compiler: it sends a request with all
descriptors and gets back the declaration files, or a text that says what is
wrong with them.
-/
namespace ProtoTypings

/-- What the compiler asks for. -/
structure Request where
  /-- The files to generate for. -/
  requested : List String := []
  parameter : String := ""
  /-- The requested files and all that they import. -/
  files : List File := []
  deriving Inhabited

namespace Request

def decode (bytes : List UInt8) : Option Request :=
  (WireKind.request.decode bytes).map fun record =>
    { requested := record.texts 1
      parameter := record.name 2
      files := (record.messages 15).map File.ofRecord }

/-- The declaration files that a request asks for. -/
def outputs (request : Request) : Except Fault (List Output) := do
  let settings ← Settings.ofParameter request.parameter
  generate settings request.files request.requested

end Request

/-- What the compiler gets back. -/
structure Response where
  error : Option String := none
  supportedFeatures : Nat := 1
  files : List Output := []
  deriving DecidableEq, Repr, Inhabited

namespace Response

/-- The response to a run's result. -/
def ofResult : Except Fault (List Output) → Response
  | .ok outputs => { files := outputs }
  | .error fault => { error := some (fault.kind ++ ": " ++ fault.message) }

def encodeFile (output : Output) : List UInt8 :=
  Wire.writeText 1 output.name ++ Wire.writeText 15 output.content

def encode (response : Response) : List UInt8 :=
  (response.error.map (Wire.writeText 1)).getD [] ++
    Wire.writeNumber 2 response.supportedFeatures ++
    response.files.flatMap fun output => Wire.writeBytes 15 (encodeFile output)

end Response

/-- The result of the run that bytes ask for. -/
def runRequest (bytes : List UInt8) : Except Fault (List Output) :=
  match Request.decode bytes with
  | some request => request.outputs
  | none => .error .undecodableRequest

def respond (bytes : List UInt8) : Response :=
  .ofResult (runRequest bytes)

end ProtoTypings
