import ProtoTypings.CommandLine.Arguments
import ProtoTypings.CommandLine.FileAccess
import ProtoTypings.CommandLine.Path
import ProtoTypings.Descriptor.Wire
import ProtoTypings.Output
import ProtoTypings.Text.Quoted
/-!
# Runs from the command line

Without a source of descriptors the program is a compiler plugin. Otherwise it
reads descriptor sets from files, generates, and then writes the declaration
files, shows what it would write, or compares them with what is there.

A file that occurs in several sets is read from the first. Output paths are
checked before use, one file after the other, so what comes before a refused
path is already done.
-/
namespace ProtoTypings

/-- What is done with the generated files. -/
inductive Mode where
  /-- They are written, over existing files or not. -/
  | write (overwrite : Bool)
  /-- They are named, with their contents or without. -/
  | preview (contents : Bool)
  /-- They are compared with the files that are there. -/
  | compare
  deriving DecidableEq, Repr, Inhabited

/-- A run on descriptor sets. -/
structure Invocation where
  descriptorSets : List String := []
  descriptorDir : Option String := none
  /-- The files to generate for; without any, all of them. -/
  files : List String := []
  output : String := "."
  parameter : String := ""
  mode : Mode := .write false
  deriving DecidableEq, Repr, Inhabited

/-- What the program is called for. -/
inductive Command where
  | plugin
  | files (invocation : Invocation)
  deriving DecidableEq, Repr, Inhabited

def Arguments.mode (arguments : Arguments) : Mode :=
  if arguments.check then .compare
  else if arguments.dryRun then .preview (0 < arguments.verbosity)
  else .write arguments.force

/-- The command that arguments give. The environment's parameter counts only
without one among the arguments. -/
def Arguments.command (arguments : Arguments) (environment : Option String) : Command :=
  if arguments.descriptorSets.isEmpty && arguments.descriptorDir.isNone then .plugin
  else
    .files
      { descriptorSets := arguments.descriptorSets
        descriptorDir := arguments.descriptorDir
        files := arguments.files
        output := arguments.output.getD "."
        parameter := (arguments.parameter <|> environment).getD ""
        mode := arguments.mode }

def Command.ofArguments (list : List String) (environment : Option String) :
    Except Stop Command := do
  let arguments ← Arguments.read list
  pure (arguments.command environment)

namespace Stop

def helpText : String :=
  "Generate TypeScript declaration files from Protocol Buffer descriptors\n\n" ++
  "Usage: protoc-gen-tsdecl [OPTIONS]\n\n" ++
  "Options:\n" ++
  "  -d, --descriptor-set <FILE>  Path to a serialized FileDescriptorSet (repeatable)\n" ++
  "      --descriptor-dir <DIR>   Directory searched recursively for descriptor sets\n" ++
  "      --file <NAME>            Proto file names to generate (default: every file)\n" ++
  "  -o, --output <OUTPUT>        Output directory for generated .d.ts files\n" ++
  "  -p, --parameter <PARAMETER>  Generator options, in protoc parameter form\n" ++
  "  -v, --verbose...             Verbosity level\n" ++
  "      --dry-run                Show what would be generated\n" ++
  "      --force                  Overwrite existing files\n" ++
  "      --check                  Fail if any existing file is missing or differs\n" ++
  "  -h, --help                   Print help\n" ++
  "  -V, --version                Print version\n"

/-- What is printed instead of a run. -/
def printed : Stop → String
  | usage _ => ""
  | help => helpText
  | version => "protoc-gen-tsdecl 0.1.0\n"

def exitCode : Stop → UInt32
  | usage _ => 2
  | help | version => 0

end Stop

/-- Why a run on descriptor sets ends early. -/
inductive RunFault where
  | notADirectory (path : String)
  | unreadableSet (path : String) (cause : FileFault)
  | undecodableSet (path : String)
  | noDescriptors
  | invalidParameter (parameter : String) (cause : Fault)
  | generation (cause : Fault)
  | escapingPath (name : String)
  | outOfDate (stale : List String)
  | directoryFailed (path : String) (cause : FileFault)
  | alreadyExists (path : String)
  | fileFailed (path : String) (cause : FileFault)
  deriving DecidableEq, Repr

namespace RunFault

/-- A message with its cause below; further lines of the cause are indented
like the first. -/
def because (message cause : String) : String :=
  message ++ "\n\nCaused by:\n    " ++ "\n    ".intercalate (Text.split '\n' cause)

def message : RunFault → String
  | notADirectory path => "Path is not a directory: " ++ path
  | unreadableSet path cause => because ("Failed to read descriptor set: " ++ path) cause.message
  | undecodableSet path =>
    because ("Failed to decode descriptor set: " ++ path) "failed to decode Protobuf message"
  | noDescriptors => "No file descriptors found in the given input"
  | invalidParameter parameter cause =>
    because ("Invalid parameter string: " ++ Text.quote parameter) cause.message
  | generation cause => because "Failed to generate declarations" cause.message
  | escapingPath name =>
    "Path traversal detected: '" ++ name ++ "' would escape output directory"
  | outOfDate stale =>
    "Generated files are out of date:\n  " ++ "\n  ".intercalate stale
  | directoryFailed path cause => because ("Failed to create directory: " ++ path) cause.message
  | alreadyExists path => "File already exists: " ++ path ++ " (use --force to overwrite)"
  | fileFailed path cause => because ("Failed to create file: " ++ path) cause.message

end RunFault

/-- The files of a list without those whose path one before them has, `seen`
being the paths already met. -/
def File.firstOfPath (seen : List String) : List File → List File
  | [] => []
  | file :: rest =>
    if file.path ∈ seen then firstOfPath seen rest
    else file :: firstOfPath (file.path :: seen) rest

/-- Whether a file is a descriptor set, by its name. -/
def Path.isDescriptorSet (path : String) : Bool :=
  match Path.extension? (Path.fileName path) with
  | some ending => ["pb", "binpb", "desc"].contains ending.toLower
  | none => false

namespace Invocation

/-- The declaration files of a run on the given files. -/
def outputs (invocation : Invocation) (files : List File) : Except RunFault (List Output) := do
  if files.isEmpty then throw .noDescriptors
  let request := if invocation.files.isEmpty then files.map (·.path) else invocation.files
  let settings ←
    match Settings.ofParameter invocation.parameter with
    | .ok settings => .ok settings
    | .error fault => .error (.invalidParameter invocation.parameter fault)
  match generate settings files request with
  | .ok outputs => .ok outputs
  | .error fault => .error (.generation fault)

/-- The path at which a generated file belongs. -/
def outputPath (invocation : Invocation) (output : Output) : Except RunFault String :=
  if Path.escapes output.name then .error (.escapingPath output.name)
  else .ok (Path.join invocation.output output.name)

variable {m : Type → Type} [Monad m] [FileAccess m]

def setPaths (invocation : Invocation) : ExceptT RunFault m (List String) :=
  match invocation.descriptorDir with
  | some directory => do
    if ← FileAccess.isDirectory (m := m) directory then
      let paths ← FileAccess.filesUnder (m := m) directory
      pure (invocation.descriptorSets ++ paths.filter Path.isDescriptorSet)
    else throw (.notADirectory directory)
  | none => pure invocation.descriptorSets

/-- The files of the descriptor set at a path. -/
def loadSet (path : String) : ExceptT RunFault m (List File) := do
  match ← FileAccess.readBytes (m := m) path with
  | .error cause => throw (.unreadableSet path cause)
  | .ok content =>
    match File.decodeSet content.data.toList with
    | some files => pure files
    | none => throw (.undecodableSet path)

def load (invocation : Invocation) : ExceptT RunFault m (List File) := do
  let sets ← (← invocation.setPaths).mapM loadSet
  pure (File.firstOfPath [] sets.flatten)

def writeOutput (overwrite : Bool) (path content : String) : ExceptT RunFault m Unit := do
  let directory := Path.parent path
  if let .error cause ← FileAccess.makeDirectories (m := m) directory then
    throw (.directoryFailed directory cause)
  if !overwrite && (← FileAccess.isPresent (m := m) path) then
    throw (.alreadyExists path)
  if let .error cause ← FileAccess.writeText (m := m) path content then
    throw (.fileFailed path cause)
  FileAccess.print (m := m) ("Wrote " ++ path ++ "\n")

/-- Shows that a generated file would be written at a path. -/
def previewOutput (contents : Bool) (path content : String) : ExceptT RunFault m Unit := do
  FileAccess.print (m := m) ("Would write: " ++ path ++ "\n")
  if contents then
    FileAccess.print (m := m) ("---\n" ++ content ++ "\n---\n")

/-- What is wrong with the file at a path, if it is to have a given content. A
file that is no text counts as missing. -/
def staleness (path content : String) : ExceptT RunFault m (Option String) := do
  let existing ← FileAccess.readBytes (m := m) path
  match existing.toOption.bind String.fromUTF8? with
  | some text => pure (if text = content then none else some (path ++ " (differs)"))
  | none => pure (some (path ++ " (missing)"))

/-- Compares generated files with those that are there. -/
def compareAll (invocation : Invocation) (outputs : List Output) : ExceptT RunFault m Unit := do
  let stale ← outputs.mapM fun output => do
    staleness (← invocation.outputPath output) output.content
  if stale.all Option.isNone then
    FileAccess.print (m := m) (toString outputs.length ++ " file(s) up to date\n")
  else throw (.outOfDate (stale.filterMap id))

/-- Does with generated files what the mode says. -/
def deliver (invocation : Invocation) (outputs : List Output) : ExceptT RunFault m Unit :=
  match invocation.mode with
  | .write overwrite => outputs.forM fun output => do
    writeOutput overwrite (← invocation.outputPath output) output.content
  | .preview contents => outputs.forM fun output => do
    previewOutput contents (← invocation.outputPath output) output.content
  | .compare => invocation.compareAll outputs

def run (invocation : Invocation) : ExceptT RunFault m Unit := do
  let files ← invocation.load
  let outputs ← invocation.outputs files
  invocation.deliver outputs

end Invocation
end ProtoTypings
