import ProtoTypings.Outline.Printer
import ProtoTypings.Typing.Declaration
/-!
# Declaration files of a run

One declaration file is made for every requested file, each on its own from
the shared catalog. The files come out in the order of their paths, whatever
the order of the request, and one fault ends the run.
-/
namespace ProtoTypings

/-- A generated file. -/
structure Output where
  /-- The path of the protobuf file. -/
  source : String
  /-- The path of the declaration file. -/
  name : String
  content : String
  deriving DecidableEq, Repr, Inhabited

def Output.nameFor (source : String) : String :=
  stem source ++ ".d.ts"

namespace Catalog

/-- The file with a given path, which the run must have. -/
def requireFile (catalog : Catalog) (path : String) : Except Fault File :=
  match catalog.file? path with
  | some file => .ok file
  | none => .error (.unknownFile path)

/-- The contents of the declaration file for a protobuf file. -/
def typings (catalog : Catalog) (settings : Settings) (path : String) :
    Except Fault Typings := do
  let file ← catalog.requireFile path
  let (result, resolver) := (file.typing settings).run.run (Resolver.ofFile catalog path)
  let outline ← Outline.ofTyping file.packageName path (← result)
  pure { imports := resolver.imports.list, outline := outline }

def output (catalog : Catalog) (settings : Settings) (path : String) : Except Fault Output := do
  let typings ← catalog.typings settings path
  pure { source := path, name := Output.nameFor path, content := typings.render settings }

end Catalog

/-- The different paths of a request, in order. -/
def requestedPaths (request : List String) : List String :=
  request.eraseDups.mergeSort

/-- The declaration files for a request. A path that the run does not have is
reported before anything else that is wrong with a requested file. All of them
are worked on before the first fault counts. -/
def generate (settings : Settings) (files : List File) (request : List String) :
    Except Fault (List Output) := do
  let catalog ← Catalog.ofFiles files
  let paths := requestedPaths request
  paths.forM fun path => discard (catalog.requireFile path)
  (paths.map (catalog.output settings)).mapM id

end ProtoTypings
