import ProtoTypings.Catalog
import ProtoTypings.Reference.Import
/-!
# References from one output file

How the declarations of one file name a type. A type of the same file goes by
its path inside the package, or by its full path where a message around the
reference hides that; a type of another file goes through the local name of
its import.

A resolver holds what is particular to the file: its imports, which grow and
get marked as used, and the references that it has already worked out.
-/
namespace ProtoTypings

/-- A type as the declarations of one file name it. -/
structure Reference where
  path : String
  /-- The local name of the import that the path begins with. -/
  via : Option String := none
  deriving DecidableEq, Repr, Inhabited

/-- What it takes to name types in the declarations of one file. -/
structure Resolver where
  catalog : Catalog
  /-- The path of the file. -/
  file : String
  imports : Imports
  /-- References worked out so far, each under its scope and text. -/
  known : List (String × Reference) := []
  deriving Inhabited

namespace Resolver

/-- The names that no import of a file may have: the first segment of its
package, under which its own declarations stand. -/
def reserved (file : File) : List String :=
  [Dotted.head file.packageName].filter (· ≠ "")

/-- The resolver of a file, which imports the file's dependencies in order. -/
def ofFile (catalog : Catalog) (path : String) : Resolver where
  catalog := catalog
  file := path
  imports :=
    match catalog.file? path with
    | some file => Imports.addAll { reserved := reserved file } file.dependencies
    | none => {}

/-- The reference to a type of the same file from the scope `scope`. -/
def localPath (resolver : Resolver) (entry : DeclaredType) (scope : String) : String :=
  if entry.package ≠ "" ∧ resolver.catalog.isShadowed entry.localName scope then
    entry.package ++ "." ++ entry.localName
  else entry.localName

/-- The reference to a type from the scope `scope`, with its import marked as
used. -/
def refer (resolver : Resolver) (entry : DeclaredType) (scope : String) : Reference × Resolver :=
  if entry.file = resolver.file then ({ path := resolver.localPath entry scope }, resolver)
  else
    let name := resolver.imports.nameOf entry.file
    ({ path := name ++ "." ++ entry.localName, via := some name },
      { resolver with imports := (resolver.imports.add entry.file).markUsed entry.file })

/-- The reference that `text` means in the scope `scope`, worked out from the
catalog. The place `context` is named in the fault. -/
def resolveAnew (resolver : Resolver) (text scope context : String) :
    Except Fault Reference × Resolver :=
  match resolver.catalog.resolve text scope resolver.file context with
  | .ok entry =>
    let (reference, next) := resolver.refer entry scope
    (.ok reference, next)
  | .error fault => (.error fault, resolver)

/-- The name under which a reference is remembered. -/
def key (text scope : String) : String :=
  scope ++ "\x00" ++ text

/-- The resolver with a reference remembered. -/
def remember (resolver : Resolver) (key : String) (reference : Reference) : Resolver :=
  { resolver with known := (key, reference) :: resolver.known }

/-- The reference that `text` means in the scope `scope`. What was worked out
before is not worked out again. -/
def resolve (resolver : Resolver) (text scope context : String) :
    Except Fault Reference × Resolver :=
  match resolver.known.lookup (key text scope) with
  | some reference => (.ok reference, resolver)
  | none =>
    match resolver.resolveAnew text scope context with
    | (.ok reference, next) => (.ok reference, next.remember (key text scope) reference)
    | (.error fault, next) => (.error fault, next)

end Resolver

/-- Computations that name types and may fail. What a resolver has learnt
before a failure is kept. -/
abbrev ResolveM := ExceptT Fault (StateM Resolver)

namespace ResolveM

def path (text scope context : String) : ResolveM String := do
  let reference ← (fun resolver => resolver.resolve text scope context : ResolveM Reference)
  pure reference.path

end ResolveM
end ProtoTypings
