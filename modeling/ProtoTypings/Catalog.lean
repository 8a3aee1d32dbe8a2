import ProtoTypings.Descriptor.Basic
import ProtoTypings.Dotted
import ProtoTypings.Fault
/-!
# Catalog of declared types

All files of a run and all types that they declare, each under its full name.
A catalog is complete before anything is looked up in it, so cycles among
imports need no care.

* `File.types`: the types of a file in the order of declaration, a message
  before the types inside it.
* `Catalog.ofFiles`: the catalog of a list of files. A missing import is
  reported before a repeated type name.
* `Catalog.resolve?`: the type that a reference means in a scope.
-/
namespace ProtoTypings

/-- What a declared name stands for. -/
inductive Definition where
  | message (message : Message)
  | enum (enum : EnumType)
  deriving Inhabited

structure DeclaredType where
  /-- The package and the path inside it. -/
  fullName : String
  /-- The full name read backwards, which begins as references to the type end. -/
  reversedName : List Char := fullName.toList.reverse
  reversedName_eq : reversedName = fullName.toList.reverse := by rfl
  /-- The path of the declaring file. -/
  file : String
  /-- The package of the declaring file. -/
  package : String
  /-- The path through the enclosing messages. -/
  localName : String
  definition : Definition

namespace DeclaredType

instance : Inhabited DeclaredType where
  default := { fullName := "", file := "", package := "", localName := "", definition := default }

/-- The message behind an entry, if it is one. -/
def message? (entry : DeclaredType) : Option Message :=
  match entry.definition with
  | .message message => some message
  | .enum _ => none

def isMessage (entry : DeclaredType) : Bool :=
  entry.message?.isSome

/-- The message behind an entry, if it stands for the entries of a map. -/
def mapEntry? (entry : DeclaredType) : Option Message :=
  entry.message?.filter (·.isMapEntry)

/-- The entry of a definition at the path `localName` of a file. -/
def ofLocal (file package localName : String) (definition : Definition) : DeclaredType where
  fullName := Dotted.join package localName
  file := file
  package := package
  localName := localName
  definition := definition

end DeclaredType

def EnumType.declared (file package outer : String) (enum : EnumType) : DeclaredType :=
  .ofLocal file package (Dotted.join outer enum.name) (.enum enum)

mutual

/-- The types of a message: itself, the messages inside it, then the enums. -/
def Message.types (file package outer : String) : Message → List DeclaredType
  | .mk name fields nested enums isMapEntry =>
    let localName := Dotted.join outer name
    .ofLocal file package localName (.message (.mk name fields nested enums isMapEntry)) ::
      (Message.allTypes file package localName nested ++
        enums.map (EnumType.declared file package localName))

def Message.allTypes (file package outer : String) : List Message → List DeclaredType
  | [] => []
  | message :: rest =>
    Message.types file package outer message ++ Message.allTypes file package outer rest

end

/-- The types that a file declares: its messages, then its enums. -/
def File.types (file : File) : List DeclaredType :=
  Message.allTypes file.path file.packageName "" file.messages ++
    file.enums.map (EnumType.declared file.path file.packageName "")

/-- The files of a run and the types that they declare. -/
structure Catalog where
  files : List File
  types : List DeclaredType
  deriving Inhabited

namespace Catalog

/-- The first import of a file that is not the path of any of `files`. -/
def missingImport? (files : List File) (file : File) : Option Fault :=
  (file.dependencies.find? fun dependency => files.all (·.path ≠ dependency)).map
    (.unknownImport file.path ·)

/-- The first entry whose full name occurs among those before it. -/
def repeated? (before : List DeclaredType) : List DeclaredType → Option Fault
  | [] => none
  | entry :: rest =>
    match before.find? (·.fullName = entry.fullName) with
    | some first => some (.duplicateTypeName entry.fullName first.file entry.file)
    | none => repeated? (before ++ [entry]) rest

def ofFiles (files : List File) : Except Fault Catalog :=
  let types := files.flatMap File.types
  match files.findSome? (missingImport? files) with
  | some fault => .error fault
  | none =>
    match repeated? [] types with
    | some fault => .error fault
    | none => .ok ⟨files, types⟩

/-- The first file with a given path. -/
def file? (catalog : Catalog) (path : String) : Option File :=
  catalog.files.find? (·.path = path)

def type? (catalog : Catalog) (fullName : String) : Option DeclaredType :=
  catalog.types.find? (·.fullName = fullName)

/-- The type with a given full name, which may be written with a leading dot. -/
def get? (catalog : Catalog) (name : String) : Option DeclaredType :=
  catalog.type? (Dotted.unrooted name)

/-- The types that a reference means in some scope, each after that scope read
backwards. -/
def meanings (catalog : Catalog) (reference : String) : List (List Char × DeclaredType) :=
  let reference := reference.toList.reverse
  catalog.types.filterMap fun entry =>
    (Dotted.scopeIn? reference entry.reversedName).map (·, entry)

/-- The type that a reference means in a scope. A reference with a leading dot
is a full name; any other is sought in the scope and then in the names around
it, innermost first. -/
def resolve? (catalog : Catalog) (reference scope : String) : Option DeclaredType :=
  if Dotted.isRooted reference then catalog.get? reference
  else
    let scope := scope.toList.reverse
    let meanings := catalog.meanings reference
    (scope :: Dotted.outerBackwards scope).findSome? (meanings.lookup ·)

/-- What a reference means in one scope is what the two together name. -/
theorem lookup_meanings (catalog : Catalog) (reference : String) (scope : List Char) :
    (catalog.meanings reference).lookup scope =
      catalog.type? (Dotted.join (Dotted.ofBackwards scope) reference) := by
  rw [meanings, type?]
  induction catalog.types with
  | nil => rfl
  | cons entry rest ih =>
    have hiff : entry.fullName = Dotted.join (Dotted.ofBackwards scope) reference ↔ _ :=
      Dotted.eq_join_iff
    rw [← entry.reversedName_eq] at hiff
    cases hscope : Dotted.scopeIn? reference.toList.reverse entry.reversedName with
    | none =>
      rw [hscope] at hiff
      rw [List.filterMap_cons_none (by simp [hscope]), ih,
        List.find?_cons_of_neg (by simp [hiff])]
    | some found =>
      rw [hscope] at hiff
      rw [List.filterMap_cons_some (b := (found, entry)) (by simp [hscope]), List.lookup_cons]
      by_cases h : found = scope
      · subst h
        rw [List.find?_cons_of_pos (by simp [hiff]), beq_self_eq_true]
      · rw [List.find?_cons_of_neg (by simp [hiff, h]), ← ih, beq_false_of_ne (Ne.symm h)]

/-- A reference without a leading dot is tried in the scope and then in each
name around it, and the first full name that is declared counts. -/
theorem resolve?_eq_findSome? (catalog : Catalog) {reference : String} (scope : String)
    (h : Dotted.isRooted reference = false) :
    catalog.resolve? reference scope =
      (Dotted.scopes scope).findSome? fun s => catalog.type? (Dotted.join s reference) := by
  have hscopes : Dotted.scopes scope = List.map Dotted.ofBackwards
      (scope.toList.reverse :: Dotted.outerBackwards scope.toList.reverse) := by
    simp [Dotted.scopes, Dotted.outer, Dotted.ofBackwards]
  rw [resolve?, if_neg (by simp [h]), hscopes, List.findSome?_map]
  exact congrArg (List.findSome? · _) (funext fun part => lookup_meanings catalog reference part)

/-- The type that a reference means, or the fault that `file` reports for the
place `context`. -/
def resolve (catalog : Catalog) (reference scope file context : String) :
    Except Fault DeclaredType :=
  match catalog.resolve? reference scope with
  | some entry => .ok entry
  | none => .error (.unresolvedType reference file context)

/-- Whether the message called `owner` declares a type called `name` right
inside it. -/
def declares (catalog : Catalog) (owner : DeclaredType) (name : String) : Bool :=
  (catalog.get? (Dotted.join owner.fullName name)).isSome

/-- What the search for a message that declares a type called `name` learns at the
name `enclosing`: it ends with a result, or has to go on if the name is that of a
message without such a type. -/
def verdict? (catalog : Catalog) (name enclosing : String) : Option Bool :=
  match catalog.get? enclosing with
  | none => some false
  | some owner =>
    if !owner.isMessage then some false
    else if catalog.declares owner name then some true
    else none

/-- The search at the empty name, outside of which there is only that name again. -/
def searchRoot (catalog : Catalog) (name : String) : Option Bool :=
  match catalog.verdict? name "" with
  | some result => some result
  -- a tactic makes the call, as a written one would keep its place in this text with it
  | none => by apply searchRoot <;> assumption
partial_fixpoint

/-- The search through a list of names, read backwards, and then at the empty name.
It is `none` if the search never ends. -/
def search (catalog : Catalog) (name : String) : List (List Char) → Option Bool
  | [] => catalog.searchRoot name
  | enclosing :: rest =>
    match catalog.verdict? name (Dotted.ofBackwards enclosing) with
    | some result => some result
    | none => search catalog name rest

/-- Whether a message around `scope` declares a type named like the first
segment of `localName`, and so hides it. Where a message has the empty full name
the search for it may never end. There is no answer then; the value `false` only
stands for it. -/
def isShadowed (catalog : Catalog) (localName scope : String) : Bool :=
  (catalog.search (Dotted.head localName)
    (Dotted.outerBackwards scope.toList.reverse)).getD false

end Catalog
end ProtoTypings
