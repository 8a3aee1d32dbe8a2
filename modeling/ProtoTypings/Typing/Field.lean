import ProtoTypings.Descriptor.Basic
import ProtoTypings.Reference.Basic
import ProtoTypings.Settings
import ProtoTypings.Typing.ValueType
/-!
# Types of fields

The type that a field of a message gives to its property. A repeated field of
a map's entry type is a map of the entry's values; any other repeated field is
an array. A field without a type code takes its kind from the type that it
names.

A map's values are typed in the scope of the message that holds the map field.
The key plays no part, since keys are always strings.
-/
namespace ProtoTypings

/-- How many values a field holds. -/
inductive Multiplicity where
  | singular
  | repeated
  | map
  | oneofMember
  deriving DecidableEq, Repr, Inhabited

/-- What a field gives to its property. -/
structure FieldTyping where
  type : ValueType
  multiplicity : Multiplicity
  /-- The full name of the entry type of a map field. -/
  mapEntry : Option String := none
  deriving DecidableEq, Repr, Inhabited

/-- The message that a field belongs to. -/
structure FieldSite where
  /-- The full name of the message, which is the scope of its references. -/
  message : String
  /-- The path of the file, for faults. -/
  file : String
  deriving DecidableEq, Repr, Inhabited

namespace Field

/-- How a fault names a field. -/
def context (site : FieldSite) (field : Field) : String :=
  "field " ++ site.message ++ "." ++ field.name

def fault (site : FieldSite) (field : Field) (cause : FieldFault) : Fault :=
  .unsupportedField site.message field.name site.file cause

def target (catalog : Catalog) (site : FieldSite) (field : Field) : Except Fault DeclaredType :=
  catalog.resolve field.typeName site.message site.file (field.context site)

/-- The kind of a field's type. -/
def kind (catalog : Catalog) (site : FieldSite) (field : Field) : Except Fault FieldType :=
  match field.typeCode with
  | some code =>
    match FieldType.ofCode? code with
    | some kind => .ok kind
    | none => .error (field.fault site (.unknownTypeCode code))
  | none =>
    if field.typeName = "" then .error (field.fault site .untyped)
    else (field.target catalog site).map fun entry =>
      if entry.isMessage then .message else .enum

/-- The path by which a field names its type. -/
def namedPath (site : FieldSite) (field : Field) : ResolveM String :=
  if field.typeName = "" then throw (field.fault site .unnamedReference)
  else ResolveM.path field.typeName site.message (field.context site)

/-- The type of one value of a field of the given kind. -/
def valueOfKind (settings : Settings) (site : FieldSite) (field : Field) :
    FieldType → ResolveM ValueType
  | .double | .float | .int32 | .uint32 | .sint32 | .fixed32 | .sfixed32 => pure .number
  | .int64 | .uint64 | .sint64 | .fixed64 | .sfixed64 =>
    pure (if settings.int64AsText then .string else .number)
  | .bool => pure .boolean
  | .string => pure .string
  | .bytes => pure .bytes
  | .enum | .message | .group => .named <$> field.namedPath site

def value (settings : Settings) (site : FieldSite) (field : Field) : ResolveM ValueType := do
  let kind ← field.kind (← get).catalog site
  field.valueOfKind settings site kind

/-- The entry type of a map field with its message, and nothing for any other
field. -/
def mapEntry? (catalog : Catalog) (site : FieldSite) (field : Field) :
    Except Fault (Option (DeclaredType × Message)) :=
  if field.label = .repeated then do
    if (← field.kind catalog site) = .message then
      let entry ← field.target catalog site
      pure (entry.mapEntry?.map (entry, ·))
    else pure none
  else pure none

/-- The value field of an entry type, which must have a key field too. -/
def entryValue (site : FieldSite) (field : Field) (entry : Message) : Except Fault Field :=
  match entry.fields.find? (·.number = some 2) with
  | none => .error (field.fault site .entryWithoutValue)
  | some value =>
    if entry.fields.any (·.number = some 1) then .ok value
    else .error (field.fault site .entryWithoutKey)

def plainTyping (field : Field) (type : ValueType) : FieldTyping :=
  if field.label = .repeated then { type := .array type, multiplicity := .repeated }
  else if field.oneofIndex.isSome && !field.proto3Optional then
    { type := type, multiplicity := .oneofMember }
  else { type := type, multiplicity := .singular }

def typing (settings : Settings) (site : FieldSite) (field : Field) : ResolveM FieldTyping := do
  match ← field.mapEntry? (← get).catalog site with
  | some (entry, message) =>
    let valueField ← field.entryValue site message
    let type ← valueField.value settings site
    pure { type := .map type, multiplicity := .map, mapEntry := some entry.fullName }
  | none => field.plainTyping <$> field.value settings site

end Field
end ProtoTypings
