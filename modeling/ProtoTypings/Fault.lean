/-!
# Faults

Every reason for which a run is refused, with its wording in one place. A
fault ends the output file, and with it the run, that met it.
-/
namespace ProtoTypings

/-- What is wrong with a field that has no type expression. -/
inductive FieldFault where
  | unknownTypeCode (code : Int32)
  | untyped
  | unnamedReference
  | entryWithoutValue
  | entryWithoutKey
  deriving DecidableEq, Repr

def FieldFault.message : FieldFault → String
  | unknownTypeCode code => "unknown field type code " ++ toString code.toInt
  | untyped => "field has neither a type nor a type name"
  | unnamedReference => "reference field has no type name"
  | entryWithoutValue => "map entry has no value field"
  | entryWithoutKey => "map entry has no key field"

/-- Why a run is refused. -/
inductive Fault where
  /-- Two declarations share a full name. -/
  | duplicateTypeName (name firstFile secondFile : String)
  /-- A file imports a path outside the run. -/
  | unknownImport (file imported : String)
  /-- A reference names no declared type. -/
  | unresolvedType (name file context : String)
  /-- Two declarations of a scope have one name. -/
  | packageConflict (path file : String)
  /-- A field has no type expression. -/
  | unsupportedField (message field file : String) (cause : FieldFault)
  /-- A parameter's key or value is unknown. -/
  | invalidParameter (key value : String)
  /-- A requested file is not part of the run. -/
  | unknownFile (file : String)
  /-- The request is not in the wire format. -/
  | undecodableRequest
  deriving DecidableEq, Repr

namespace Fault

/-- The name under which a fault is reported. -/
def kind : Fault → String
  | duplicateTypeName .. => "DuplicateTypeName"
  | unknownImport .. => "UnknownImport"
  | unresolvedType .. => "UnresolvedType"
  | packageConflict .. => "PackageConflict"
  | unsupportedField .. => "UnsupportedFieldShape"
  | invalidParameter .. => "InvalidParameter"
  | unknownFile .. => "UnknownFileToGenerate"
  | undecodableRequest => "RequestDecode"

def message : Fault → String
  | duplicateTypeName name firstFile secondFile =>
    s!"duplicate type name '{name}': declared in '{firstFile}' and '{secondFile}'"
  | unknownImport file imported =>
    s!"file '{file}' imports '{imported}', which is not present in the request"
  | unresolvedType name file context =>
    s!"unresolved type '{name}' referenced from '{file}' ({context})"
  | packageConflict path file => s!"package conflict at '{path}' in '{file}'"
  | unsupportedField message field file cause =>
    s!"unsupported field shape for '{message}.{field}' in '{file}': " ++ cause.message
  | invalidParameter key value => s!"invalid parameter '{key}={value}'"
  | unknownFile file => s!"file to generate '{file}' has no descriptor in the request"
  | undecodableRequest => "failed to decode request: failed to decode Protobuf message"

end Fault
end ProtoTypings
