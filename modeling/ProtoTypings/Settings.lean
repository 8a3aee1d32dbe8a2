import ProtoTypings.Casing
import ProtoTypings.Fault
import ProtoTypings.Text.Blank
/-!
# Settings

The choices of a run, and the parameter text that makes them: assignments
`key=value` divided by commas, where a key alone assigns `true`. Blanks around
parts, keys and values do not count, nor do empty parts. Of several
assignments to one setting the last one holds, and the first part that is no
assignment is the fault.
-/
namespace ProtoTypings

/-- What the value of an enum member is. -/
inductive EnumStyle where
  /-- Its name. -/
  | text
  /-- Its number. -/
  | numeric
  deriving DecidableEq, Repr, Inhabited

/-- The choices of a run. -/
structure Settings where
  casing : Casing := .camel
  enumStyle : EnumStyle := .text
  /-- Whether 64-bit integers are strings and not numbers. -/
  int64AsText : Bool := false
  /-- Whether streams are iterators and not callbacks. -/
  asyncIterators : Bool := false
  /-- Whether a package is declared and not exported. -/
  declareNamespace : Bool := true
  /-- One level of indentation. -/
  indent : String := "    "
  deriving DecidableEq, Repr, Inhabited

namespace Settings

structure Assignment where
  key : String
  value : String
  deriving DecidableEq, Repr

/-- A part as key and value, divided by its first equals sign. -/
def Assignment.ofPart (part : String) : Assignment :=
  match Text.cutAtFirst? '=' part with
  | some (key, value) => ⟨Text.trim key, Text.trim value⟩
  | none => ⟨part, "true"⟩

/-- The assignments of a parameter text, in order. -/
def assignments (parameter : String) : List Assignment :=
  (((Text.split ',' parameter).map Text.trim).filter (· ≠ "")).map Assignment.ofPart

def truth? : String → Option Bool
  | "true" | "1" | "yes" => some true
  | "false" | "0" | "no" => some false
  | _ => none

def casing? : String → Option Casing
  | "verbatim" | "original" => some .verbatim
  | "camelCase" | "camel_case" | "camel" => some .camel
  | _ => none

def enumStyle? : String → Option EnumStyle
  | "string" => some .text
  | "numeric" | "int" => some .numeric
  | _ => none

/-- The settings after an assignment, if its key and value are known. -/
def assign? (settings : Settings) (a : Assignment) : Option Settings :=
  match a.key with
  | "naming" => (casing? a.value).map fun c => { settings with casing := c }
  | "original_names" =>
    (truth? a.value).map fun b => { settings with casing := if b then .verbatim else .camel }
  | "enum_representation" | "enumRepresentation" =>
    (enumStyle? a.value).map fun e => { settings with enumStyle := e }
  | "int_enums" =>
    (truth? a.value).map fun b => { settings with enumStyle := if b then .numeric else .text }
  | "int64_string" => (truth? a.value).map fun b => { settings with int64AsText := b }
  | "async_iterators" => (truth? a.value).map fun b => { settings with asyncIterators := b }
  | "declare_namespace" => (truth? a.value).map fun b => { settings with declareNamespace := b }
  | _ => none

/-- The settings after a list of assignments, or the first one that is none. -/
def assignAll (settings : Settings) : List Assignment → Except Fault Settings
  | [] => .ok settings
  | a :: rest =>
    match settings.assign? a with
    | some next => next.assignAll rest
    | none => .error (.invalidParameter a.key a.value)

/-- The settings that a parameter text makes, starting from the defaults. -/
def ofParameter (parameter : String) : Except Fault Settings :=
  assignAll {} (assignments parameter)

end Settings
end ProtoTypings
