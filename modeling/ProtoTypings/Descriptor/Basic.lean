import ProtoTypings.Text.Split
/-!
# File descriptors

What a compiled protobuf file declares: messages with their fields and nested
types, enums, services, and the source locations that carry comments. Names
are simple names; where a declaration stands is known from what holds it.

A name, a type name or a flag that is left out reads as empty or false, and
is stored so. Presence is kept where something depends on it.
-/
namespace ProtoTypings

/-- How many values a field is declared to hold. -/
inductive Label where
  | optional
  | required
  | repeated
  deriving DecidableEq, Repr, Inhabited

/-- A label code; an absent or unknown code reads as `optional`. -/
def Label.ofCode : Option Int32 → Label
  | some 2 => .required
  | some 3 => .repeated
  | _ => .optional

inductive FieldType where
  | double
  | float
  | int64
  | uint64
  | int32
  | fixed64
  | fixed32
  | bool
  | string
  | group
  | message
  | bytes
  | uint32
  | enum
  | sfixed32
  | sfixed64
  | sint32
  | sint64
  deriving DecidableEq, Repr, Inhabited

def FieldType.ofCode? (code : Int32) : Option FieldType :=
  match code.toInt with
  | 1 => some .double
  | 2 => some .float
  | 3 => some .int64
  | 4 => some .uint64
  | 5 => some .int32
  | 6 => some .fixed64
  | 7 => some .fixed32
  | 8 => some .bool
  | 9 => some .string
  | 10 => some .group
  | 11 => some .message
  | 12 => some .bytes
  | 13 => some .uint32
  | 14 => some .enum
  | 15 => some .sfixed32
  | 16 => some .sfixed64
  | 17 => some .sint32
  | 18 => some .sint64
  | _ => none

structure Field where
  name : String := ""
  number : Option Int32 := none
  label : Label := .optional
  /-- The declared type code, which need not be a known one. -/
  typeCode : Option Int32 := none
  /-- The message or enum that the field refers to, as written. -/
  typeName : String := ""
  /-- The oneof that the field belongs to. -/
  oneofIndex : Option Int32 := none
  /-- Whether the oneof only stands for an optional field. -/
  proto3Optional : Bool := false
  deriving DecidableEq, Repr, Inhabited

structure EnumValue where
  name : String := ""
  number : Option Int32 := none
  deriving DecidableEq, Repr, Inhabited

structure EnumType where
  name : String := ""
  values : List EnumValue := []
  deriving DecidableEq, Repr, Inhabited

/-- A message type with the types declared inside it. -/
structure Message where
  name : String := ""
  fields : List Field := []
  nested : List Message := []
  enums : List EnumType := []
  /-- Whether the message stands for the entries of a map field. -/
  isMapEntry : Bool := false
  deriving Inhabited

structure Method where
  name : String := ""
  /-- The request type, as written. -/
  input : String := ""
  /-- The response type, as written. -/
  output : String := ""
  clientStreaming : Bool := false
  serverStreaming : Bool := false
  deriving DecidableEq, Repr, Inhabited

structure Service where
  name : String := ""
  methods : List Method := []
  deriving DecidableEq, Repr, Inhabited

/-- The comments at one place of the source, named by its path. -/
structure Location where
  path : List Int32 := []
  leading : Option String := none
  trailing : Option String := none
  deriving DecidableEq, Repr, Inhabited

structure File where
  name : Option String := none
  package : Option String := none
  /-- Paths of the imported files. -/
  dependencies : List String := []
  messages : List Message := []
  enums : List EnumType := []
  services : List Service := []
  locations : List Location := []
  deriving Inhabited

/-- The path that names a file; a nameless file has the empty path. -/
def File.path (file : File) : String :=
  file.name.getD ""

/-- The package of a file; empty without one. -/
def File.packageName (file : File) : String :=
  file.package.getD ""

/-- The number of an enum value; an absent number reads as zero. -/
def EnumValue.code (value : EnumValue) : Int32 :=
  value.number.getD 0

/-- The path of a protobuf file without its extension. -/
def stem (path : String) : String :=
  Text.dropEnding ".proto" path

end ProtoTypings
