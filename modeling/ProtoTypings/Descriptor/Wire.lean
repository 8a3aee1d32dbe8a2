import ProtoTypings.Descriptor.Basic
import ProtoTypings.Wire.Record
/-!
# Descriptors on the wire

The schema of descriptors and of what carries them, and the descriptors that
records hold. Fields that nothing here depends on are part of the schema all
the same, since what is written in them must be well formed.
-/
namespace ProtoTypings

open Wire (Record FieldKind Schema)

/-- The kinds of messages that carry descriptors. -/
inductive WireKind where
  | request
  | version
  | fileSet
  | file
  | message
  | extensionRange
  | range
  | oneof
  | field
  | enum
  | enumValue
  | service
  | method
  | sourceInfo
  | location
  | fileOptions
  | messageOptions
  | fieldOptions
  | enumOptions
  | enumValueOptions
  | serviceOptions
  | methodOptions
  /-- Options of which none is known. -/
  | otherOptions
  | uninterpreted
  | namePart
  deriving DecidableEq, Repr

namespace WireKind

/-- The field of options that were not interpreted; all kinds of options have
it. -/
def optionField (number : Nat) (known : Option (FieldKind WireKind)) :
    Option (FieldKind WireKind) :=
  if number = 999 then some (.message .uninterpreted) else known

def schema : Schema WireKind
  | request, n =>
    match n with
    | 1 | 2 => some .text
    | 3 => some (.message .version)
    | 15 => some (.message .file)
    | _ => none
  | version, n =>
    match n with
    | 1 | 2 | 3 => some .number
    | 4 => some .text
    | _ => none
  | fileSet, n =>
    match n with
    | 1 => some (.message .file)
    | _ => none
  | file, n =>
    match n with
    | 1 | 2 | 3 | 12 => some .text
    | 4 => some (.message .message)
    | 5 => some (.message .enum)
    | 6 => some (.message .service)
    | 7 => some (.message .field)
    | 8 => some (.message .fileOptions)
    | 9 => some (.message .sourceInfo)
    | 10 | 11 => some .numbers
    | _ => none
  | message, n =>
    match n with
    | 1 | 10 => some .text
    | 2 | 6 => some (.message .field)
    | 3 => some (.message .message)
    | 4 => some (.message .enum)
    | 5 => some (.message .extensionRange)
    | 7 => some (.message .messageOptions)
    | 8 => some (.message .oneof)
    | 9 => some (.message .range)
    | _ => none
  | extensionRange, n =>
    match n with
    | 1 | 2 => some .number
    | 3 => some (.message .otherOptions)
    | _ => none
  | range, n =>
    match n with
    | 1 | 2 => some .number
    | _ => none
  | oneof, n =>
    match n with
    | 1 => some .text
    | 2 => some (.message .otherOptions)
    | _ => none
  | field, n =>
    match n with
    | 1 | 2 | 6 | 7 | 10 => some .text
    | 3 | 4 | 5 | 9 | 17 => some .number
    | 8 => some (.message .fieldOptions)
    | _ => none
  | enum, n =>
    match n with
    | 1 | 5 => some .text
    | 2 => some (.message .enumValue)
    | 3 => some (.message .enumOptions)
    | 4 => some (.message .range)
    | _ => none
  | enumValue, n =>
    match n with
    | 1 => some .text
    | 2 => some .number
    | 3 => some (.message .enumValueOptions)
    | _ => none
  | service, n =>
    match n with
    | 1 => some .text
    | 2 => some (.message .method)
    | 3 => some (.message .serviceOptions)
    | _ => none
  | method, n =>
    match n with
    | 1 | 2 | 3 => some .text
    | 4 => some (.message .methodOptions)
    | 5 | 6 => some .number
    | _ => none
  | sourceInfo, n =>
    match n with
    | 1 => some (.message .location)
    | _ => none
  | location, n =>
    match n with
    | 1 | 2 => some .numbers
    | 3 | 4 | 6 => some .text
    | _ => none
  | fileOptions, n =>
    optionField n <|
      match n with
      | 1 | 8 | 11 | 36 | 37 | 39 | 40 | 41 | 44 | 45 => some .text
      | 9 | 10 | 16 | 17 | 18 | 20 | 23 | 27 | 31 | 42 => some .number
      | _ => none
  | messageOptions, n =>
    optionField n <|
      match n with
      | 1 | 2 | 3 | 7 => some .number
      | _ => none
  | fieldOptions, n =>
    optionField n <|
      match n with
      | 1 | 2 | 3 | 5 | 6 | 10 => some .number
      | _ => none
  | enumOptions, n =>
    optionField n <|
      match n with
      | 2 | 3 => some .number
      | _ => none
  | enumValueOptions, n =>
    optionField n <|
      match n with
      | 1 => some .number
      | _ => none
  | serviceOptions, n =>
    optionField n <|
      match n with
      | 33 => some .number
      | _ => none
  | methodOptions, n =>
    optionField n <|
      match n with
      | 33 | 34 => some .number
      | _ => none
  | otherOptions, n => optionField n none
  | uninterpreted, n =>
    match n with
    | 2 => some (.message .namePart)
    | 3 | 8 => some .text
    | 4 | 5 => some .number
    | 6 => some .fixed64
    | 7 => some .bytes
    | _ => none
  | namePart, n =>
    match n with
    | 1 => some .text
    | 2 => some .number
    | _ => none

def decode (kind : WireKind) (bytes : List UInt8) : Option Record :=
  Record.decode schema Record.maxDepth kind bytes

end WireKind

/-- A name that reads as empty if it is left out. -/
def Wire.Record.name (record : Record) (field : Nat) : String :=
  (record.text? field).getD ""

def Field.ofRecord (record : Record) : Field where
  name := record.name 1
  number := record.int32? 3
  label := Label.ofCode (record.int32? 4)
  typeCode := record.int32? 5
  typeName := record.name 6
  oneofIndex := record.int32? 9
  proto3Optional := record.flag 17

def EnumValue.ofRecord (record : Record) : EnumValue where
  name := record.name 1
  number := record.int32? 2

def EnumType.ofRecord (record : Record) : EnumType where
  name := record.name 1
  values := (record.messages 2).map EnumValue.ofRecord

def Method.ofRecord (record : Record) : Method where
  name := record.name 1
  input := record.name 2
  output := record.name 3
  clientStreaming := record.flag 5
  serverStreaming := record.flag 6

def Service.ofRecord (record : Record) : Service where
  name := record.name 1
  methods := (record.messages 2).map Method.ofRecord

def Location.ofRecord (record : Record) : Location where
  path := (record.numbers 1).map Int32.ofNat
  leading := record.text? 3
  trailing := record.text? 4

def Message.inRecord (field : Nat) : Record → List Message
  | .done => []
  | .number _ _ rest | .text _ _ rest => Message.inRecord field rest
  | .message f body rest =>
    if f = field then
      { name := body.name 1
        fields := (body.messages 2).map Field.ofRecord
        nested := Message.inRecord 3 body
        enums := (body.messages 4).map EnumType.ofRecord
        isMapEntry := (body.merged 7).flag 7 } :: Message.inRecord field rest
    else Message.inRecord field rest

def File.ofRecord (record : Record) : File where
  name := record.text? 1
  package := record.text? 2
  dependencies := record.texts 3
  messages := Message.inRecord 4 record
  enums := (record.messages 5).map EnumType.ofRecord
  services := (record.messages 6).map Service.ofRecord
  locations := ((record.merged 9).messages 1).map Location.ofRecord

def File.decodeSet (bytes : List UInt8) : Option (List File) :=
  (WireKind.fileSet.decode bytes).map fun record => (record.messages 1).map File.ofRecord

end ProtoTypings
