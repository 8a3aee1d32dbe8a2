import ProtoTypings.Wire.Token
/-!
# Messages of a schema

A schema says which fields a kind of message has and of which type they are.
Reading a message by a schema gives a record: the numbers, texts and messages
of its known fields, in the order of the wire.

* A known field must be written in the way of its type.
* Unknown fields are skipped, groups with all that stands in them.
* Messages nest to a limited depth. Skipping a field needs one level too, and
  every group around it one more.

Merging two messages of one kind is appending their records, so a message
that is given twice is read as the fields of the first and then the second.
-/
namespace ProtoTypings.Wire

/-- The types of fields, where `κ` are the kinds of messages. -/
inductive FieldKind (κ : Type) where
  | text
  | bytes
  | number
  /-- A repeated number, which may be packed. -/
  | numbers
  | fixed64
  | message (kind : κ)
  deriving DecidableEq, Repr

/-- The fields of each kind of message. -/
abbrev Schema (κ : Type) := κ → Nat → Option (FieldKind κ)

/-- The known fields of a message, in the order of the wire. -/
inductive Record where
  | done
  | number (field value : Nat) (rest : Record)
  | text (field : Nat) (value : String) (rest : Record)
  | message (field : Nat) (body rest : Record)
  deriving Inhabited

namespace Record

variable {κ : Type}

/-- Puts a known field in front of a record; `nested` reads messages. -/
def known (nested : κ → List UInt8 → Option Record) (field : Nat) :
    FieldKind κ → Payload → Option (Record → Record)
  | .text, .delimited bytes =>
    (String.fromUTF8? ⟨bytes.toArray⟩).map fun value rest => .text field value rest
  | .bytes, .delimited _ => some id
  | .number, .varint value => some fun rest => .number field value rest
  | .numbers, .varint value => some fun rest => .number field value rest
  | .numbers, .delimited bytes =>
    (packedNumbers bytes).map fun values rest =>
      values.foldr (fun value r => .number field value r) rest
  | .fixed64, .fixed64 => some id
  | .message kind, .delimited bytes =>
    (nested kind bytes).map fun body rest => .message field body rest
  | _, _ => none

/-- Skips a field inside the groups `opened`, the innermost first, and gives
the groups that are open after it. -/
def skip (depth : Nat) (opened : List Nat) (token : Token) : Option (List Nat) :=
  match token.payload, opened with
  | .groupEnd, group :: outer => if token.number = group then some outer else none
  | .groupEnd, [] => none
  | .groupStart, _ => if opened.length < depth then some (token.number :: opened) else none
  | _, _ => if opened.length < depth then some opened else none

/-- The record of a message's fields, with `depth` levels left below it. -/
def ofTokens (schema : Schema κ) (nested : κ → List UInt8 → Option Record) (depth : Nat)
    (kind : κ) (opened : List Nat) : List Token → Option Record
  | [] => if opened.isEmpty then some .done else none
  | token :: rest =>
    match if opened.isEmpty then schema kind token.number else none with
    | some type => do
      let add ← known nested token.number type token.payload
      let record ← ofTokens schema nested depth kind [] rest
      some (add record)
    | none => do
      let opened ← skip depth opened token
      ofTokens schema nested depth kind opened rest

/-- The record of a message, with `depth` levels left below it. -/
def decode (schema : Schema κ) : (depth : Nat) → κ → List UInt8 → Option Record
  | 0, kind, bytes => do
    ofTokens schema (fun _ _ => none) 0 kind [] (← tokens bytes)
  | depth + 1, kind, bytes => do
    ofTokens schema (decode schema depth) (depth + 1) kind [] (← tokens bytes)

/-- How deep messages may nest. -/
def maxDepth : Nat := 100

def texts (field : Nat) : Record → List String
  | done => []
  | text f value rest => if f = field then value :: rest.texts field else rest.texts field
  | number _ _ rest | message _ _ rest => rest.texts field

def numbers (field : Nat) : Record → List Nat
  | done => []
  | number f value rest => if f = field then value :: rest.numbers field else rest.numbers field
  | text _ _ rest | message _ _ rest => rest.numbers field

def messages (field : Nat) : Record → List Record
  | done => []
  | message f body rest => if f = field then body :: rest.messages field else rest.messages field
  | number _ _ rest | text _ _ rest => rest.messages field

/-- The text of a field that is given once; the last one holds. -/
def text? (record : Record) (field : Nat) : Option String :=
  (record.texts field).getLast?

/-- The 32-bit number of a field that is given once; the last one holds. -/
def int32? (record : Record) (field : Nat) : Option Int32 :=
  ((record.numbers field).getLast?).map Int32.ofNat

/-- The flag of a field that is given once; the last one holds. -/
def flag (record : Record) (field : Nat) : Bool :=
  (record.numbers field).getLast?.any (· ≠ 0)

def append : Record → Record → Record
  | done, other => other
  | number f value rest, other => .number f value (rest.append other)
  | text f value rest, other => .text f value (rest.append other)
  | message f body rest, other => .message f body (rest.append other)

/-- The message of a field that is given once; several are merged. -/
def merged (record : Record) (field : Nat) : Record :=
  (record.messages field).foldr append .done

end Record
end ProtoTypings.Wire
