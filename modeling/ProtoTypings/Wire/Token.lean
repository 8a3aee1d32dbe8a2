import ProtoTypings.Wire.Varint
/-!
# Fields on the wire

A message is a list of fields, each a key and a payload. The key is a varint
that holds the field's number and how the payload is written. Which type a
field has is not known here: a payload of bytes may be a text, a message or
numbers.

`tokens` splits a message into its fields; a message that does not end with a
field has none.
-/
namespace ProtoTypings.Wire

/-- What a field holds, by the way it is written. -/
inductive Payload where
  | varint (value : Nat)
  | fixed64
  | delimited (bytes : List UInt8)
  | groupStart
  | groupEnd
  | fixed32
  deriving DecidableEq, Repr, Inhabited

structure Token where
  number : Nat
  payload : Payload
  deriving DecidableEq, Repr, Inhabited

/-- The first `n` bytes and the bytes after them. -/
def splitBytes (n : Nat) (bytes : List UInt8) : Option (List UInt8 × List UInt8) :=
  if n ≤ bytes.length then some (bytes.take n, bytes.drop n) else none

/-- Reads a payload that is written in the way `wireType`, and gives the bytes
after it. -/
def readPayload (wireType : Nat) (bytes : List UInt8) : Option (Payload × List UInt8) :=
  match wireType with
  | 0 => (readVarint bytes).map fun (value, after) => (.varint value, after)
  | 1 => (splitBytes 8 bytes).map fun (_, after) => (.fixed64, after)
  | 2 =>
    match readVarint bytes with
    | some (size, rest) =>
      (splitBytes size rest).map fun (content, after) => (.delimited content, after)
    | none => none
  | 3 => some (.groupStart, bytes)
  | 4 => some (.groupEnd, bytes)
  | 5 => (splitBytes 4 bytes).map fun (_, after) => (.fixed32, after)
  | _ => none

/-- Reads a field, and gives the bytes after it. A key has at most 32 bits and
a number other than zero. -/
def readToken (bytes : List UInt8) : Option (Token × List UInt8) :=
  match readVarint bytes with
  | some (key, rest) =>
    if key < UInt32.size ∧ key / 8 ≠ 0 then
      (readPayload (key % 8) rest).map fun (payload, after) => (⟨key / 8, payload⟩, after)
    else none
  | none => none

theorem length_of_splitBytes {n : Nat} {bytes front after : List UInt8}
    (h : splitBytes n bytes = some (front, after)) : after.length ≤ bytes.length := by
  simp only [splitBytes, Option.ite_none_right_eq_some, Option.some.injEq, Prod.mk.injEq] at h
  simp [← h.2.2]

theorem length_of_readPayload {wireType : Nat} {bytes after : List UInt8} {payload : Payload}
    (h : readPayload wireType bytes = some (payload, after)) : after.length ≤ bytes.length := by
  unfold readPayload at h
  split at h
  · simp only [Option.map_eq_some_iff, Prod.mk.injEq, Prod.exists] at h
    obtain ⟨value, after', hread, -, rfl⟩ := h
    exact Nat.le_of_lt (length_of_takeVarint hread)
  · simp only [Option.map_eq_some_iff, Prod.mk.injEq, Prod.exists] at h
    obtain ⟨front, after', hsplit, -, rfl⟩ := h
    exact length_of_splitBytes hsplit
  · split at h
    next size rest hread =>
      simp only [Option.map_eq_some_iff, Prod.mk.injEq, Prod.exists] at h
      obtain ⟨front, after', hsplit, -, rfl⟩ := h
      exact Nat.le_trans (length_of_splitBytes hsplit) (Nat.le_of_lt (length_of_takeVarint hread))
    next => simp at h
  · simp only [Option.some.injEq, Prod.mk.injEq] at h
    simp [h.2]
  · simp only [Option.some.injEq, Prod.mk.injEq] at h
    simp [h.2]
  · simp only [Option.map_eq_some_iff, Prod.mk.injEq, Prod.exists] at h
    obtain ⟨front, after', hsplit, -, rfl⟩ := h
    exact length_of_splitBytes hsplit
  · simp at h

/-- A field takes at least one byte. -/
theorem length_of_readToken {bytes after : List UInt8} {token : Token}
    (h : readToken bytes = some (token, after)) : after.length < bytes.length := by
  unfold readToken at h
  split at h
  next key rest hread =>
    split at h
    · simp only [Option.map_eq_some_iff, Prod.mk.injEq, Prod.exists] at h
      obtain ⟨payload, after', hpayload, -, rfl⟩ := h
      exact Nat.lt_of_le_of_lt (length_of_readPayload hpayload) (length_of_takeVarint hread)
    · simp at h
  next => simp at h

def tokens (bytes : List UInt8) : Option (List Token) :=
  if bytes.isEmpty then some []
  else
    match _h : readToken bytes with
    | some (token, after) => (tokens after).map (token :: ·)
    | none => none
termination_by bytes.length
decreasing_by exact length_of_readToken _h

/-- The numbers of a packed field: varints, one after the other. -/
def packedNumbers (bytes : List UInt8) : Option (List Nat) :=
  if bytes.isEmpty then some []
  else
    match _h : readVarint bytes with
    | some (value, after) => (packedNumbers after).map (value :: ·)
    | none => none
termination_by bytes.length
decreasing_by exact length_of_takeVarint _h

def writeNumber (number value : Nat) : List UInt8 :=
  writeVarint (number * 8) ++ writeVarint value

def writeBytes (number : Nat) (bytes : List UInt8) : List UInt8 :=
  writeVarint (number * 8 + 2) ++ writeVarint bytes.length ++ bytes

def writeText (number : Nat) (text : String) : List UInt8 :=
  writeBytes number text.toUTF8.data.toList

end ProtoTypings.Wire
