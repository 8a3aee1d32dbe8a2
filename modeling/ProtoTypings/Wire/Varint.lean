/-!
# Varints

A varint is a number in base 128, lowest digit first, one digit to a byte;
every byte but the last has its high bit set. A reader takes at most ten
bytes, the tenth of which may only hold the last bit of a 64-bit number.
Longer forms of a number than needed are read like the shortest, which is the
one that is written.
-/
namespace ProtoTypings.Wire

/-- Reads a varint of at most `left` bytes, and gives the bytes after it. -/
def takeVarint : (left : Nat) → List UInt8 → Option (Nat × List UInt8)
  | 0, _ => none
  | _ + 1, [] => none
  | left + 1, byte :: rest =>
    if byte < 128 then
      if left = 0 ∧ 2 ≤ byte then none else some (byte.toNat, rest)
    else (takeVarint left rest).map fun (high, after) => (byte.toNat - 128 + 128 * high, after)

def readVarint (bytes : List UInt8) : Option (Nat × List UInt8) :=
  takeVarint 10 bytes

def writeVarint (n : Nat) : List UInt8 :=
  if n < 128 then [n.toUInt8] else (n % 128 + 128).toUInt8 :: writeVarint (n / 128)
termination_by n

/-- A varint takes at least one byte. -/
theorem length_of_takeVarint {left : Nat} {bytes after : List UInt8} {n : Nat}
    (h : takeVarint left bytes = some (n, after)) : after.length < bytes.length := by
  induction left generalizing bytes n with
  | zero => simp [takeVarint] at h
  | succ left ih =>
    match bytes with
    | [] => simp [takeVarint] at h
    | byte :: rest =>
      simp only [takeVarint] at h
      split at h
      · split at h
        · simp at h
        · simp only [Option.some.injEq, Prod.mk.injEq] at h
          simp [← h.2]
      · simp only [Option.map_eq_some_iff, Prod.mk.injEq, Prod.exists] at h
        obtain ⟨high, after', hrest, -, rfl⟩ := h
        have := ih hrest
        simp only [List.length_cons]
        omega

end ProtoTypings.Wire
