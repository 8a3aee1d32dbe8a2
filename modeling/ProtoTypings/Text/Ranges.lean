/-!
# Ranges of characters

A class of characters given by the ranges of their code points, as the tables
of the Unicode standard give them.
-/
namespace ProtoTypings.Text

/-- Ranges of code points, each with its first and its last one. -/
abbrev Ranges := List (Nat × Nat)

/-- Whether a character lies in one of the ranges. -/
def Ranges.has (ranges : Ranges) (c : Char) : Bool :=
  ranges.any fun (first, last) => first ≤ c.toNat && c.toNat ≤ last

end ProtoTypings.Text
