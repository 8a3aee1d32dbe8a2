import ProtoTypings.Text.Split
/-!
# Casing of identifiers

Snake case to lower camel case. Underscores divide an identifier into
segments; empty segments vanish, the first character of the first segment
becomes lower case and that of every later one upper case. Only ASCII letters
have a case here, and no other character is touched.
-/
namespace ProtoTypings

/-- How members are named in the output. -/
inductive Casing where
  /-- As declared. -/
  | verbatim
  /-- In lower camel case. -/
  | camel
  deriving DecidableEq, Repr, Inhabited

namespace Casing

/-- A segment with its first character changed by `f`. -/
def changeFirst (f : Char → Char) : List Char → List Char
  | [] => []
  | c :: cs => f c :: cs

/-- Joins segments, the first in lower and the others in upper case. -/
def joinSegments : List (List Char) → List Char
  | [] => []
  | first :: others =>
    changeFirst Char.toLower first ++ others.flatMap (changeFirst Char.toUpper)

def lowerCamel (identifier : String) : String :=
  String.ofList (joinSegments ((Text.splitChars '_' identifier.toList).filter (· ≠ [])))

def apply : Casing → String → String
  | verbatim, identifier => identifier
  | camel, identifier => lowerCamel identifier

/-- What an identifier names. -/
inductive Role where
  | message
  | enum
  | enumValue
  | field
  | service
  | method
  deriving DecidableEq, Repr, Inhabited

/-- Fields and methods follow the casing. Types and enum values keep their
names, since other declarations refer to them. -/
def name (casing : Casing) : Role → String → String
  | .field, identifier | .method, identifier => casing.apply identifier
  | _, identifier => identifier

end Casing
end ProtoTypings
