/-!
# Types of values

The type that a property has in a declaration file, and its text.
-/
namespace ProtoTypings

inductive ValueType where
  | number
  | string
  | boolean
  | bytes
  /-- A message or an enum, by its path. -/
  | named (path : String)
  | array (element : ValueType)
  /-- An object with values of one type under keys that are strings. -/
  | map (value : ValueType)
  deriving DecidableEq, Repr, Inhabited

def ValueType.text : ValueType → String
  | number => "number"
  | string => "string"
  | boolean => "boolean"
  | bytes => "Uint8Array"
  | named path => path
  | array element => "Array<" ++ element.text ++ ">"
  | map value => "\x7b [key: string]: " ++ value.text ++ " \x7d"

end ProtoTypings
