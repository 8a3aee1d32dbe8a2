import ProtoTypings.Text.ExtendingMark
import ProtoTypings.Text.Ignorable
import ProtoTypings.Text.Unprintable
/-!
# Quoted text

A text between double quotes, as diagnostics show it. The quote, the
backslash and the common control characters are written with a backslash and
a letter; characters that do not show on their own are written by their code
point in hexadecimal.
-/
namespace ProtoTypings.Text

/-- Whether a character is written by its code point. -/
def isUnshown (c : Char) : Bool :=
  isExtendingMark c || isIgnorable c || isUnprintable c

/-- How one character is written between the quotes. -/
def quoteChar (c : Char) : List Char :=
  match c with
  | '"' => ['\\', '"']
  | '\\' => ['\\', '\\']
  | '\n' => ['\\', 'n']
  | '\r' => ['\\', 'r']
  | '\t' => ['\\', 't']
  | c =>
    if c.toNat = 0 then ['\\', '0']
    else if isUnshown c then
      ['\\', 'u', '\x7b'] ++ Nat.toDigits 16 c.toNat ++ ['\x7d']
    else [c]

def quote (s : String) : String :=
  String.ofList ('"' :: s.toList.flatMap quoteChar ++ ['"'])

end ProtoTypings.Text
