/-!
# Cutting text

Splitting at a separator, cutting at its first occurrence, and dropping a
known start or ending. Everything is recursion on the list of characters, so that
statements about texts become statements about lists.

A text always has at least one piece, and joining the pieces with the
separator gives the text back.
-/
namespace ProtoTypings.Text

/-- The pieces of a character list between the occurrences of `sep`. -/
def splitChars (sep : Char) : List Char → List (List Char)
  | [] => [[]]
  | c :: cs =>
    match splitChars sep cs with
    | [] => [[c]]
    | piece :: pieces =>
      if c = sep then [] :: piece :: pieces else (c :: piece) :: pieces

/-- The pieces of a text between the occurrences of `sep`, empty ones included. -/
def split (sep : Char) (s : String) : List String :=
  (splitChars sep s.toList).map String.ofList

/-- The pieces of a text that are not empty. -/
def splitNonempty (sep : Char) (s : String) : List String :=
  (split sep s).filter (· ≠ "")

/-- The texts before and after the first `sep`, if there is one. -/
def cutAtFirst? (sep : Char) (s : String) : Option (String × String) :=
  match s.toList.dropWhile (· ≠ sep) with
  | [] => none
  | _ :: rest => some (String.ofList (s.toList.takeWhile (· ≠ sep)), String.ofList rest)

/-- The text without the ending `suffix`; a text that ends otherwise is kept. -/
def dropEnding (suffix s : String) : String :=
  if suffix.toList.isSuffixOf s.toList then
    String.ofList (s.toList.take (s.toList.length - suffix.toList.length))
  else s

/-- What follows `start` in a character list that begins with it. -/
def after? : (start cs : List Char) → Option (List Char)
  | [], cs => some cs
  | _ :: _, [] => none
  | a :: start, c :: cs => if a = c then after? start cs else none

theorem after?_eq_some_iff {start cs rest : List Char} :
    after? start cs = some rest ↔ cs = start ++ rest := by
  fun_induction after? start cs with
  | case1 => simp
  | case2 => simp
  | case3 _ _ _ ih => simpa using ih
  | case4 a _ c _ h => simp [Ne.symm h]

end ProtoTypings.Text
