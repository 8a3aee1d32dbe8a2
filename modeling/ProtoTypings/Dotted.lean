import ProtoTypings.Text.Split
/-!
# Dotted names

A qualified name is a text whose segments are divided by dots. The *outer
names* of a name are what remains when segments are cut off at its end, one
after the other, down to the empty name; a reference is looked up in a scope
and then in the scope's outer names.

Nothing here assumes that segments are non-empty: a name may begin or end
with a dot or hold two in a row.
-/
namespace ProtoTypings.Dotted

/-- `name` inside `scope`; the empty scope adds nothing. -/
def join (scope name : String) : String :=
  if scope = "" then name else scope ++ "." ++ name

/-- The rests of a character list after each of its dots, longest first. -/
def afterDots : List Char → List (List Char)
  | [] => []
  | c :: cs => if c = '.' then cs :: afterDots cs else afterDots cs

/-- The text of a name that is read backwards. -/
def ofBackwards (name : List Char) : String :=
  String.ofList name.reverse

/-- The names that enclose a name, both read backwards, innermost first. What
stands before a dot comes after it then, so all of them are parts of one list. -/
def outerBackwards (name : List Char) : List (List Char) :=
  afterDots name ++ [[]]

/-- The names that enclose a name, innermost first; the last one is empty. -/
def outer (name : String) : List String :=
  (outerBackwards name.toList.reverse).map ofBackwards

/-- A scope and the names that enclose it, innermost first. -/
def scopes (scope : String) : List String :=
  scope :: outer scope

/-- The name without its last segment; empty if there is only one. -/
def parent (name : String) : String :=
  ofBackwards ((outerBackwards name.toList.reverse).headD [])

def head (name : String) : String :=
  String.ofList (name.toList.takeWhile (· ≠ '.'))

/-- The name without a leading dot. -/
def unrooted (name : String) : String :=
  match name.toList with
  | '.' :: rest => String.ofList rest
  | _ => name

/-- The scope in which `reference` means `name`, if there is one; all three are
read backwards. -/
def scopeIn? (reference name : List Char) : Option (List Char) :=
  match Text.after? reference name with
  | some [] => some []
  | some ('.' :: c :: scope) => some (c :: scope)
  | _ => none

theorem scopeIn?_eq_some_iff {reference name scope : List Char} :
    scopeIn? reference name = some scope ↔
      name = if scope = [] then reference else reference ++ '.' :: scope := by
  unfold scopeIn?
  split
  · next h =>
    rw [Text.after?_eq_some_iff] at h
    subst h
    by_cases hs : scope = []
    · simp [hs]
    · simp [hs, Ne.symm hs]
  · next c rest h =>
    rw [Text.after?_eq_some_iff] at h
    subst h
    by_cases hs : scope = []
    · simp [hs]
    · simp [hs, eq_comm]
  · next h1 h2 =>
    constructor
    · intro h; cases h
    · intro h
      exfalso
      by_cases hs : scope = []
      · rw [if_pos hs] at h
        exact h1 (Text.after?_eq_some_iff.2 (by simp [h]))
      · obtain ⟨c, rest, rfl⟩ := List.exists_cons_of_ne_nil hs
        rw [if_neg hs] at h
        exact h2 c rest (Text.after?_eq_some_iff.2 h)

/-- A reference means a name in exactly one scope, the one that joins with it to
the name. -/
theorem eq_join_iff {reference name : String} {scope : List Char} :
    name = join (ofBackwards scope) reference ↔
      scopeIn? reference.toList.reverse name.toList.reverse = some scope := by
  rw [scopeIn?_eq_some_iff]
  by_cases hs : scope = []
  · subst hs
    simp [join, ofBackwards, String.toList_inj]
  · have hne : ofBackwards scope ≠ "" := by simpa [ofBackwards] using hs
    rw [join, if_neg hne, if_neg hs, ← String.toList_inj]
    constructor
    · intro h; simp [h, ofBackwards]
    · intro h
      have := congrArg List.reverse h
      simpa [ofBackwards] using this

/-- Whether a reference is written from the root, with a leading dot. -/
def isRooted (reference : String) : Bool :=
  reference.toList.head? = some '.'

end ProtoTypings.Dotted
