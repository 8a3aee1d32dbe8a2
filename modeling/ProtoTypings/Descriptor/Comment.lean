import ProtoTypings.Descriptor.Basic
/-!
# Comments of declarations

A place of a protobuf file is named by a path: field numbers of the
descriptors that lead to it, each followed by a position in a list. The path
`[4, 0, 2, 1]` is the second field of the first message.

An empty comment counts as none. Of several locations with one path the first
that has a comment holds.
-/
namespace ProtoTypings

structure Comment where
  /-- The text right above the declaration. -/
  leading : Option String := none
  /-- The text right after it. -/
  trailing : Option String := none
  deriving DecidableEq, Repr, Inhabited

/-- A comment text, where an empty one counts as none. -/
def Comment.nonempty (text : Option String) : Option String :=
  text.filter (· ≠ "")

def Location.comment (location : Location) : Comment where
  leading := Comment.nonempty location.leading
  trailing := Comment.nonempty location.trailing

def Location.commentAt (locations : List Location) (path : List Int32) : Comment :=
  match locations.find? fun l => l.path = path ∧ l.comment ≠ {} with
  | some location => location.comment
  | none => {}

/-- The list of a descriptor that a path goes through. -/
inductive PathStep where
  | fileMessage
  | fileEnum
  | fileService
  | messageField
  | messageNested
  | messageEnum
  | enumValue
  | serviceMethod
  deriving DecidableEq, Repr, Inhabited

def PathStep.number : PathStep → Int32
  | fileMessage => 4
  | fileEnum => 5
  | fileService => 6
  | messageField => 2
  | messageNested => 3
  | messageEnum => 4
  | enumValue => 2
  | serviceMethod => 2

/-- The path of an element of the list with the field number `number`. -/
def Location.child (path : List Int32) (number index : Int32) : List Int32 :=
  path ++ [number, index]

def PathStep.child (step : PathStep) (path : List Int32) (index : Nat) : List Int32 :=
  Location.child path step.number (Int32.ofNat index)

end ProtoTypings
