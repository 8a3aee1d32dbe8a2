import ProtoTypings.Text.Split
/-!
# Paths

Paths of files as texts, with their segments divided by slashes. A path keeps
the form in which it was given; empty segments and single dots in it mean
nothing, and a leading slash makes it absolute. Paths and segments are limited
in length, which is counted in bytes.
-/
namespace ProtoTypings.Path

/-- The segments of a path, empty ones and dots included. -/
def segments (path : String) : List String :=
  Text.split '/' path

/-- Whether a segment stays where it is. -/
def isIdle (segment : String) : Bool :=
  segment = "" || segment = "."

/-- The most bytes that a path can have. -/
def longest : Nat := 4095

/-- The most bytes that a segment can have. -/
def longestSegment : Nat := 255

def isTooLong (path : String) : Bool :=
  longest < path.utf8ByteSize

def isLongSegment (segment : String) : Bool :=
  longestSegment < segment.utf8ByteSize

/-- The segments of a path that lead somewhere. -/
def steps (path : String) : List String :=
  (segments path).filter (!isIdle ·)

def isAbsolute (path : String) : Bool :=
  path.toList.head? = some '/'

/-- Whether a path could lead out of the directory that it is meant for. -/
def escapes (path : String) : Bool :=
  isAbsolute path || (segments path).contains ".."

/-- The path `name` in the directory `directory`. A slash goes between them where
there is none yet; the empty directory is where relative paths start. -/
def join (directory name : String) : String :=
  if directory = "" ∨ directory.toList.getLast? = some '/' then directory ++ name
  else directory ++ "/" ++ name

/-- The directory that holds the last segment of a path. -/
def parent (path : String) : String :=
  let front := (segments path).dropLast
  match (front.reverse.dropWhile isIdle).reverse with
  | [] => if isAbsolute path then "/" else if front.isEmpty then "" else "."
  | kept => "/".intercalate kept

/-- What stands before the last slash of a path. -/
def beforeLast (path : String) : String :=
  String.ofList ((path.toList.reverse.dropWhile (· ≠ '/')).drop 1).reverse

/-- The ending of a file name after its last dot. A name that begins with its
only dot has none. -/
def extension? (name : String) : Option String :=
  match Text.split '.' name with
  | [] | [_] | ["", _] => none
  | pieces => pieces.getLast?

def fileName (path : String) : String :=
  (segments path).getLastD ""

end ProtoTypings.Path
