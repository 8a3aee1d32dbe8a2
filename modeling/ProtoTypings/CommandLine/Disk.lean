import ProtoTypings.CommandLine.FileAccess
import ProtoTypings.CommandLine.Path
/-!
# A disk as a value

A file system without links: every place holds nothing, a directory or a file.
A place is named by the one path that leads to it from the root straight, as in
`/a/b`; the name of the root is empty. Any other path is followed segment by
segment, and each place on the way must be a directory when the next segment is
taken.
-/
namespace ProtoTypings

/-- What a place holds. -/
inductive Entry where
  | directory
  | file (content : ByteArray)
  deriving Inhabited

/-- A file system with a working directory. -/
structure Disk where
  /-- The place at which relative paths start. -/
  home : String := ""
  /-- What the places hold, other than the root. -/
  entries : List (String × Entry) := []
  deriving Inhabited

namespace Disk

/-- What a place holds. The root is a directory. -/
def get? (disk : Disk) (place : String) : Option Entry :=
  if place = "" then some .directory else disk.entries.lookup place

def put (disk : Disk) (place : String) (entry : Entry) : Disk :=
  { disk with entries := (place, entry) :: disk.entries.filter (·.1 ≠ place) }

/-- The place to which one segment leads. -/
def step (place segment : String) : String :=
  if Path.isIdle segment then place
  else if segment = ".." then Path.beforeLast place
  else place ++ "/" ++ segment

/-- The place to which segments lead; it need not hold anything. -/
def follow (disk : Disk) (place : String) : List String → Except FileFault String
  | [] => .ok place
  | segment :: rest =>
    match disk.get? place with
    | some .directory =>
      if Path.isLongSegment segment then .error .nameTooLong
      else disk.follow (step place segment) rest
    | some (.file _) => .error .notDirectory
    | none => .error .notFound

def start (disk : Disk) (path : String) : String :=
  if Path.isAbsolute path then "" else disk.home

def locate (disk : Disk) (path : String) : Except FileFault String :=
  match Path.refusal? path with
  | some fault => .error fault
  | none => disk.follow (disk.start path) (Path.segments path)

def entry (disk : Disk) (path : String) : Except FileFault Entry := do
  match disk.get? (← disk.locate path) with
  | some entry => .ok entry
  | none => .error .notFound

def read (disk : Disk) (path : String) : Except FileFault ByteArray := do
  match ← disk.entry path with
  | .file content => .ok content
  | .directory => .error .isDirectory

def isDirectory (disk : Disk) (path : String) : Bool :=
  match disk.entry path with
  | .ok .directory => true
  | _ => false

def isPresent (disk : Disk) (path : String) : Bool :=
  match disk.entry path with
  | .ok _ => true
  | .error _ => false

/-- The path from the place `above` to the place `place`, if that is under it. -/
def below? (above place : String) : Option String :=
  (Text.after? (above.toList ++ ['/']) place.toList).map String.ofList

/-- Whether one list of segments comes before another or is the same: by the
first segment that differs, and a directory before what is under it. -/
def precedes : List String → List String → Bool
  | [], _ => true
  | _ :: _, [] => false
  | a :: as, b :: bs => if a = b then precedes as bs else decide (a < b)

/-- The files under a place, each by the path that leads to it from there, in
order. -/
def filesBelow (disk : Disk) (place : String) : List String :=
  (disk.entries.filterMap fun (p, entry) =>
    match entry with
    | .file _ => below? place p
    | .directory => none).mergeSort fun a b => precedes (Path.segments a) (Path.segments b)

/-- The files under the directory at a path. Those that this path makes too far
to reach are left out. -/
def filesUnder (disk : Disk) (path : String) : List String :=
  match disk.locate path with
  | .ok place =>
    ((disk.filesBelow place).map (Path.join path)).filter fun p => (Path.refusal? p).isNone
  | .error _ => []

/-- Makes the directories to which segments lead one after the other, where they
are missing. `making` says that one has been made already. A file on a way that
was there is no directory; on a way that is being made, or at its end, it takes
the place of one. -/
def makeDirectories (disk : Disk) (place : String) (making : Bool) :
    List String → Except FileFault Unit × Disk
  | [] => (.ok (), disk)
  | segment :: rest =>
    if Path.isLongSegment segment then (.error .nameTooLong, disk)
    else
      let next := step place segment
      match disk.get? next with
      | none => (disk.put next .directory).makeDirectories next true rest
      | some .directory => disk.makeDirectories next making rest
      | some (.file _) =>
        (.error (if making || rest.isEmpty then .alreadyExists else .notDirectory), disk)

/-- Makes the directory at a path and those that hold it. -/
def makePath (disk : Disk) (path : String) : Except FileFault Unit × Disk :=
  match Path.refusal? path with
  | some fault => (.error fault, disk)
  | none => disk.makeDirectories (disk.start path) false (Path.steps path)

def write (disk : Disk) (path : String) (content : ByteArray) : Except FileFault Disk := do
  let place ← disk.locate path
  match disk.get? place with
  | some .directory => .error .isDirectory
  | _ => .ok (disk.put place (.file content))

end Disk

end ProtoTypings
