import ProtoTypings.CommandLine.Path
/-!
# Access to files

What a run needs of the world around it: to look at files and directories, to
make them, and to print. Runs are written once for every world that provides
this, be it a computer's disk or a disk that is only a value.
-/
namespace ProtoTypings

inductive FileFault where
  | notFound
  | alreadyExists
  | notDirectory
  | isDirectory
  | nameTooLong
  /-- A path cannot hold the NUL character. -/
  | nulInPath
  /-- Any other reason, in the system's own words. -/
  | other (reason : String)
  deriving DecidableEq, Repr, Inhabited

def FileFault.message : FileFault → String
  | notFound => "No such file or directory (os error 2)"
  | alreadyExists => "File exists (os error 17)"
  | notDirectory => "Not a directory (os error 20)"
  | isDirectory => "Is a directory (os error 21)"
  | nameTooLong => "File name too long (os error 36)"
  | nulInPath => "file name contained an unexpected NUL byte"
  | other reason => reason

/-- Why a path is refused before anything is looked at. -/
def Path.refusal? (path : String) : Option FileFault :=
  if path.toList.any (·.toNat = 0) then some .nulInPath
  else if Path.isTooLong path then some .nameTooLong
  else none

/-- A world in which a run can take place. -/
class FileAccess (m : Type → Type) where
  /-- The content of a file. -/
  readBytes : String → m (Except FileFault ByteArray)
  /-- Whether a path leads to a directory. -/
  isDirectory : String → m Bool
  /-- Whether a path leads to anything. -/
  isPresent : String → m Bool
  /-- The files under a directory at any depth, each as a path that begins with
  the directory's own. The names in a directory come in order, and what is under
  a directory comes in that directory's place. -/
  filesUnder : String → m (List String)
  /-- Makes a directory and those that hold it, unless they are there. -/
  makeDirectories : String → m (Except FileFault Unit)
  /-- Writes a file, over the one that is there. -/
  writeText : (path content : String) → m (Except FileFault Unit)
  /-- Prints to standard output. -/
  print : String → m Unit

end ProtoTypings
