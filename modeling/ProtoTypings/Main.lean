import ProtoTypings.CommandLine.Run
import ProtoTypings.Exchange
/-!
# The program

Runs on the computer's own disk, and the exchange with the compiler over
standard input and output.
-/
namespace ProtoTypings

/-- The refusal that a system error stands for. The code for names that are too
long comes with either sign. -/
def FileFault.ofError : IO.Error → FileFault
  | .noFileOrDirectory .. => .notFound
  | .alreadyExists .. => .alreadyExists
  | .inappropriateType _ code _ => if code = 21 then .isDirectory else .notDirectory
  | .invalidArgument file code details =>
    if code = 36 || code = -36 then .nameTooLong
    else .other (toString (IO.Error.invalidArgument file code details))
  | e => .other (toString e)

/-- An action's result, or the refusal. -/
def attempt {α : Type} (action : IO α) : IO (Except FileFault α) := do
  match ← action.toBaseIO with
  | .ok a => return .ok a
  | .error e => return .error (.ofError e)

/-- The result of an action on a path, or the refusal. -/
def attemptAt {α : Type} (path : String) (action : IO α) : IO (Except FileFault α) :=
  match Path.refusal? path with
  | some fault => return .error fault
  | none => attempt action

/-- The files under a directory, by the paths that lead to them. What cannot be
reached is left out. -/
partial def listFiles (directory : String) : IO (List String) := do
  match ← attemptAt directory (IO.FS.DirEntry.mk directory "").root.readDir with
  | .error _ => return []
  | .ok entries =>
    let found ← (entries.toList.map (·.fileName)).mergeSort.mapM fun name => do
      let path := Path.join directory name
      if (Path.refusal? path).isSome then return []
      else if ← (IO.FS.DirEntry.mk path "").root.isDir then listFiles path
      else return [path]
    return found.flatten

def makeDirectory (path : String) : IO (Except FileFault Unit) := do
  match ← attemptAt path (IO.FS.createDir path) with
  | .ok () => return .ok ()
  | .error fault =>
    if fault = .alreadyExists && (← (IO.FS.DirEntry.mk path "").root.isDir) then return .ok ()
    else return .error fault

/-- Makes a directory and those that hold it, unless they are there. -/
partial def makeAllDirectories (path : String) : IO (Except FileFault Unit) := do
  if path = "" then return .ok ()
  match ← makeDirectory path with
  | .error .notFound =>
    match ← makeAllDirectories (Path.parent path) with
    | .ok () => makeDirectory path
    | .error fault => return .error fault
  | result => return result

instance : FileAccess IO where
  readBytes path := attemptAt path (IO.FS.readBinFile path)
  isDirectory path := (IO.FS.DirEntry.mk path "").root.isDir
  isPresent path :=
    if (Path.refusal? path).isSome then return false
    else (IO.FS.DirEntry.mk path "").root.pathExists
  filesUnder path := listFiles path
  makeDirectories path := makeAllDirectories path
  writeText path content := attemptAt path (IO.FS.writeFile path content)
  print text := IO.print text

def answerCompiler : IO Unit := do
  let request ← (← IO.getStdin).readBinToEnd
  let output ← IO.getStdout
  output.write ⟨(respond request.data.toList).encode.toArray⟩
  output.flush

end ProtoTypings

open ProtoTypings in
def main (list : List String) : IO UInt32 := do
  match Command.ofArguments list (← IO.getEnv "TSDECL_PARAMETER") with
  | .error stop =>
    if let .usage fault := stop then
      IO.eprintln ("error: " ++ fault.message)
    IO.print stop.printed
    return stop.exitCode
  | .ok .plugin =>
    answerCompiler
    return 0
  | .ok (.files invocation) =>
    match ← (invocation.run : ExceptT RunFault IO Unit).run with
    | .ok () => return 0
    | .error fault =>
      IO.eprintln ("Error: " ++ fault.message)
      return 1
