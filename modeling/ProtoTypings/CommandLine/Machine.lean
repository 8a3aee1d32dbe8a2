import ProtoTypings.CommandLine.Disk
import ProtoTypings.CommandLine.Run
/-!
# Runs on a disk that is a value

A machine is a disk and what has been printed. Runs on a machine are functions,
so what they do to a disk can be stated and computed.
-/
namespace ProtoTypings

/-- A disk and what has been printed. -/
structure Machine where
  disk : Disk := {}
  printed : String := ""
  deriving Inhabited

instance : FileAccess (StateM Machine) where
  readBytes path := do return (← get).disk.read path
  isDirectory path := do return (← get).disk.isDirectory path
  isPresent path := do return (← get).disk.isPresent path
  filesUnder path := do return (← get).disk.filesUnder path
  makeDirectories path := modifyGet fun machine =>
    let (result, disk) := machine.disk.makePath path
    (result, { machine with disk := disk })
  writeText path content := modifyGet fun machine =>
    match machine.disk.write path content.toUTF8 with
    | .ok disk => (.ok (), { machine with disk := disk })
    | .error fault => (.error fault, machine)
  print text := modify fun machine => { machine with printed := machine.printed ++ text }

/-- The run of an invocation on a machine: its result, and the machine after it. -/
def Invocation.runOn (invocation : Invocation) (machine : Machine) :
    Except RunFault Unit × Machine :=
  (invocation.run : ExceptT RunFault (StateM Machine) Unit).run.run machine

end ProtoTypings
