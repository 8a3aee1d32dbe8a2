/-!
# Arguments

The options of the command line and how arguments spell them. A value may be
attached to its option or be the next argument; short flags may be written
together. Asking for the version or for help ends the reading at once, before
anything that is wrong further on; which options exclude each other is looked
at last.
-/
namespace ProtoTypings

/-- Options that take a value. -/
inductive ValueOption where
  | descriptorSet
  | descriptorDir
  | file
  | output
  | parameter
  deriving DecidableEq, Repr, Inhabited

/-- Options without a value. -/
inductive Flag where
  | verbose
  | dryRun
  | force
  | check
  | help
  | version
  deriving DecidableEq, Repr, Inhabited

/-- The options of the command line. -/
inductive Switch where
  | valued (option : ValueOption)
  | flag (flag : Flag)
  deriving DecidableEq, Repr, Inhabited

namespace Switch

def ofLong? : String → Option Switch
  | "descriptor-set" => some (.valued .descriptorSet)
  | "descriptor-dir" => some (.valued .descriptorDir)
  | "file" => some (.valued .file)
  | "output" => some (.valued .output)
  | "parameter" => some (.valued .parameter)
  | "verbose" => some (.flag .verbose)
  | "dry-run" => some (.flag .dryRun)
  | "force" => some (.flag .force)
  | "check" => some (.flag .check)
  | "help" => some (.flag .help)
  | "version" => some (.flag .version)
  | _ => none

def ofShort? : Char → Option Switch
  | 'd' => some (.valued .descriptorSet)
  | 'o' => some (.valued .output)
  | 'p' => some (.valued .parameter)
  | 'v' => some (.flag .verbose)
  | 'h' => some (.flag .help)
  | 'V' => some (.flag .version)
  | _ => none

end Switch

/-- What is wrong with a list of arguments. -/
inductive UsageFault where
  | unexpected (argument : String)
  | missingValue (option : ValueOption)
  | emptyPath (option : ValueOption)
  | needlessValue (argument : String)
  | repeatedOption (option : ValueOption)
  | repeatedFlag (flag : Flag)
  | excluded (first second : String)
  deriving DecidableEq, Repr

def ValueOption.spelling : ValueOption → String
  | descriptorSet => "--descriptor-set"
  | descriptorDir => "--descriptor-dir"
  | file => "--file"
  | output => "--output"
  | parameter => "--parameter"

def Flag.spelling : Flag → String
  | verbose => "--verbose"
  | dryRun => "--dry-run"
  | force => "--force"
  | check => "--check"
  | help => "--help"
  | version => "--version"

def UsageFault.message : UsageFault → String
  | unexpected argument => s!"unexpected argument '{argument}' found"
  | missingValue option =>
    "a value is required for '" ++ option.spelling ++ "' but none was supplied"
  | emptyPath option =>
    "a value is required for '" ++ option.spelling ++ "' but none was supplied"
  | needlessValue argument => s!"unexpected value in '{argument}' found; no more were expected"
  | repeatedOption option =>
    "the argument '" ++ option.spelling ++ "' cannot be used multiple times"
  | repeatedFlag flag => "the argument '" ++ flag.spelling ++ "' cannot be used multiple times"
  | excluded first second => s!"the argument '{first}' cannot be used with '{second}'"

/-- Why arguments name no run. -/
inductive Stop where
  | usage (fault : UsageFault)
  | help
  | version
  deriving DecidableEq, Repr

/-- What a list of arguments says. -/
structure Arguments where
  descriptorSets : List String := []
  descriptorDir : Option String := none
  files : List String := []
  output : Option String := none
  parameter : Option String := none
  verbosity : Nat := 0
  dryRun : Bool := false
  force : Bool := false
  check : Bool := false
  deriving DecidableEq, Repr, Inhabited

namespace Arguments

/-- A path that is not empty. -/
def path (option : ValueOption) (value : String) : Except Stop String :=
  if value = "" then .error (.usage (.emptyPath option)) else .ok value

/-- A value for an option that has none yet. -/
def once (option : ValueOption) (before : Option String) (value : String) :
    Except Stop (Option String) :=
  if before.isSome then .error (.usage (.repeatedOption option)) else .ok (some value)

/-- A flag that has not been set yet. -/
def unset (flag : Flag) (before : Bool) : Except Stop Bool :=
  if before then .error (.usage (.repeatedFlag flag)) else .ok true

def give (arguments : Arguments) (option : ValueOption) (value : String) :
    Except Stop Arguments :=
  match option with
  | .descriptorSet => do
    let value ← path option value
    pure { arguments with descriptorSets := arguments.descriptorSets ++ [value] }
  | .descriptorDir => do
    let value ← once option arguments.descriptorDir (← path option value)
    pure { arguments with descriptorDir := value }
  | .file => pure { arguments with files := arguments.files ++ [value] }
  | .output => do
    let value ← once option arguments.output (← path option value)
    pure { arguments with output := value }
  | .parameter => do
    let value ← once option arguments.parameter value
    pure { arguments with parameter := value }

def raise (arguments : Arguments) (flag : Flag) : Except Stop Arguments :=
  match flag with
  | .verbose => pure { arguments with verbosity := arguments.verbosity + 1 }
  | .dryRun => do
    let value ← unset flag arguments.dryRun
    pure { arguments with dryRun := value }
  | .force => do
    let value ← unset flag arguments.force
    pure { arguments with force := value }
  | .check => do
    let value ← unset flag arguments.check
    pure { arguments with check := value }
  | .help => .error .help
  | .version => .error .version

/-- Reads an option with a long name, written without its dashes. Gives the
option that waits for its value, if one does. -/
def readLong (arguments : Arguments) (body : List Char) :
    Except Stop (Arguments × Option ValueOption) :=
  let written := String.ofList ('-' :: '-' :: body)
  let name := String.ofList (body.takeWhile (· ≠ '='))
  match Switch.ofLong? name, body.dropWhile (· ≠ '=') with
  | some (.valued option), [] => .ok (arguments, some option)
  | some (.valued option), _ :: value => do
    pure (← arguments.give option (String.ofList value), none)
  | some (.flag flag), [] => do
    pure (← arguments.raise flag, none)
  | some (.flag _), _ :: _ => .error (.usage (.needlessValue written))
  | none, _ => .error (.usage (.unexpected written))

/-- Reads options with short names, written together without their dash. Gives
the option that waits for its value, if one does. -/
def readShort (arguments : Arguments) : List Char → Except Stop (Arguments × Option ValueOption)
  | [] => .ok (arguments, none)
  | c :: rest =>
    match Switch.ofShort? c, rest with
    | some (.flag flag), _ => do
      readShort (← arguments.raise flag) rest
    | some (.valued option), [] => .ok (arguments, some option)
    | some (.valued option), '=' :: value => do
      pure (← arguments.give option (String.ofList value), none)
    | some (.valued option), value => do
      pure (← arguments.give option (String.ofList value), none)
    | none, _ => .error (.usage (.unexpected (String.ofList ['-', c])))

/-- Whether an argument can be the value of the option before it. A single dash
can; anything else that begins with one cannot. -/
def isValue (argument : String) : Bool :=
  argument = "-" || argument.toList.head? ≠ some '-'

/-- Reads arguments, where `waiting` is the option before them that has no value
yet. Two dashes alone may stand at the end. -/
def readFrom (arguments : Arguments) (waiting : Option ValueOption) :
    List String → Except Stop Arguments
  | [] =>
    match waiting with
    | some option => .error (.usage (.missingValue option))
    | none => .ok arguments
  | argument :: rest =>
    match waiting with
    | some option =>
      if isValue argument then do
        readFrom (← arguments.give option argument) none rest
      else .error (.usage (.missingValue option))
    | none =>
      match argument.toList with
      | ['-', '-'] =>
        match rest with
        | [] => .ok arguments
        | stray :: _ => .error (.usage (.unexpected stray))
      | '-' :: '-' :: body => do
        let (next, waiting) ← arguments.readLong body
        readFrom next waiting rest
      | '-' :: c :: body => do
        let (next, waiting) ← arguments.readShort (c :: body)
        readFrom next waiting rest
      | _ => .error (.usage (.unexpected argument))

/-- The first pair of options that exclude each other. -/
def exclusion? (arguments : Arguments) : Option UsageFault :=
  if !arguments.descriptorSets.isEmpty && arguments.descriptorDir.isSome then
    some (.excluded (ValueOption.spelling .descriptorSet) (ValueOption.spelling .descriptorDir))
  else if arguments.check && arguments.dryRun then
    some (.excluded (Flag.spelling .check) (Flag.spelling .dryRun))
  else if arguments.check && arguments.force then
    some (.excluded (Flag.spelling .check) (Flag.spelling .force))
  else none

/-- What a list of arguments says, or why it names no run. -/
def read (list : List String) : Except Stop Arguments := do
  let arguments ← readFrom {} none list
  match arguments.exclusion? with
  | some fault => .error (.usage fault)
  | none => .ok arguments

end Arguments
end ProtoTypings
