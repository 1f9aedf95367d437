/-! # Command line arguments

The arguments are read from left to right. A request for help or for the version counts as soon
as it is met, and so does a misuse; what stands behind it is not looked at. -/

namespace ChainIR.Command

/-- What a run of the program is to do. -/
structure Options where
  /-- The file to read, `-` for the standard input. -/
  input : String
  /-- Whether the program text is to be printed. -/
  emit : Bool
  /-- Whether the summary is to be left out. -/
  quiet : Bool
  deriving DecidableEq

/-- What the arguments ask for. -/
inductive Invocation
  /-- Print the help text. -/
  | help
  /-- Print the version. -/
  | version
  /-- The arguments make no sense. -/
  | misuse
  /-- Read a program. -/
  | run (options : Options)
  deriving DecidableEq

/-- The arguments read so far. -/
structure Seen where
  /-- The input file. -/
  input : Option String := none
  /-- Whether `--emit` was met. -/
  emit : Bool := false
  /-- Whether `--quiet` was met. -/
  quiet : Bool := false

namespace Seen

/-- Read a positional argument; there is one, and it is not empty. -/
def position (seen : Seen) (argument : String) : Except Invocation Seen :=
  if argument.isEmpty || seen.input.isSome then .error .misuse
  else .ok { seen with input := some argument }

/-- Read `--emit`, which may stand once. -/
def withEmit (seen : Seen) : Except Invocation Seen :=
  if seen.emit then .error .misuse else .ok { seen with emit := true }

/-- Read `--quiet`, which may stand once. -/
def withQuiet (seen : Seen) : Except Invocation Seen :=
  if seen.quiet then .error .misuse else .ok { seen with quiet := true }

/-- Read an argument that starts with two dashes. -/
def long (seen : Seen) (name : String) : Except Invocation Seen :=
  match name with
  | "--emit" => seen.withEmit
  | "--quiet" => seen.withQuiet
  | "--help" => .error .help
  | "--version" => .error .version
  | _ => .error .misuse

/-- Read a letter behind one dash. -/
def short (seen : Seen) (letter : Char) : Except Invocation Seen :=
  match letter with
  | 'q' => seen.withQuiet
  | 'h' => .error .help
  | 'V' => .error .version
  | _ => .error .misuse

/-- Read an argument in front of a `--`. -/
def argument (seen : Seen) (argument : String) : Except Invocation Seen :=
  match argument.toList with
  | '-' :: '-' :: _ => seen.long argument
  | '-' :: letter :: letters => (letter :: letters).foldlM short seen
  | _ => seen.position argument

/-- Read the arguments; behind a `--` all are positional. -/
def arguments (seen : Seen) : List String → Except Invocation Seen
  | [] => .ok seen
  | "--" :: rest => rest.foldlM position seen
  | first :: rest => do (← seen.argument first).arguments rest

end Seen

namespace Invocation

/-- What the arguments ask for. -/
def ofArguments (arguments : List String) : Invocation :=
  match Seen.arguments {} arguments with
  | .error invocation => invocation
  | .ok seen =>
    match seen.input with
    | some input => .run ⟨input, seen.emit, seen.quiet⟩
    | none => .misuse

end Invocation

end ChainIR.Command
