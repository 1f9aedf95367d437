import ChainIR.Command.Arguments
import ChainIR.Reading.Reader
import ChainIR.Text.ControlSequence

/-! # What a run of the program prints

A run reads one program. Log records of the levels asked for and the summary, or the error, go to
the standard error; the text of the program goes to the standard output if it is asked for. -/

namespace ChainIR.Command

/-- What a run prints, and its exit status. -/
structure Report where
  /-- The exit status. -/
  status : Nat
  /-- The standard output. -/
  output : String := ""
  /-- The standard error. -/
  errors : String := ""
  deriving DecidableEq

/-- The help text. -/
def helpText : String :=
  "Parse and print CSawIR modules\n\nUsage: csawir [OPTIONS] <INPUT>\n\n" ++
    "Arguments:\n  <INPUT>  Input file, `-` for stdin\n\n" ++
    "Options:\n      --emit     Print the parsed module to stdout\n" ++
    "  -q, --quiet    Do not print the summary\n  -h, --help     Print help\n" ++
    "  -V, --version  Print version\n"

/-- The version text. -/
def versionText : String := "csawir 0.1.0\n"

/-- Whether records of a level are shown when `threshold` is the least grave level to be shown;
`none` shows no records. -/
def shows (threshold : Option LogLevel) (level : LogLevel) : Bool :=
  threshold.any fun least => level.rank ≤ least.rank

/-- The threshold of a name: a level or `off`. -/
def threshold? (name : String) : Option (Option LogLevel) :=
  match name with
  | "off" => some none
  | "error" => some (some .error)
  | "warn" => some (some .warn)
  | "info" => some (some .info)
  | "debug" => some (some .debug)
  | "trace" => some (some .trace)
  | _ => none

/-- The threshold unless another is asked for. -/
def defaultThreshold : Option LogLevel := some .warn

/-- A message whose further lines are indented. -/
def indented (message : String) : String :=
  "\n    ".intercalate ((message.toList.splitOn '\n').map String.ofList)

/-- A log line: the level in five columns, the part of the program that speaks, the message. The
line is written without control sequences, so that a message cannot steer a terminal; one that a
message leaves open may take the end of its line away. -/
def logLine (speaker : String) (record : LogRecord) : String :=
  let level := record.level.text
  ControlSequence.withoutControls
    ("[" ++ level.pushn ' ' (5 - level.length) ++ " " ++ speaker ++ "] " ++
      indented record.message ++ "\n")

/-- The log of a run, as far as it is shown. -/
def logText (threshold : Option LogLevel) (options : Options) (records : List LogRecord) :
    String :=
  let opening : LogRecord := ⟨.info, "parsing " ++ options.input⟩
  let spoken := ("csawir", opening) ::
    records.map fun record => ("csawir::frontend::parser", record)
  String.join ((spoken.filter fun (_, record) => shows threshold record.level).map
    fun (speaker, record) => logLine speaker record)

/-- What a failure says. -/
def failureText : Failure → String
  | .rejected error => error.message
  | .fault fault => fault.message

/-- How many functions and globals a program has. -/
def summary (program : Program) : String :=
  "parsed " ++ toString program.functions.size ++ " functions, " ++
    toString program.globals.size ++ " globals\n"

/-- The report of a run that has read a program or failed to. -/
def Report.ofReading (threshold : Option LogLevel) (options : Options) (reading : Reading) :
    Report :=
  let log := logText threshold options reading.records
  let failed := fun (failure : Failure) =>
    ({ status := 1, errors := log ++ "error: " ++ failureText failure ++ "\n" } : Report)
  match reading.result with
  | .error failure => failed failure
  | .ok program =>
    let errors := log ++ if options.quiet then "" else summary program
    if options.emit then
      match program.text with
      | .ok output => { status := 0, output, errors }
      | .error fault => failed (.fault fault)
    else { status := 0, errors }

/-- The options of a run that reads a program, or else the report of the run. -/
def Invocation.options : Invocation → Except Report Options
  | .help => .error { status := 0, output := helpText }
  | .version => .error { status := 0, output := versionText }
  | .misuse => .error { status := 2 }
  | .run options => .ok options

/-- The report of a whole run: the arguments, the standard input and a way to read files. -/
def Report.ofArguments (threshold : Option LogLevel) (arguments : List String)
    (standardInput : List UInt8) (readFile : String → Except InputError (List UInt8)) : Report :=
  match (Invocation.ofArguments arguments).options with
  | .error report => report
  | .ok options =>
    let input := if options.input = "-" then .ok standardInput else readFile options.input
    .ofReading threshold options (Reading.ofInput input)

end ChainIR.Command
