import ChainIR.Command.Report

/-! # The program on the command line

Reads the file named by the arguments, or the standard input, and prints the report of the run.
The least grave level of the log to be shown comes from the environment. -/

namespace ChainIR.Command

/-- The input error that the system reports. -/
def inputErrorOf : IO.Error → InputError
  | .inappropriateType _ code _ => if code = 21 then .isDirectory else .notDirectory
  | .invalidArgument _ _ _ => .nameTooLong
  | _ => .notFound

/-- The bytes of a file, or of the standard input for `-`. -/
def readInput (input : String) : IO (Except InputError (List UInt8)) := do
  try
    let bytes ← if input = "-" then (← IO.getStdin).readBinToEnd else IO.FS.readBinFile input
    return .ok bytes.toList
  catch error => return .error (inputErrorOf error)

/-- The threshold of the log. -/
def logThreshold : IO (Option LogLevel) := do
  let name ← IO.getEnv "RUST_LOG"
  return ((name.bind threshold?).getD defaultThreshold)

/-- Print a report and return its exit status. -/
def Report.print (report : Report) : IO UInt32 := do
  IO.print report.output
  IO.eprint report.errors
  return .ofNat report.status

end ChainIR.Command

open ChainIR ChainIR.Command in
/-- Run the program. -/
def main (arguments : List String) : IO UInt32 := do
  match (Invocation.ofArguments arguments).options with
  | .error report => report.print
  | .ok options =>
    let input ← readInput options.input
    (Report.ofReading (← logThreshold) options (Reading.ofInput input)).print
