import PerfCounters.CommandLine.Program

/-!
The program on the files and streams of the system. Drains end promptly here: with one caller that
waits for nothing else, the order of delivery is the same for every other schedule.
-/

namespace PerfCounters.CommandLine

/-- Why the system did not give the text of a file. -/
def FileError.ofSystem : IO.Error → FileError
  | .noFileOrDirectory _ _ _ => .notFound
  | .inappropriateType _ code details =>
    if code = 21 then .isDirectory
    else if code = 20 || code = 0 - 20 then .notDirectory
    else .other details
  | .invalidArgument _ code details => if code = 36 then .nameTooLong else .other details
  | .userError _ => .notText
  | e => .other (toString e)

/-- Reads a file of the system. -/
def readSystemFile (path : String) : IO (Except FileError String) := do
  try
    let text ← IO.FS.readFile path
    return .ok text
  catch e => return .error (FileError.ofSystem e)

/-- Where the program runs. -/
def platform : String := "linux/x86_64"

end PerfCounters.CommandLine

open PerfCounters.CommandLine in
/-- Runs the program and ends with its code. -/
def main (args : List String) : IO UInt32 := do
  let report ← Report.ofArguments readSystemFile Schedule.prompt platform args
  for line in report.output do IO.println line
  for line in report.errors do IO.eprintln line
  return report.code.toUInt32
