import PerfCounters.Config.Reading
import PerfCounters.Definitions.Error
import PerfCounters.Service.Error

/-!
Why a run of the program failed, from what was being done to what went wrong at the bottom of it.
-/

namespace PerfCounters.CommandLine

/-- What failed, and the causes of it, nearest first. -/
structure Failure where
  message : String
  causes : List String := []
deriving DecidableEq, Repr

namespace Failure

/-- The failure of something larger that this one is the cause of. -/
def context (f : Failure) (message : String) : Failure := ⟨message, f.message :: f.causes⟩

/-- A failure to evaluate. -/
def ofEval (e : EvalError) : Failure := ⟨e.message, e.causes⟩

/-- A refused definition document. -/
def ofDefinitions (e : DefinitionError) : Failure := ⟨e.message, e.causes⟩

/-- A failed call to the service. -/
def ofBuffer (e : BufferError) : Failure := ⟨e.message, []⟩

/-- The lines of a cause, which stands behind `mark`; its further lines begin in the same column. -/
def causeLines (mark : String) (indent : Nat) (cause : String) : List String :=
  match cause.splitOn "\n" with
  | [] => [mark]
  | first :: more =>
    (mark ++ first) :: more.map fun l => String.ofList (List.replicate indent ' ') ++ l

/-- A number at the end of five columns. -/
def numberMark (n : Nat) : String :=
  let digits := toString n
  String.ofList (List.replicate (5 - digits.length) ' ') ++ digits ++ ": "

/-- What is written about a failure. A single cause has no number. -/
def lines (f : Failure) : List String :=
  let head := ("Error: " ++ f.message).splitOn "\n"
  match f.causes with
  | [] => head
  | [cause] => head ++ ["", "Caused by:"] ++ causeLines "    " 4 cause
  | causes =>
    head ++ ["", "Caused by:"]
      ++ causes.zipIdx.flatMap fun (cause, i) => causeLines (numberMark i) 7 cause

end Failure

/-- Why a file could not be read. -/
inductive FileError where
  | notFound
  | isDirectory
  | notDirectory
  | nameTooLong
  /-- There is a null character in the path. -/
  | nullInPath
  | notText
  | other (message : String)
deriving DecidableEq, Repr

/-- What is said of a file that could not be read. -/
def FileError.message : FileError → String
  | .notFound => "No such file or directory (os error 2)"
  | .isDirectory => "Is a directory (os error 21)"
  | .notDirectory => "Not a directory (os error 20)"
  | .nameTooLong => "File name too long (os error 36)"
  | .nullInPath => "file name contained an unexpected NUL byte"
  | .notText => "stream did not contain valid UTF-8"
  | .other message => message

end PerfCounters.CommandLine
