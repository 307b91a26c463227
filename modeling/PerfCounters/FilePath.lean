/-!
Paths of files, as texts with slashes. Joining keeps what is written; the parent of a path leaves out
its last part, along with empty parts and single dots before it.
-/

namespace PerfCounters.FilePath

/-- The path starts at the root. -/
def isAbsolute (path : String) : Bool := path.toList.head? == some '/'

/-- The path starts where another one leads to. -/
def isRelative (path : String) : Bool := !isAbsolute path

/-- `path` seen from `directory`. -/
def join (directory path : String) : String :=
  if isAbsolute path || directory.isEmpty then path
  else if directory.toList.getLast? == some '/' then directory ++ path
  else directory ++ "/" ++ path

/-- What a path starts with that is no part of it: the root, or a dot for the place itself. -/
def anchor : List Char → List Char
  | '/' :: _ => ['/']
  | ['.'] => ['.']
  | '.' :: '/' :: _ => ['.']
  | _ => []

/-- The path from its end without its last part, and that part; the parts are parted by slashes. -/
def splitLast (reversed : List Char) : List Char × List Char :=
  (((reversed.dropWhile fun c => c != '/').drop 1), reversed.takeWhile fun c => c != '/')

/-- The path from its end without empty parts and single dots there; `fuel` bounds their number. -/
def dropEmpty : Nat → List Char → List Char
  | 0, reversed => reversed
  | fuel + 1, reversed =>
    if reversed.isEmpty then []
    else match splitLast reversed with
      | (rest, []) => dropEmpty fuel rest
      | (rest, ['.']) => dropEmpty fuel rest
      | _ => reversed

/-- The directory a path lies in; the root and the empty path have none. -/
def parent? (path : String) : Option String :=
  let cs := path.toList
  let start := anchor cs
  let body := dropEmpty cs.length (cs.drop start.length).reverse
  if body.isEmpty then (if start == ['.'] then some "" else none)
  else
    let rest := dropEmpty cs.length (splitLast body).1
    some (String.ofList (start ++ rest.reverse))

end PerfCounters.FilePath
