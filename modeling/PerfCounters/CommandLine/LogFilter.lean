import PerfCounters.Decimal.Text
import PerfCounters.Pattern

/-!
Log filters: directives parted by commas. A directive is a level, a target or a span in square brackets with
its fields, if any, in braces; after a target or a span comes an equals sign and a level, if any.

Blanks around a directive are passed over, but its parts are taken from its text with the blanks, by their
distance in octets from the beginning. So blanks before a directive shift its parts, and a part may begin or
end inside of a character.
-/

namespace PerfCounters.CommandLine.LogFilter

/-- Why a filter is no good. -/
inductive Fault where
  | malformed
  /-- A part begins or ends inside of a character. -/
  | torn
deriving DecidableEq, Repr

/-! ### Parts of a text -/

/-- The characters after so many octets. -/
def dropOctets : Nat → List Char → Except Fault (List Char)
  | 0, cs => .ok cs
  | _ + 1, [] => .error .torn
  | n + 1, c :: cs => if c.utf8Size ≤ n + 1 then dropOctets (n + 1 - c.utf8Size) cs else .error .torn

/-- The characters of the first so many octets. -/
def takeOctets : Nat → List Char → Except Fault (List Char)
  | 0, _ => .ok []
  | _ + 1, [] => .error .torn
  | n + 1, c :: cs =>
    if c.utf8Size ≤ n + 1 then (takeOctets (n + 1 - c.utf8Size) cs).map fun taken => c :: taken
    else .error .torn

/-- The characters from one offset up to another one. -/
def part (text : List Char) (first last : Nat) : Except Fault (List Char) :=
  (dropOctets first text).bind fun rest => takeOctets (last - first) rest

/-! ### Levels and fields -/

/-- The names of levels. -/
def levelNames : List String := ["off", "error", "warn", "info", "debug", "trace"]

/-- The text is a level: a name in letters of either case, or a number up to 5. -/
def isLevel (cs : List Char) : Bool :=
  let number := if cs.head? == some '+' then cs.tail else cs
  levelNames.contains ((String.ofList cs).map Char.toLower)
    || (Decimal.readNat? number).any fun n => n ≤ 5

/-- The text is a number: a decimal one, an infinity, or a word for no number. -/
def isNumber (cs : List Char) : Bool :=
  let signed := cs.head? == some '+' || cs.head? == some '-'
  let word := (String.ofList (if signed then cs.tail else cs)).map Char.toLower
  ["inf", "infinity", "nan"].contains word || (Decimal.read? cs).isSome

/-- The text is a field: a name, and after an equals sign a number or a pattern, if any. What follows a second
equals sign counts for nothing. -/
def isField (cs : List Char) : Bool :=
  match cs.dropWhile fun c => c != '=' with
  | [] => !cs.isEmpty
  | _ :: rest =>
    let value := rest.takeWhile fun c => c != '='
    isNumber value || Pattern.isPattern value

/-! ### Directives -/

/-- How far a directive has been read; a part that is needed later has the offset at which it begins. -/
inductive Progress where
  | start
  /-- In a level or a target. -/
  | word
  | span (first : Nat)
  | field (first : Nat)
  | afterFields
  | afterSpan
  | level (first : Nat)
deriving DecidableEq, Repr

/-- A character that may begin a target. -/
def startsTarget (c : Char) : Bool := ['-', ':', '_'].contains c || Text.isLetterOrNumber c

/-- Reads the character at an offset. -/
def Progress.step (text : List Char) (offset : Nat) (c : Char) : Progress → Except Fault Progress
  | .start =>
    if c == '[' then .ok (.span (offset + 1))
    else if startsTarget c then .ok .word else .error .malformed
  | .word =>
    if c == '=' then (part text 0 offset).map fun _ => .level (offset + 1)
    else if c == '[' then (part text 0 offset).map fun _ => .span (offset + 1)
    else .ok .word
  | .span first =>
    if c == ']' then (part text first offset).map fun _ => .afterSpan
    else if c == '\x7b' then (part text first offset).map fun _ => .field (offset + 1)
    else .ok (.span first)
  | .field first =>
    if c == '\x7d' then
      (part text first offset).bind fun f => if isField f then .ok .afterFields else .error .malformed
    else .ok (.field first)
  | .afterFields => if c == ']' then .ok .afterSpan else .error .malformed
  | .afterSpan => if c == '=' then .ok (.level (offset + 1)) else .error .malformed
  | .level first => .ok (.level first)

/-- Reads characters from an offset on. -/
def Progress.run (text : List Char) : Nat → Progress → List Char → Except Fault Progress
  | _, p, [] => .ok p
  | offset, p, c :: cs =>
    (p.step text offset c).bind fun p => Progress.run text (offset + c.utf8Size) p cs

/-- A directive may end here. -/
def Progress.finish (text : List Char) : Progress → Except Fault Unit
  | .word => .ok ()
  | .afterSpan => .ok ()
  | .level first =>
    (dropOctets first text).bind fun l => if l.isEmpty || isLevel l then .ok () else .error .malformed
  | _ => .error .malformed

/-- Checks a directive. -/
def checkDirective (text : String) : Except Fault Unit :=
  let cs := text.toList
  (Progress.run cs 0 .start (Text.trimChars cs)).bind fun p => p.finish cs

/-- Checks a filter. -/
def check (text : String) : Except Fault Unit :=
  ((Text.split ',' text).filter fun directive => !directive.isEmpty).forM checkDirective

end PerfCounters.CommandLine.LogFilter
