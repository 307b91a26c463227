import PerfCounters.Text.Invisible

/-!
Quoted text in messages: what cannot be shown as itself is escaped, so a quoted character can be
told from any other.
-/

namespace PerfCounters.Text

/-- The escape of a character by its code point. -/
def escapeCode (c : Char) : String :=
  "\\u\x7b" ++ String.ofList (Nat.toDigits 16 c.toNat) ++ "\x7d"

/-- A character between quotes of the kind `quote`. -/
def escapeChar (quote c : Char) : String :=
  if c = '\x00' then "\\0"
  else if c = '\t' then "\\t"
  else if c = '\n' then "\\n"
  else if c = '\r' then "\\r"
  else if c = '\\' then "\\\\"
  else if c = quote then "\\" ++ String.singleton c
  else if isInvisible c then escapeCode c
  else String.singleton c

/-- A character in single quotes. -/
def quoteChar (c : Char) : String := "'" ++ escapeChar '\x27' c ++ "'"

/-- A text in double quotes. -/
def quote (s : String) : String := "\"" ++ String.join (s.toList.map (escapeChar '\x22')) ++ "\""

end PerfCounters.Text
