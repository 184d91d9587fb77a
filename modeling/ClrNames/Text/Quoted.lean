import ClrNames.Text.DefaultIgnorable
import ClrNames.Text.GraphemeExtend
import ClrNames.Text.Nonprinting

/-!
# Characters quoted in messages

A message that lists characters shows each in single quotes. Tab, line feed,
carriage return, NUL, the quote and the backslash have short escapes. Other
characters that would not be seen on their own, because they have no visible
form, are ignorable or attach to the one before, are written by code point, and
the rest stand as they are.
-/

set_option autoImplicit false

namespace ClrNames.Text

def isVisible (c : Char) : Bool :=
  (0x20 ≤ c.toNat && c.toNat ≤ 0x7e) ||
    !(nonprinting.holds c || defaultIgnorable.holds c || graphemeExtend.holds c)

def codePointEscape (c : Char) : String :=
  "\\u\x7b" ++ String.ofList (Nat.toDigits 16 c.toNat) ++ "\x7d"

def escapeChar (c : Char) : String :=
  if c = '\t' then "\\t"
  else if c = '\r' then "\\r"
  else if c = '\n' then "\\n"
  else if c = '\x00' then "\\0"
  else if c = '\'' then "\\'"
  else if c = '\\' then "\\\\"
  else if isVisible c then c.toString
  else codePointEscape c

def quoteChar (c : Char) : String := "'" ++ escapeChar c ++ "'"

def quoteChars (cs : List Char) : String :=
  "[" ++ ", ".intercalate (cs.map quoteChar) ++ "]"

end ClrNames.Text
