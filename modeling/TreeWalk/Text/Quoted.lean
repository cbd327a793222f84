/-
# Quoted text

A text inside a container is shown between quotation marks.  Quotation marks, backslashes and the
four control characters with a short name are written with a backslash; any other character that
would not be seen as itself is written by its code point in hexadecimal.
-/
import TreeWalk.Text.Unprintable
import TreeWalk.Text.GraphemeExtend

namespace TreeWalk.Text

/-- The fillers of the Hangul script: the two conjoining ones, the one of full and the one of half
width.  They are the letters that Unicode lets a display ignore, so they have no shape. -/
def isHangulFiller (c : Char) : Bool :=
  c.toNat = 0x115F || c.toNat = 0x1160 || c.toNat = 0x3164 || c.toNat = 0xFFA0

/-- The two halfwidth voicing marks of katakana: they extend the character before them, but they are
letters, each drawn in a cell of its own. -/
def isVoicingMark (c : Char) : Bool := c.toNat = 0xFF9E || c.toNat = 0xFF9F

/-- Whether `c` is written by its code point inside quotation marks: it has no shape, or no place
apart from the character before it.  The characters from the space to the tilde never are. -/
def isHidden (c : Char) : Bool :=
  !(0x20 ≤ c.toNat && c.toNat ≤ 0x7E) &&
    (isUnprintable c || isHangulFiller c || (isGraphemeExtend c && !isVoicingMark c))

/-- The hexadecimal digits of `n`, in lower case and without leading zeros. -/
def hex (n : Nat) : String := String.ofList (Nat.toDigits 16 n)

/-- The written form of one character inside quotation marks. -/
def escape (c : Char) : String :=
  if c = '"' then "\\\""
  else if c = '\\' then "\\\\"
  else if c = '\n' then "\\n"
  else if c = '\r' then "\\r"
  else if c = '\t' then "\\t"
  else if c = '\x00' then "\\0"
  else if isHidden c then "\\u\x7b" ++ hex c.toNat ++ "\x7d"
  else String.singleton c

/-- `s` between quotation marks, each of its characters in its written form. -/
def quote (s : String) : String :=
  "\"" ++ String.join (s.toList.map escape) ++ "\""

end TreeWalk.Text
