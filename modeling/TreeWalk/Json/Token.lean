/-
# Tokens of JSON texts

A JSON text is a sequence of tokens with blanks between them.  Reading is strict: a number has no
superfluous zeros, a string has no raw control characters and only the escapes of the standard.
-/
namespace TreeWalk.Json

/-- A token.  A string whose escapes name an unpaired surrogate is no text, and a number that is
not written with digits alone is not a natural number; they are tokens all the same. -/
inductive Token where
  | openArray
  | closeArray
  | openObject
  | closeObject
  | comma
  | colon
  | null
  | bool (b : Bool)
  /-- A number written with digits alone. -/
  | natural (n : Nat)
  /-- Any other number. -/
  | number
  /-- A string, with its content if that is a text. -/
  | string (content : Option String)
deriving DecidableEq, Repr

/-- Whether `c` may stand between tokens. -/
def isBlank (c : Char) : Bool := c = ' ' || c = '\t' || c = '\n' || c = '\r'

/-- The value of a hexadecimal digit. -/
def hexDigit? (c : Char) : Option Nat :=
  if c.isDigit then some (c.toNat - '0'.toNat)
  else if 'a' ≤ c ∧ c ≤ 'f' then some (c.toNat - 'a'.toNat + 10)
  else if 'A' ≤ c ∧ c ≤ 'F' then some (c.toNat - 'A'.toNat + 10)
  else none

/-- The character that a backslash and `c` stand for. -/
def shortEscape? (c : Char) : Option Char :=
  if c = '"' ∨ c = '\\' ∨ c = '/' then some c
  else if c = 'b' then some '\x08'
  else if c = 'f' then some '\x0c'
  else if c = 'n' then some '\n'
  else if c = 'r' then some '\r'
  else if c = 't' then some '\t'
  else none

/-- The code units of a string up to its closing quotation mark, and what follows that.  A unit is
the code point of a character, or what `\u` and four digits name. -/
def stringUnits : List Char → Option (List Nat × List Char)
  | [] => none
  | '"' :: rest => some ([], rest)
  | '\\' :: 'u' :: a :: b :: c :: d :: rest => do
    let unit := (((← hexDigit? a) * 16 + (← hexDigit? b)) * 16 + (← hexDigit? c)) * 16 +
      (← hexDigit? d)
    let (units, rest) ← stringUnits rest
    return (unit :: units, rest)
  | '\\' :: e :: rest => do
    let c ← shortEscape? e
    let (units, rest) ← stringUnits rest
    return (c.toNat :: units, rest)
  | c :: rest => do
    if c.toNat < 0x20 ∨ c = '\\' then none
    else
      let (units, rest) ← stringUnits rest
      return (c.toNat :: units, rest)

/-- The characters that code units stand for: two surrogates that fit together stand for one
character, and a surrogate by itself for none. -/
def charsOfUnits : List Nat → Option (List Char)
  | [] => some []
  | [u] => if u.isValidChar then some [Char.ofNat u] else none
  | u :: v :: rest =>
    if u.isValidChar then (charsOfUnits (v :: rest)).map (Char.ofNat u :: ·)
    else if 0xD800 ≤ u ∧ u < 0xDC00 ∧ 0xDC00 ≤ v ∧ v < 0xE000 then
      (charsOfUnits rest).map
        (Char.ofNat (0x10000 + (u - 0xD800) * 0x400 + (v - 0xDC00)) :: ·)
    else none

/-- The digits at the start of a text, and the rest of it. -/
def spanDigits (cs : List Char) : List Char × List Char :=
  (cs.takeWhile Char.isDigit, cs.dropWhile Char.isDigit)

/-- The number that digits stand for. -/
def natOfDigits (ds : List Char) : Nat :=
  ds.foldl (fun n d => n * 10 + (d.toNat - '0'.toNat)) 0

/-- The rest of a text behind a whole number without superfluous zeros, with the number. -/
def wholeNumber? (cs : List Char) : Option (Nat × List Char) :=
  match spanDigits cs with
  | ([], _) => none
  | (['0'], rest) => some (0, rest)
  | ('0' :: _, _) => none
  | (ds, rest) => some (natOfDigits ds, rest)

/-- The rest of a text behind at least one digit. -/
def skipDigits? (cs : List Char) : Option (List Char) :=
  match spanDigits cs with
  | ([], _) => none
  | (_, rest) => some rest

/-- The rest of a text behind a fraction, if there is one. -/
def skipFraction? : List Char → Option (List Char)
  | '.' :: rest => skipDigits? rest
  | cs => some cs

/-- The rest of a text behind an exponent, if there is one. -/
def skipExponent? : List Char → Option (List Char)
  | 'e' :: '+' :: rest | 'e' :: '-' :: rest | 'E' :: '+' :: rest | 'E' :: '-' :: rest =>
    skipDigits? rest
  | 'e' :: rest | 'E' :: rest => skipDigits? rest
  | cs => some cs

/-- Whether a fraction or an exponent starts a text. -/
def startsFraction : List Char → Bool
  | '.' :: _ | 'e' :: _ | 'E' :: _ => true
  | _ => false

/-- The number at the start of a text, and the rest of it. -/
def number? : List Char → Option (Token × List Char)
  | '-' :: cs => do
    let (_, rest) ← wholeNumber? cs
    return (.number, ← skipExponent? (← skipFraction? rest))
  | cs => do
    let (n, rest) ← wholeNumber? cs
    if startsFraction rest then
      return (.number, ← skipExponent? (← skipFraction? rest))
    else
      return (.natural n, rest)

/-- The token at the start of a text that starts with no blank, and the rest of it. -/
def token? : List Char → Option (Token × List Char)
  | '[' :: rest => some (.openArray, rest)
  | ']' :: rest => some (.closeArray, rest)
  | '\x7b' :: rest => some (.openObject, rest)
  | '\x7d' :: rest => some (.closeObject, rest)
  | ',' :: rest => some (.comma, rest)
  | ':' :: rest => some (.colon, rest)
  | 'n' :: 'u' :: 'l' :: 'l' :: rest => some (.null, rest)
  | 't' :: 'r' :: 'u' :: 'e' :: rest => some (.bool true, rest)
  | 'f' :: 'a' :: 'l' :: 's' :: 'e' :: rest => some (.bool false, rest)
  | '"' :: rest => do
    let (units, rest) ← stringUnits rest
    return (.string ((charsOfUnits units).map String.ofList), rest)
  | cs => number? cs

/-- The tokens of a text of at most `n` characters. -/
def tokensWithin : Nat → List Char → Option (List Token)
  | _, [] => some []
  | 0, _ => none
  | n + 1, c :: rest =>
    if isBlank c then tokensWithin n rest
    else do
      let (t, rest) ← token? (c :: rest)
      let ts ← tokensWithin n rest
      return t :: ts

/-- The tokens of a text, if it consists of tokens and blanks. -/
def tokens? (s : String) : Option (List Token) := tokensWithin s.toList.length s.toList

end TreeWalk.Json
