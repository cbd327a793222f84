/-
# The grammar of JSON texts

What texts a JSON document has, as the standard lays it down: any blanks around the structural
characters, numbers without superfluous zeros, strings with the escapes of the standard.  The
grammar says it by the form of the text alone, character by character, and does not speak of reading
(`Document.IsWrittenAs`).  A document has many texts: blanks, escapes and the spelling of a number
that has a sign, a fraction or an exponent are free.
-/
import Mathlib.Tactic.Lemma
import TreeWalk.Json.Document

namespace TreeWalk.Json

/-! ### Numbers -/

/-- One or more decimal digits. -/
def Digits (cs : List Char) : Prop := cs ≠ [] ∧ ∀ c ∈ cs, c.isDigit

/-- The fraction of a number. -/
inductive Fraction : List Char → Prop
  | intro {ds : List Char} (hds : Digits ds) : Fraction ('.' :: ds)

/-- The exponent of a number. -/
inductive Exponent : List Char → Prop
  | plain {e : Char} {ds : List Char} (he : e = 'e' ∨ e = 'E') (hds : Digits ds) :
      Exponent (e :: ds)
  | signed {e sign : Char} {ds : List Char} (he : e = 'e' ∨ e = 'E')
      (hsign : sign = '+' ∨ sign = '-') (hds : Digits ds) : Exponent (e :: sign :: ds)

/-- A number that has a sign, a fraction or an exponent. -/
inductive OtherNumber : List Char → Prop
  | intro (whole : Nat) {sign fraction exponent : List Char} (hsign : sign = [] ∨ sign = ['-'])
      (hfraction : fraction = [] ∨ Fraction fraction)
      (hexponent : exponent = [] ∨ Exponent exponent)
      (hother : sign ≠ [] ∨ fraction ≠ [] ∨ exponent ≠ []) :
      OtherNumber (sign ++ (Nat.toDigits 10 whole ++ (fraction ++ exponent)))

/-! ### Strings -/

/-- The characters that can be written as a backslash and another character, after that one. -/
def shortEscapes : List (Char × Char) :=
  [('"', '"'), ('\\', '\\'), ('/', '/'), ('b', '\x08'), ('f', '\x0c'), ('n', '\n'), ('r', '\r'),
    ('t', '\t')]

/-- A hexadecimal digit with its value. -/
def HexDigit (c : Char) (value : Nat) : Prop :=
  "0123456789abcdef".toList[value]? = some c ∨ "0123456789ABCDEF".toList[value]? = some c

/-- The code units that the characters between two quotation marks name, one after the other. -/
inductive Units : List Nat → List Char → Prop
  | nil : Units [] []
  | plain {c : Char} {us : List Nat} {cs : List Char} (hcontrol : 0x20 ≤ c.toNat) (hquote : c ≠ '"')
      (hslash : c ≠ '\\') (h : Units us cs) : Units (c.toNat :: us) (c :: cs)
  | short {e c : Char} {us : List Nat} {cs : List Char} (he : (e, c) ∈ shortEscapes)
      (h : Units us cs) : Units (c.toNat :: us) ('\\' :: e :: cs)
  | code {a b c d : Char} {i j k l : Nat} {us : List Nat} {cs : List Char} (ha : HexDigit a i)
      (hb : HexDigit b j) (hc : HexDigit c k) (hd : HexDigit d l) (h : Units us cs) :
      Units ((((i * 16 + j) * 16 + k) * 16 + l) :: us) ('\\' :: 'u' :: a :: b :: c :: d :: cs)

/-- The code units of a text: a character is named by its code point, or by two surrogates if it is
beyond the first plane. -/
inductive Encodes : List Char → List Nat → Prop
  | nil : Encodes [] []
  | single {c : Char} {cs : List Char} {us : List Nat} (h : Encodes cs us) :
      Encodes (c :: cs) (c.toNat :: us)
  | pair {c : Char} {cs : List Char} {us : List Nat} (hc : 0x10000 ≤ c.toNat)
      (h : Encodes cs us) :
      Encodes (c :: cs) ((0xD800 + (c.toNat - 0x10000) / 0x400) ::
        (0xDC00 + (c.toNat - 0x10000) % 0x400) :: us)

/-- The characters between two quotation marks, with the text that they stand for if the units they
name are those of a text. -/
inductive Spelled : Option String → List Char → Prop
  | text {s : String} {us : List Nat} {cs : List Char} (hus : Units us cs)
      (hs : Encodes s.toList us) : Spelled (some s) cs
  | noText {us : List Nat} {cs : List Char} (hus : Units us cs) (hs : ∀ s, ¬ Encodes s us) :
      Spelled none cs

/-- A text without control characters, quotation marks and backslashes is spelled as it is. -/
lemma Spelled.plain {s : String} (h : ∀ c ∈ s.toList, 0x20 ≤ c.toNat ∧ c ≠ '"' ∧ c ≠ '\\') :
    Spelled (some s) s.toList := by
  have hsingles (cs : List Char) : Encodes cs (cs.map Char.toNat) := by
    induction cs with
    | nil => exact .nil
    | cons c cs ih => exact .single ih
  refine .text ?_ (hsingles s.toList)
  generalize s.toList = cs at h ⊢
  induction cs with
  | nil => exact .nil
  | cons c cs ih =>
    obtain ⟨hcontrol, hquote, hslash⟩ := h c (List.mem_cons_self ..)
    exact .plain hcontrol hquote hslash (ih fun d hd => h d (List.mem_cons_of_mem c hd))

/-! ### Documents -/

/-- Nothing but blanks. -/
def Blanks (cs : List Char) : Prop := ∀ c ∈ cs, c = ' ' ∨ c = '\t' ∨ c = '\n' ∨ c = '\r'

lemma Blanks.nil : Blanks [] := nofun

mutual

/-- A document with a text of it that has no blanks around it. -/
inductive Written : Document → List Char → Prop
  | null : Written .null "null".toList
  | true : Written (.bool true) "true".toList
  | false : Written (.bool false) "false".toList
  | natural (n : Nat) : Written (.natural n) (Nat.toDigits 10 n)
  | number {cs : List Char} (h : OtherNumber cs) : Written .number cs
  | string {content : Option String} {cs : List Char} (h : Spelled content cs) :
      Written (.string content) ('"' :: (cs ++ ['"']))
  | array {items : List Document} {cs : List Char} (h : WrittenItems items cs) :
      Written (.array items) ('[' :: (cs ++ [']']))
  | object {fields : List (Option String × Document)} {cs : List Char}
      (h : WrittenFields fields cs) : Written (.object fields) ('\x7b' :: (cs ++ ['\x7d']))

/-- The items of an array with what stands between its brackets. -/
inductive WrittenItems : List Document → List Char → Prop
  | none {blanks : List Char} (h : Blanks blanks) : WrittenItems [] blanks
  | last {d : Document} {before cs behind : List Char} (hbefore : Blanks before)
      (h : Written d cs) (hbehind : Blanks behind) :
      WrittenItems [d] (before ++ (cs ++ behind))
  | cons {d d' : Document} {items : List Document} {before cs behind rest : List Char}
      (hbefore : Blanks before) (h : Written d cs) (hbehind : Blanks behind)
      (hrest : WrittenItems (d' :: items) rest) :
      WrittenItems (d :: d' :: items) (before ++ (cs ++ (behind ++ ',' :: rest)))

/-- The fields of an object with what stands between its braces. -/
inductive WrittenFields : List (Option String × Document) → List Char → Prop
  | none {blanks : List Char} (h : Blanks blanks) : WrittenFields [] blanks
  | last {f : Option String × Document} {cs : List Char} (h : WrittenField f cs) :
      WrittenFields [f] cs
  | cons {f f' : Option String × Document} {fields : List (Option String × Document)}
      {cs rest : List Char} (h : WrittenField f cs) (hrest : WrittenFields (f' :: fields) rest) :
      WrittenFields (f :: f' :: fields) (cs ++ ',' :: rest)

/-- A field of an object: its key in quotation marks, a colon and its value. -/
inductive WrittenField : Option String × Document → List Char → Prop
  | intro {key : Option String} {d : Document} {ws₁ ws₂ ws₃ ws₄ ks cs : List Char}
      (h₁ : Blanks ws₁) (hkey : Spelled key ks) (h₂ : Blanks ws₂) (h₃ : Blanks ws₃)
      (h : Written d cs) (h₄ : Blanks ws₄) :
      WrittenField (key, d) (ws₁ ++ '"' :: (ks ++ '"' :: (ws₂ ++ ':' :: (ws₃ ++ (cs ++ ws₄)))))

end

/-- The text `s` is one of the document, with any blanks around it. -/
def Document.IsWrittenAs (d : Document) (s : String) : Prop :=
  ∃ before cs behind, Blanks before ∧ Written d cs ∧ Blanks behind ∧
    s.toList = before ++ (cs ++ behind)

end TreeWalk.Json
