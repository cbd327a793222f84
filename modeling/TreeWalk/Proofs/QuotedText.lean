/-
# Quoted text can be told from what follows it

Each character between quotation marks is written in a form that can be read back, whatever comes
behind it (`unescape?_escape`), and no form starts with a quotation mark.  So the text between the
marks is determined by what is written, and so is the place where it ends (`quote_append_inj`).
-/
import Mathlib.Tactic.IntervalCases
import Mathlib.Tactic.Lemma
import TreeWalk.Text.Quoted

namespace TreeWalk.Text

/-- The number that a hexadecimal digit in lower case stands for. -/
def hexDigitValue (d : Char) : Nat :=
  if d.isDigit then d.toNat - '0'.toNat else d.toNat - 'a'.toNat + 10

/-- The number that hexadecimal digits stand for. -/
def hexValue (ds : List Char) : Nat := ds.foldl (fun n d => n * 16 + hexDigitValue d) 0

/-- The character that is written as a backslash and `e`. -/
def shortForm? (e : Char) : Option Char :=
  if e = '"' ∨ e = '\\' then some e
  else if e = 'n' then some '\n'
  else if e = 'r' then some '\r'
  else if e = 't' then some '\t'
  else if e = '0' then some '\x00'
  else none

/-- Read back the first character that is written between quotation marks, with what follows it. -/
def unescape? : List Char → Option (Char × List Char)
  | '\\' :: 'u' :: '\x7b' :: cs =>
    some (Char.ofNat (hexValue (cs.takeWhile (· ≠ '\x7d'))), (cs.dropWhile (· ≠ '\x7d')).tail)
  | '\\' :: e :: cs => (shortForm? e).map fun c => (c, cs)
  | '"' :: _ => none
  | c :: cs => some (c, cs)
  | [] => none

variable {c : Char} {cs cs' rest rest' : List Char}

/-! ### Digits -/

lemma hexDigitValue_digitChar {n : Nat} (hn : n < 16) : hexDigitValue n.digitChar = n := by
  interval_cases n <;> rfl

lemma hexValue_concat (ds : List Char) (d : Char) :
    hexValue (ds ++ [d]) = hexValue ds * 16 + hexDigitValue d := by
  rw [hexValue, List.foldl_append, List.foldl_cons, List.foldl_nil, ← hexValue]

lemma hexValue_toDigits (n : Nat) : hexValue (Nat.toDigits 16 n) = n := by
  induction n using Nat.strong_induction_on with
  | _ n ih =>
    rw [Nat.toDigits_eq_if (by decide)]
    split
    · next hlt =>
      rw [← List.nil_append [_], hexValue_concat, hexDigitValue_digitChar hlt]
      exact Nat.zero_add n
    · next hge =>
      rw [hexValue_concat, ih (n / 16) (by omega),
        hexDigitValue_digitChar (Nat.mod_lt n (by decide))]
      omega

/-- The digits of a number do not close the form that they stand in. -/
lemma ne_brace_of_mem_toDigits {n : Nat} (hc : c ∈ Nat.toDigits 16 n) : c ≠ '\x7d' := by
  induction n using Nat.strong_induction_on with
  | _ n ih =>
    rw [Nat.toDigits_eq_if (by decide)] at hc
    split at hc
    · rw [List.mem_singleton.mp hc]
      exact Nat.digitChar_ne _ (by decide)
    · next hge =>
      rcases List.mem_append.mp hc with hc | hc
      · exact ih (n / 16) (by omega) hc
      · rw [List.mem_singleton.mp hc]
        exact Nat.digitChar_ne _ (by decide)

/-! ### Characters -/

lemma unescape?_hex (c : Char) (rest : List Char) :
    unescape? ('\\' :: 'u' :: '\x7b' :: (Nat.toDigits 16 c.toNat ++ '\x7d' :: rest)) =
      some (c, rest) := by
  have hdigits : ∀ d ∈ Nat.toDigits 16 c.toNat, decide (d ≠ '\x7d') = true := fun d hd =>
    decide_eq_true (ne_brace_of_mem_toDigits hd)
  rw [unescape?, List.takeWhile_append_of_pos hdigits, List.dropWhile_append_of_pos hdigits]
  simp [hexValue_toDigits]

/-- Every character is read back from its written form. -/
lemma unescape?_escape (c : Char) (rest : List Char) :
    unescape? ((escape c).toList ++ rest) = some (c, rest) := by
  unfold escape
  split_ifs with hquote hslash hn hr ht hzero hhidden
  · subst hquote; rfl
  · subst hslash; rfl
  · subst hn; rfl
  · subst hr; rfl
  · subst ht; rfl
  · subst hzero; rfl
  · simpa [hex] using unescape?_hex c rest
  · rw [String.toList_singleton, List.singleton_append]
    unfold unescape?
    split <;> simp_all

/-! ### Texts -/

lemma toList_quote (s : String) : (quote s).toList =
    '"' :: (s.toList.flatMap (fun c => (escape c).toList) ++ ['"']) := by
  simp [quote, String.toList_join, List.flatMap_map]

/-- What is written before a quotation mark determines the characters. -/
lemma flatMap_escape_append_inj
    (h : cs.flatMap (fun c => (escape c).toList) ++ '"' :: rest =
      cs'.flatMap (fun c => (escape c).toList) ++ '"' :: rest') : cs = cs' ∧ rest = rest' := by
  -- the first form is read back on both sides, and at the quotation mark nothing is
  induction cs generalizing cs' with
  | nil =>
    cases cs' with
    | nil => exact ⟨rfl, List.tail_eq_of_cons_eq h⟩
    | cons c' cs' =>
      have hread := congrArg unescape? h
      rw [List.flatMap_cons, List.append_assoc, unescape?_escape] at hread
      cases hread
  | cons c cs ih =>
    have hread := congrArg unescape? h
    rw [List.flatMap_cons, List.append_assoc, unescape?_escape] at hread
    cases cs' with
    | nil => cases hread
    | cons c' cs' =>
      rw [List.flatMap_cons, List.append_assoc, unescape?_escape] at hread
      obtain ⟨rfl, hbehind⟩ := Prod.mk.inj (Option.some.inj hread)
      obtain ⟨rfl, rfl⟩ := ih hbehind
      exact ⟨rfl, rfl⟩

/-- A text between quotation marks is determined by what is written, and so is what follows it. -/
theorem quote_append_inj {s s' : String}
    (h : (quote s).toList ++ rest = (quote s').toList ++ rest') : s = s' ∧ rest = rest' := by
  simp only [toList_quote, List.cons_append, List.append_assoc, List.nil_append, List.cons.injEq,
    true_and] at h
  obtain ⟨hs, hrest⟩ := flatMap_escape_append_inj h
  exact ⟨String.toList_inj.mp hs, hrest⟩

end TreeWalk.Text
