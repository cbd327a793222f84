/-
# Reading the tokens of the grammar

The reader of tokens takes from the front of a text the numbers and the strings of the grammar, each
with what it stands for (`token?_natural`, `token?_number`, `token?_string`).  A number is taken as
far as it goes, so that the text behind it must not go on with a character that could belong to it
(`EndsNumber`).
-/
import Mathlib.Tactic.IntervalCases
import TreeWalk.Proofs.JsonGrammar

namespace TreeWalk.Json

/-! ### Digits -/

/-- The text does not go on with a digit. -/
def EndsDigits (rest : List Char) : Prop := ∀ c cs, rest = c :: cs → c.isDigit = false

/-- The text does not go on with a character that could belong to a number. -/
def EndsNumber (rest : List Char) : Prop :=
  ∀ c cs, rest = c :: cs → c.isDigit = false ∧ c ≠ '.' ∧ c ≠ 'e' ∧ c ≠ 'E'

lemma EndsNumber.nil : EndsNumber [] := nofun

lemma EndsNumber.cons {c : Char} (hc : c.isDigit = false ∧ c ≠ '.' ∧ c ≠ 'e' ∧ c ≠ 'E')
    (cs : List Char) : EndsNumber (c :: cs) := by
  intro d ds h
  cases h
  exact hc

lemma EndsNumber.endsDigits {rest : List Char} (h : EndsNumber rest) : EndsDigits rest :=
  fun c cs hc => (h c cs hc).1

lemma spanDigits_append {ds rest : List Char} (hds : ∀ c ∈ ds, c.isDigit)
    (hrest : EndsDigits rest) : spanDigits (ds ++ rest) = (ds, rest) := by
  have hnone : rest.takeWhile Char.isDigit = [] ∧ rest.dropWhile Char.isDigit = rest := by
    cases rest with
    | nil => exact ⟨rfl, rfl⟩
    | cons c cs => simp [hrest c cs rfl]
  rw [spanDigits, List.takeWhile_append_of_pos hds, List.dropWhile_append_of_pos hds, hnone.1,
    hnone.2, List.append_nil]

lemma natOfDigits_toDigits (n : Nat) : natOfDigits (Nat.toDigits 10 n) = n := by
  have hmul : natOfDigits (Nat.toDigits 10 n) = Nat.ofDigitChars 10 (Nat.toDigits 10 n) 0 := by
    rw [natOfDigits, Nat.ofDigitChars_eq_foldl]
    simp only [Nat.mul_comm]
  rw [hmul, Nat.ofDigitChars_ten_toDigits]

lemma isDigit_of_mem_toDigits {n : Nat} {c : Char} (hc : c ∈ Nat.toDigits 10 n) : c.isDigit :=
  Nat.isDigit_of_mem_toDigits (by decide) (by decide) hc

/-- The digits of a number other than zero start with another digit than zero. -/
lemma exists_toDigits_eq_cons {n : Nat} (hn : 0 < n) :
    ∃ d ds, Nat.toDigits 10 n = d :: ds ∧ d ≠ '0' := by
  induction n using Nat.strong_induction_on with
  | _ n ih =>
    rw [Nat.toDigits_eq_if (by decide)]
    split
    · next hlt =>
      refine ⟨n.digitChar, [], rfl, ?_⟩
      interval_cases n <;> decide
    · next hge =>
      obtain ⟨d, ds, hds, hd⟩ := ih (n / 10) (by omega) (by omega)
      exact ⟨d, ds ++ [(n % 10).digitChar], by rw [hds, List.cons_append], hd⟩

lemma wholeNumber?_append (n : Nat) {rest : List Char} (hrest : EndsDigits rest) :
    wholeNumber? (Nat.toDigits 10 n ++ rest) = some (n, rest) := by
  rw [wholeNumber?, spanDigits_append (fun _ => isDigit_of_mem_toDigits) hrest]
  rcases Nat.eq_zero_or_pos n with rfl | hn
  · rfl
  · obtain ⟨d, ds, hds, hd⟩ := exists_toDigits_eq_cons hn
    have hvalue := natOfDigits_toDigits n
    rw [hds] at hvalue ⊢
    split <;> simp_all

lemma skipDigits?_append {ds rest : List Char} (hds : Digits ds) (hrest : EndsDigits rest) :
    skipDigits? (ds ++ rest) = some rest := by
  rw [skipDigits?, spanDigits_append hds.2 hrest]
  split
  · next heq => exact absurd (congrArg Prod.fst heq) hds.1
  · next heq => rw [Prod.mk.injEq] at heq; rw [heq.2]

/-! ### Numbers -/

lemma Digits.exists_cons {ds : List Char} (h : Digits ds) :
    ∃ d ds', ds = d :: ds' ∧ d.isDigit := by
  obtain ⟨hne, hds⟩ := h
  cases ds with
  | nil => exact absurd rfl hne
  | cons d ds => exact ⟨d, ds, rfl, hds d (List.mem_cons_self ..)⟩

lemma skipFraction?_append {fraction rest : List Char}
    (h : fraction = [] ∨ Fraction fraction)
    (hrest : ∀ c cs, rest = c :: cs → c.isDigit = false ∧ c ≠ '.') :
    skipFraction? (fraction ++ rest) = some rest := by
  rcases h with rfl | h
  · unfold skipFraction?
    split
    · next heq => exact absurd rfl (hrest _ _ heq).2
    · rfl
  · cases h with
    | intro hds => exact skipDigits?_append hds fun c cs hc => (hrest c cs hc).1

lemma skipExponent?_append {exponent rest : List Char}
    (h : exponent = [] ∨ Exponent exponent) (hrest : EndsNumber rest) :
    skipExponent? (exponent ++ rest) = some rest := by
  rcases h with rfl | ⟨he, hds⟩ | ⟨he, hsign, hds⟩
  · cases rest with
    | nil => rfl
    | cons c cs =>
      obtain ⟨-, -, hlower, hupper⟩ := hrest c cs rfl
      simp [skipExponent?, hlower, hupper]
  · have hskip := skipDigits?_append hds hrest.endsDigits
    obtain ⟨d, ds, rfl, hd⟩ := hds.exists_cons
    have hplus : d ≠ '+' := by rintro rfl; exact absurd hd (by decide)
    have hminus : d ≠ '-' := by rintro rfl; exact absurd hd (by decide)
    rcases he with rfl | rfl <;> simpa [skipExponent?, hplus, hminus] using hskip
  · have hskip := skipDigits?_append hds hrest.endsDigits
    rcases he with rfl | rfl <;> rcases hsign with rfl | rfl <;> exact hskip

/-- A fraction or an exponent does not start with a digit, and neither does what may follow a
number. -/
lemma endsDigits_append {fraction exponent rest : List Char}
    (hfraction : fraction = [] ∨ Fraction fraction) (hexponent : exponent = [] ∨ Exponent exponent)
    (hrest : EndsNumber rest) : EndsDigits (fraction ++ (exponent ++ rest)) ∧
      ∀ c cs, exponent ++ rest = c :: cs → c.isDigit = false ∧ c ≠ '.' := by
  have hexp : ∀ c cs, exponent ++ rest = c :: cs → c.isDigit = false ∧ c ≠ '.' := by
    intro c cs h
    rcases hexponent with rfl | ⟨he, -⟩ | ⟨he, -, -⟩
    · exact ⟨(hrest c cs h).1, (hrest c cs h).2.1⟩
    · cases h
      rcases he with rfl | rfl <;> decide
    · cases h
      rcases he with rfl | rfl <;> decide
  refine ⟨fun c cs h => ?_, hexp⟩
  rcases hfraction with rfl | hfraction
  · exact (hexp c cs h).1
  · cases hfraction with
    | intro hds =>
      cases h
      decide

/-- A fraction or an exponent, if there is one, is seen by its first character. -/
lemma startsFraction_append {fraction exponent : List Char}
    (hfraction : fraction = [] ∨ Fraction fraction) (hexponent : exponent = [] ∨ Exponent exponent)
    (h : fraction ≠ [] ∨ exponent ≠ []) (rest : List Char) :
    startsFraction (fraction ++ (exponent ++ rest)) = true := by
  rcases hfraction with rfl | hfraction
  · rcases hexponent with rfl | ⟨he, -⟩ | ⟨he, -, -⟩
    · simp at h
    · rcases he with rfl | rfl <;> rfl
    · rcases he with rfl | rfl <;> rfl
  · cases hfraction with
    | intro hds => rfl

lemma startsFraction_eq_false {rest : List Char} (hrest : EndsNumber rest) :
    startsFraction rest = false := by
  cases rest with
  | nil => rfl
  | cons c cs =>
    obtain ⟨-, hdot, hlower, hupper⟩ := hrest c cs rfl
    simp [startsFraction, hdot, hlower, hupper]

/-- A digit is none of the characters that stand for other tokens. -/
lemma token?_of_isDigit {c : Char} (hc : c.isDigit) (cs : List Char) :
    token? (c :: cs) = number? (c :: cs) := by
  unfold token?
  split <;> first | rfl | (next heq => cases heq; exact absurd hc (by decide))

/-- A number with no sign is read from its first digit on. -/
lemma token?_toDigits (n : Nat) (rest : List Char) :
    token? (Nat.toDigits 10 n ++ rest) = (do
      let (n, rest) ← wholeNumber? (Nat.toDigits 10 n ++ rest)
      if startsFraction rest then
        return (.number, ← skipExponent? (← skipFraction? rest))
      else
        return (.natural n, rest)) := by
  obtain ⟨d, ds, hds, hd⟩ : ∃ d ds, Nat.toDigits 10 n = d :: ds ∧ d.isDigit := by
    have hne : Nat.toDigits 10 n ≠ [] := Nat.toDigits_ne_nil
    obtain ⟨d, ds, hds⟩ := List.exists_cons_of_ne_nil hne
    exact ⟨d, ds, hds, isDigit_of_mem_toDigits (hds ▸ List.mem_cons_self ..)⟩
  have hminus : d ≠ '-' := by rintro rfl; exact absurd hd (by decide)
  rw [hds, List.cons_append, token?_of_isDigit hd]
  unfold number?
  split
  · next heq => cases heq; exact absurd rfl hminus
  · rfl

theorem token?_natural (n : Nat) {rest : List Char} (hrest : EndsNumber rest) :
    token? (Nat.toDigits 10 n ++ rest) = some (.natural n, rest) := by
  rw [token?_toDigits, wholeNumber?_append n hrest.endsDigits]
  simp [startsFraction_eq_false hrest]

theorem token?_number {cs rest : List Char} (h : OtherNumber cs) (hrest : EndsNumber rest) :
    token? (cs ++ rest) = some (.number, rest) := by
  obtain @⟨whole, sign, fraction, exponent, hsign, hfraction, hexponent, hother⟩ := h
  obtain ⟨hdigits, hexp⟩ := endsDigits_append hfraction hexponent hrest
  have hwhole := wholeNumber?_append whole hdigits
  have hskip := skipFraction?_append hfraction hexp
  have hskip' := skipExponent?_append hexponent hrest
  simp only [List.append_assoc]
  rcases hsign with rfl | rfl
  · have hstarts := startsFraction_append hfraction hexponent
      (hother.resolve_left fun h => h rfl) rest
    rw [List.nil_append, token?_toDigits, hwhole]
    simp [hstarts, hskip, hskip']
  · show (do
      let (_, rest) ← wholeNumber? (Nat.toDigits 10 whole ++ (fraction ++ (exponent ++ rest)))
      return (Token.number, ← skipExponent? (← skipFraction? rest))) = _
    rw [hwhole]
    simp [hskip, hskip']

/-! ### Strings -/

lemma hexDigit?_of_hexDigit {c : Char} {value : Nat} (h : HexDigit c value) :
    hexDigit? c = some value := by
  have hlt : value < 16 := by
    rcases h with h | h <;> exact (List.getElem?_eq_some_iff.mp h).1
  rcases h with h | h <;> interval_cases value <;> cases h <;> decide

/-- The characters between two quotation marks are read up to the second one. -/
lemma stringUnits_append {us : List Nat} {cs : List Char} (h : Units us cs) (rest : List Char) :
    stringUnits (cs ++ '"' :: rest) = some (us, rest) := by
  induction h with
  | nil => rfl
  | @plain c us cs hcontrol hquote hslash h ih =>
    rw [List.cons_append]
    unfold stringUnits
    split <;> simp_all
  | @short e c us cs he h ih =>
    simp only [shortEscapes, List.mem_cons, Prod.mk.injEq, List.not_mem_nil, or_false] at he
    rcases he with ⟨rfl, rfl⟩ | ⟨rfl, rfl⟩ | ⟨rfl, rfl⟩ | ⟨rfl, rfl⟩ | ⟨rfl, rfl⟩ | ⟨rfl, rfl⟩ |
        ⟨rfl, rfl⟩ | ⟨rfl, rfl⟩ <;>
      simp [stringUnits, shortEscape?, ih]
  | @code a b c d i j k l us cs ha hb hc hd h ih =>
    simp [stringUnits, hexDigit?_of_hexDigit ha, hexDigit?_of_hexDigit hb,
      hexDigit?_of_hexDigit hc, hexDigit?_of_hexDigit hd, ih]

/-- The two surrogates of a character fit together and stand for it, and the first one stands for no
character by itself. -/
lemma surrogates {c : Char} (hc : 0x10000 ≤ c.toNat) {hi lo : Nat}
    (hhi : hi = 0xD800 + (c.toNat - 0x10000) / 0x400)
    (hlo : lo = 0xDC00 + (c.toNat - 0x10000) % 0x400) :
    ¬ hi.isValidChar ∧ (0xD800 ≤ hi ∧ hi < 0xDC00 ∧ 0xDC00 ≤ lo ∧ lo < 0xE000) ∧
      Char.ofNat (0x10000 + (hi - 0xD800) * 0x400 + (lo - 0xDC00)) = c := by
  have hvalid : c.toNat < 0xD800 ∨ (0xDFFF < c.toNat ∧ c.toNat < 0x110000) := c.valid
  refine ⟨?_, by omega, ?_⟩
  · rintro (h | h) <;> omega
  · rw [show 0x10000 + (hi - 0xD800) * 0x400 + (lo - 0xDC00) = c.toNat by omega, Char.ofNat_toNat]

/-- The code units of a text are read as that text. -/
lemma charsOfUnits_of_encodes {cs : List Char} {us : List Nat} (h : Encodes cs us) :
    charsOfUnits us = some cs := by
  induction h with
  | nil => rfl
  | @single c cs us h ih =>
    have hvalid : c.toNat.isValidChar := c.valid
    cases us with
    | nil => cases h; simp [charsOfUnits, hvalid]
    | cons v us => simp [charsOfUnits, hvalid, ih]
  | @pair c cs us hc h ih =>
    obtain ⟨hsingle, hpair, hchar⟩ := surrogates hc rfl rfl
    rw [charsOfUnits, if_neg hsingle, if_pos hpair, ih, hchar]
    rfl

/-- A code unit that stands for a character is the code point of it. -/
lemma toNat_ofNat {u : Nat} (hu : u.isValidChar) : (Char.ofNat u).toNat = u := by
  rw [Char.ofNat, dif_pos hu]
  rfl

lemma Encodes.unit {u : Nat} {cs : List Char} {us : List Nat} (hu : u.isValidChar)
    (h : Encodes cs us) : Encodes (Char.ofNat u :: cs) (u :: us) := by
  have hchar : Encodes (Char.ofNat u :: cs) ((Char.ofNat u).toNat :: us) := .single h
  rwa [toNat_ofNat hu] at hchar

/-- Two surrogates that fit together are those of the character that they stand for. -/
lemma exists_of_surrogates {hi lo : Nat} (hhi : 0xD800 ≤ hi ∧ hi < 0xDC00)
    (hlo : 0xDC00 ≤ lo ∧ lo < 0xE000) :
    ∃ c : Char, Char.ofNat (0x10000 + (hi - 0xD800) * 0x400 + (lo - 0xDC00)) = c ∧
      0x10000 ≤ c.toNat ∧ hi = 0xD800 + (c.toNat - 0x10000) / 0x400 ∧
      lo = 0xDC00 + (c.toNat - 0x10000) % 0x400 := by
  have hvalid : (0x10000 + (hi - 0xD800) * 0x400 + (lo - 0xDC00)).isValidChar :=
    .inr ⟨by omega, by omega⟩
  refine ⟨_, rfl, ?_⟩
  rw [toNat_ofNat hvalid]
  omega

/-- Code units that are read as a text are those of that text. -/
lemma encodes_of_charsOfUnits {us : List Nat} {cs : List Char} (h : charsOfUnits us = some cs) :
    Encodes cs us := by
  fun_induction charsOfUnits us generalizing cs with
  | case1 =>
    cases h
    exact .nil
  | case2 u hu =>
    cases h
    exact .unit hu .nil
  | case3 => cases h
  | case4 u v rest hu ih =>
    obtain ⟨cs, hcs, rfl⟩ := Option.map_eq_some_iff.mp h
    exact .unit hu (ih hcs)
  | case5 u v rest hu hpair ih =>
    obtain ⟨cs, hcs, rfl⟩ := Option.map_eq_some_iff.mp h
    obtain ⟨c, hchar, hc, hhi, hlo⟩ :=
      exists_of_surrogates ⟨hpair.1, hpair.2.1⟩ ⟨hpair.2.2.1, hpair.2.2.2⟩
    rw [hchar, hhi, hlo]
    exact .pair hc (ih hcs)
  | case6 => cases h

/-- What the characters between two quotation marks stand for is read with them. -/
lemma stringUnits_of_spelled {content : Option String} {cs : List Char} (h : Spelled content cs)
    (rest : List Char) : ∃ us, stringUnits (cs ++ '"' :: rest) = some (us, rest) ∧
      (charsOfUnits us).map String.ofList = content := by
  cases h with
  | @text s us _ hus hs =>
    refine ⟨us, stringUnits_append hus rest, ?_⟩
    rw [charsOfUnits_of_encodes hs, Option.map_some, String.ofList_toList]
  | @noText us _ hus hs =>
    refine ⟨us, stringUnits_append hus rest, Option.map_eq_none_iff.mpr ?_⟩
    cases hchars : charsOfUnits us with
    | none => rfl
    | some s => exact absurd (encodes_of_charsOfUnits hchars) (hs s)

theorem token?_string {content : Option String} {cs : List Char} (h : Spelled content cs)
    (rest : List Char) : token? ('"' :: (cs ++ '"' :: rest)) = some (.string content, rest) := by
  obtain ⟨us, hus, hcontent⟩ := stringUnits_of_spelled h rest
  show ((stringUnits (cs ++ '"' :: rest)).bind fun p =>
    some (Token.string ((charsOfUnits p.1).map String.ofList), p.2)) = _
  rw [hus]
  simp [hcontent]

end TreeWalk.Json
