/-
# The text of a token

What the reader of tokens takes from the front of a text is a text of the token that it makes of it
(`exists_lexeme`), so nothing but the numbers and the strings of the grammar is read as a number or
as a string.  This is the other half of what is said in `JsonTokens`.
-/
import TreeWalk.Proofs.JsonTokens

namespace TreeWalk.Json

/-- A token with a text of it. -/
inductive Lexeme : Token → List Char → Prop
  | openArray : Lexeme .openArray ['[']
  | closeArray : Lexeme .closeArray [']']
  | openObject : Lexeme .openObject ['\x7b']
  | closeObject : Lexeme .closeObject ['\x7d']
  | comma : Lexeme .comma [',']
  | colon : Lexeme .colon [':']
  | null : Lexeme .null "null".toList
  | true : Lexeme (.bool true) "true".toList
  | false : Lexeme (.bool false) "false".toList
  | natural (n : Nat) : Lexeme (.natural n) (Nat.toDigits 10 n)
  | number {cs : List Char} (h : OtherNumber cs) : Lexeme .number cs
  | string {content : Option String} {cs : List Char} (h : Spelled content cs) :
      Lexeme (.string content) ('"' :: (cs ++ ['"']))

variable {cs ds rest : List Char}

/-! ### Numbers -/

lemma eq_append_of_spanDigits (h : spanDigits cs = (ds, rest)) :
    cs = ds ++ rest ∧ ∀ c ∈ ds, c.isDigit := by
  cases h
  exact ⟨List.takeWhile_append_dropWhile.symm, List.all_eq_true.mp List.all_takeWhile⟩

/-- A digit is the only one of its value. -/
lemma digitChar_of_isDigit {d : Char} (hd : d.isDigit) :
    d.toNat - '0'.toNat < 10 ∧ (d.toNat - '0'.toNat).digitChar = d := by
  obtain ⟨hlow, hhigh⟩ : 48 ≤ d.toNat ∧ d.toNat ≤ 57 := by
    simpa [Char.isDigit, UInt32.le_iff_toNat_le] using hd
  have hlt : d.toNat - '0'.toNat < 10 := by
    show d.toNat - 48 < 10
    omega
  refine ⟨hlt, Char.toNat_inj.mp ?_⟩
  rw [Nat.toNat_digitChar_of_lt_ten hlt]
  show 48 + (d.toNat - 48) = d.toNat
  omega

/-- Further digits behind those of a number are digits of the number that they make of it. -/
lemma toDigits_foldl (hds : ∀ d ∈ ds, d.isDigit) {n : Nat} (hn : 0 < n) :
    Nat.toDigits 10 (ds.foldl (fun n d => n * 10 + (d.toNat - '0'.toNat)) n) =
      Nat.toDigits 10 n ++ ds := by
  -- what has been made so far stays positive, or else its digits would be those of zero
  induction ds generalizing n with
  | nil => rw [List.foldl_nil, List.append_nil]
  | cons d ds ih =>
    obtain ⟨hd, hds⟩ := List.forall_mem_cons.mp hds
    obtain ⟨hlt, hchar⟩ := digitChar_of_isDigit hd
    have happend := Nat.toDigits_append_toDigits (b := 10) (by decide) hn hlt
    rw [Nat.toDigits_of_lt_base hlt, hchar, Nat.mul_comm] at happend
    rw [List.foldl_cons, ih hds (by omega), ← happend, List.append_assoc, List.singleton_append]

/-- Digits without a superfluous zero are those of the number that they stand for. -/
lemma toDigits_natOfDigits {d : Char} (hd : d.isDigit) (hzero : d ≠ '0')
    (hds : ∀ c ∈ ds, c.isDigit) : Nat.toDigits 10 (natOfDigits (d :: ds)) = d :: ds := by
  obtain ⟨hlt, hchar⟩ := digitChar_of_isDigit hd
  have hpos : 0 < d.toNat - '0'.toNat := by
    refine Nat.pos_of_ne_zero fun heq => hzero ?_
    rw [← hchar, heq]
    rfl
  rw [natOfDigits, List.foldl_cons, Nat.zero_mul, Nat.zero_add, toDigits_foldl hds hpos,
    Nat.toDigits_of_lt_base hlt, hchar, List.singleton_append]

lemma eq_toDigits_of_wholeNumber? {n : Nat} (h : wholeNumber? cs = some (n, rest)) :
    cs = Nat.toDigits 10 n ++ rest := by
  unfold wholeNumber? at h
  split at h
  · cases h
  · next rest' hspan =>
    cases h
    exact (eq_append_of_spanDigits hspan).1
  · cases h
  · next ds rest' hnil hone hzero hspan =>
    cases h
    obtain ⟨rfl, hds⟩ := eq_append_of_spanDigits hspan
    cases ds with
    | nil => exact (hnil rfl).elim
    | cons d ds =>
      obtain ⟨hd, hds⟩ := List.forall_mem_cons.mp hds
      rw [toDigits_natOfDigits hd (by rintro rfl; exact hzero ds rfl) hds]

lemma exists_digits_of_skipDigits? (h : skipDigits? cs = some rest) :
    ∃ ds, Digits ds ∧ cs = ds ++ rest := by
  unfold skipDigits? at h
  split at h
  · cases h
  · next ds rest' hnil hspan =>
    cases h
    obtain ⟨rfl, hds⟩ := eq_append_of_spanDigits hspan
    exact ⟨ds, ⟨hnil, hds⟩, rfl⟩

/-- What is passed over is a fraction, or nothing if the text does not go on with a point. -/
lemma fraction_of_skipFraction? (h : skipFraction? cs = some rest) :
    (∃ fraction, Fraction fraction ∧ cs = fraction ++ rest) ∨
      (cs = rest ∧ ∀ cs', cs ≠ '.' :: cs') := by
  unfold skipFraction? at h
  split at h
  · obtain ⟨ds, hds, rfl⟩ := exists_digits_of_skipDigits? h
    exact .inl ⟨'.' :: ds, .intro hds, rfl⟩
  · next hpoint =>
    cases h
    exact .inr ⟨rfl, hpoint⟩

/-- What is passed over is an exponent, or nothing if the text does not go on with its letter. -/
lemma exponent_of_skipExponent? (h : skipExponent? cs = some rest) :
    (∃ exponent, Exponent exponent ∧ cs = exponent ++ rest) ∨
      (cs = rest ∧ ∀ cs', cs ≠ 'e' :: cs' ∧ cs ≠ 'E' :: cs') := by
  have hsigned (e sign : Char) (cs' : List Char) (he : e = 'e' ∨ e = 'E')
      (hsign : sign = '+' ∨ sign = '-') (h : skipDigits? cs' = some rest) :
      ∃ exponent, Exponent exponent ∧ e :: sign :: cs' = exponent ++ rest := by
    obtain ⟨ds, hds, rfl⟩ := exists_digits_of_skipDigits? h
    exact ⟨e :: sign :: ds, .signed he hsign hds, rfl⟩
  have hplain (e : Char) (cs' : List Char) (he : e = 'e' ∨ e = 'E')
      (h : skipDigits? cs' = some rest) :
      ∃ exponent, Exponent exponent ∧ e :: cs' = exponent ++ rest := by
    obtain ⟨ds, hds, rfl⟩ := exists_digits_of_skipDigits? h
    exact ⟨e :: ds, .plain he hds, rfl⟩
  unfold skipExponent? at h
  split at h
  · exact .inl (hsigned _ _ _ (.inl rfl) (.inl rfl) h)
  · exact .inl (hsigned _ _ _ (.inl rfl) (.inr rfl) h)
  · exact .inl (hsigned _ _ _ (.inr rfl) (.inl rfl) h)
  · exact .inl (hsigned _ _ _ (.inr rfl) (.inr rfl) h)
  · exact .inl (hplain _ _ (.inl rfl) h)
  · exact .inl (hplain _ _ (.inr rfl) h)
  · next hlower hupper =>
    cases h
    exact .inr ⟨rfl, fun cs' => ⟨hlower cs', hupper cs'⟩⟩

/-- What is passed over behind a whole number is a fraction and an exponent, and one of them is
there if it has been seen. -/
lemma exists_of_skips {rest' : List Char} (h : skipFraction? cs = some rest')
    (h' : skipExponent? rest' = some rest) : ∃ fraction exponent,
      (fraction = [] ∨ Fraction fraction) ∧ (exponent = [] ∨ Exponent exponent) ∧
      cs = fraction ++ (exponent ++ rest) ∧
      (startsFraction cs = true → fraction ≠ [] ∨ exponent ≠ []) := by
  rcases fraction_of_skipFraction? h with ⟨fraction, hfraction, rfl⟩ | ⟨rfl, hpoint⟩ <;>
    rcases exponent_of_skipExponent? h' with ⟨exponent, hexponent, rfl⟩ | ⟨rfl, hletter⟩
  · have hne : fraction ≠ [] := by cases hfraction; simp
    exact ⟨fraction, exponent, .inr hfraction, .inr hexponent, rfl, fun _ => .inl hne⟩
  · have hne : fraction ≠ [] := by cases hfraction; simp
    exact ⟨fraction, [], .inr hfraction, .inl rfl, rfl, fun _ => .inl hne⟩
  · have hne : exponent ≠ [] := by cases hexponent <;> simp
    exact ⟨[], exponent, .inl rfl, .inr hexponent, rfl, fun _ => .inr hne⟩
  · refine ⟨[], [], .inl rfl, .inl rfl, rfl, fun hstarts => ?_⟩
    unfold startsFraction at hstarts
    split at hstarts
    · exact absurd rfl (hpoint _)
    · exact absurd rfl (hletter _).1
    · exact absurd rfl (hletter _).2
    · cases hstarts

lemma exists_lexeme_of_number? {t : Token} (h : number? cs = some (t, rest)) :
    ∃ front, Lexeme t front ∧ cs = front ++ rest := by
  unfold number? at h
  split at h
  · next cs' =>
    obtain ⟨⟨n, rest₁⟩, hwhole, h⟩ := Option.bind_eq_some_iff.mp h
    obtain ⟨rest₂, hskip, h⟩ := Option.bind_eq_some_iff.mp h
    obtain ⟨rest₃, hskip', ht⟩ := Option.bind_eq_some_iff.mp h
    cases ht
    obtain rfl := eq_toDigits_of_wholeNumber? hwhole
    obtain ⟨fraction, exponent, hfraction, hexponent, rfl, -⟩ := exists_of_skips hskip hskip'
    refine ⟨_, .number (.intro n (.inr rfl) hfraction hexponent (.inl (by decide))), ?_⟩
    simp
  · obtain ⟨⟨n, rest₁⟩, hwhole, hrest⟩ := Option.bind_eq_some_iff.mp h
    obtain rfl := eq_toDigits_of_wholeNumber? hwhole
    dsimp only at hrest
    split at hrest
    · next hstarts =>
      obtain ⟨rest₂, hskip, hrest⟩ := Option.bind_eq_some_iff.mp hrest
      obtain ⟨rest₃, hskip', ht⟩ := Option.bind_eq_some_iff.mp hrest
      cases ht
      obtain ⟨fraction, exponent, hfraction, hexponent, rfl, hthere⟩ :=
        exists_of_skips hskip hskip'
      refine ⟨_, .number (.intro n (.inl rfl) hfraction hexponent (.inr (hthere hstarts))), ?_⟩
      simp
    · cases hrest
      exact ⟨_, .natural n, rfl⟩

/-! ### Strings -/

lemma hexDigit_of_hexDigit? {c : Char} {value : Nat} (h : hexDigit? c = some value) :
    HexDigit c value := by
  have hchar := Char.ofNat_toNat c
  unfold hexDigit? at h
  split_ifs at h with hdigit hlower hupper
  · obtain ⟨hlow, hhigh⟩ : 48 ≤ c.toNat ∧ c.toNat ≤ 57 := by
      simpa [Char.isDigit, UInt32.le_iff_toNat_le] using hdigit
    cases h
    rw [← hchar]
    generalize c.toNat = u at hlow hhigh
    left
    interval_cases u <;> rfl
  · obtain ⟨hlow, hhigh⟩ : 97 ≤ c.toNat ∧ c.toNat ≤ 102 := hlower
    cases h
    rw [← hchar]
    generalize c.toNat = u at hlow hhigh
    left
    interval_cases u <;> rfl
  · obtain ⟨hlow, hhigh⟩ : 65 ≤ c.toNat ∧ c.toNat ≤ 70 := hupper
    cases h
    rw [← hchar]
    generalize c.toNat = u at hlow hhigh
    right
    interval_cases u <;> rfl

lemma mem_shortEscapes_of_shortEscape? {e c : Char} (h : shortEscape? e = some c) :
    (e, c) ∈ shortEscapes := by
  unfold shortEscape? at h
  split_ifs at h with hself hb hf hn hr ht <;> cases h
  · rcases hself with rfl | rfl | rfl <;> simp [shortEscapes]
  all_goals subst e; simp [shortEscapes]

/-- What is read between two quotation marks names the code units that are made of it. -/
lemma exists_units_of_stringUnits {us : List Nat} (h : stringUnits cs = some (us, rest)) :
    ∃ ks, Units us ks ∧ cs = ks ++ '"' :: rest := by
  fun_induction stringUnits cs generalizing us rest with
  | case1 => cases h
  | case2 =>
    cases h
    exact ⟨[], .nil, rfl⟩
  | case3 a b c d cs ih =>
    simp only [Option.bind_eq_bind, Option.bind_eq_some_iff, Option.pure_def] at h
    obtain ⟨i, hi, j, hj, k, hk, l, hl, ⟨units, rest'⟩, hunits, h⟩ := h
    cases h
    obtain ⟨ks, hks, rfl⟩ := ih hunits
    exact ⟨_, .code (hexDigit_of_hexDigit? hi) (hexDigit_of_hexDigit? hj) (hexDigit_of_hexDigit? hk)
      (hexDigit_of_hexDigit? hl) hks, rfl⟩
  | case4 e cs hcode ih =>
    simp only [Option.bind_eq_bind, Option.bind_eq_some_iff, Option.pure_def] at h
    obtain ⟨c, hc, ⟨units, rest'⟩, hunits, h⟩ := h
    cases h
    obtain ⟨ks, hks, rfl⟩ := ih hunits
    exact ⟨_, .short (mem_shortEscapes_of_shortEscape? hc) hks, rfl⟩
  | case5 => cases h
  | case6 c cs hquote hcode hshort hplain ih =>
    obtain ⟨⟨units, rest'⟩, hunits, h⟩ := Option.bind_eq_some_iff.mp h
    cases h
    obtain ⟨ks, hks, rfl⟩ := ih hunits
    obtain ⟨hcontrol, hslash⟩ := not_or.mp hplain
    exact ⟨_, .plain (Nat.not_lt.mp hcontrol) hquote hslash hks, rfl⟩

/-- Characters that name code units spell what is made of these. -/
lemma Units.spelled {us : List Nat} (h : Units us cs) :
    Spelled ((charsOfUnits us).map String.ofList) cs := by
  cases hchars : charsOfUnits us with
  | none =>
    refine .noText h fun s hs => ?_
    rw [charsOfUnits_of_encodes hs] at hchars
    cases hchars
  | some chars =>
    refine .text h ?_
    rw [String.toList_ofList]
    exact encodes_of_charsOfUnits hchars

/-- What is read as a token is a text of that token. -/
theorem exists_lexeme {t : Token} (h : token? cs = some (t, rest)) :
    ∃ front, Lexeme t front ∧ cs = front ++ rest := by
  unfold token? at h
  split at h
  · cases h; exact ⟨_, .openArray, rfl⟩
  · cases h; exact ⟨_, .closeArray, rfl⟩
  · cases h; exact ⟨_, .openObject, rfl⟩
  · cases h; exact ⟨_, .closeObject, rfl⟩
  · cases h; exact ⟨_, .comma, rfl⟩
  · cases h; exact ⟨_, .colon, rfl⟩
  · cases h; exact ⟨_, .null, rfl⟩
  · cases h; exact ⟨_, .true, rfl⟩
  · cases h; exact ⟨_, .false, rfl⟩
  · obtain ⟨⟨us, rest'⟩, hunits, h⟩ := Option.bind_eq_some_iff.mp h
    cases h
    obtain ⟨ks, hks, rfl⟩ := exists_units_of_stringUnits hunits
    exact ⟨_, .string hks.spelled, by simp⟩
  · exact exists_lexeme_of_number? h

end TreeWalk.Json
