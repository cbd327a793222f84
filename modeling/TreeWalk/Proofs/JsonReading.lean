/-
# Every text of the grammar is read

The reader goes through a text of the grammar token by token, with the containers that are still
open on a stack, and comes out with the document that the text is one of (`ofText?_eq`).  The
induction goes along the grammar: whatever containers are open in front of a document, behind it
the same ones are, and the document has been read (`Written.advances`).
-/
import TreeWalk.Proofs.JsonTokens

namespace TreeWalk.Json

open Document (Expected Frame step)

/-- The reader comes from the text `cs`, where it expects `e`, to the text `cs'` at the end of it,
where it expects `e'`. -/
inductive Advances : Expected → List Char → Expected → List Char → Prop
  | refl (e : Expected) (cs : List Char) : Advances e cs e cs
  | blank {e e' : Expected} {c : Char} {cs cs' : List Char} (hc : isBlank c = true)
      (h : Advances e cs e' cs') : Advances e (c :: cs) e' cs'
  | token {e e₁ e' : Expected} {c : Char} {t : Token} {cs rest cs' : List Char}
      (hc : isBlank c = false) (ht : token? (c :: cs) = some (t, rest))
      (hrest : rest.length ≤ cs.length) (he : step e t = some e₁) (h : Advances e₁ rest e' cs') :
      Advances e (c :: cs) e' cs'

namespace Advances

variable {e e' e'' : Expected} {cs cs' cs'' : List Char}

lemma trans (h : Advances e cs e' cs') (h' : Advances e' cs' e'' cs'') :
    Advances e cs e'' cs'' := by
  induction h with
  | refl => exact h'
  | blank hc _ ih => exact .blank hc (ih h')
  | token hc ht hrest he _ ih => exact .token hc ht hrest he (ih h')

/-- Blanks are passed over. -/
lemma blanks {ws : List Char} (hws : Blanks ws) (h : Advances e cs e' cs') :
    Advances e (ws ++ cs) e' cs' := by
  induction ws with
  | nil => exact h
  | cons c ws ih =>
    refine .blank ?_ (ih fun d hd => hws d (List.mem_cons_of_mem c hd))
    rcases hws c (List.mem_cons_self ..) with rfl | rfl | rfl | rfl <;> rfl

/-- A token of one character. -/
lemma char {c : Char} {t : Token} (ht : token? (c :: cs) = some (t, cs))
    (hc : isBlank c = false) (he : step e t = some e') (h : Advances e' cs e'' cs'') :
    Advances e (c :: cs) e'' cs'' :=
  .token hc ht le_rfl he h

/-- A string. -/
lemma string {content : Option String} {ks : List Char} (hks : Spelled content ks)
    (he : step e (.string content) = some e') (h : Advances e' cs e'' cs'') :
    Advances e ('"' :: (ks ++ '"' :: cs)) e'' cs'' :=
  .token rfl (token?_string hks cs) (by simp; omega) he h

/-- What has been read when the text is at its end. -/
lemma tokens (h : Advances e cs e' cs') (hcs' : cs' = []) {n : Nat} (hn : cs.length ≤ n) :
    ∃ ts, tokensWithin n cs = some ts ∧ ts.foldlM step e = some e' := by
  induction h generalizing n with
  | refl e cs =>
    subst hcs'
    cases n <;> exact ⟨[], rfl, rfl⟩
  | blank hc _ ih =>
    obtain ⟨n, rfl⟩ : ∃ m, n = m + 1 := ⟨n - 1, by simp at hn; omega⟩
    obtain ⟨ts, hts, hstep⟩ := ih hcs' (by simpa using hn)
    exact ⟨ts, by rw [tokensWithin, if_pos hc, hts], hstep⟩
  | @token e e₁ e' c t cs rest cs' hc ht hrest he _ ih =>
    obtain ⟨n, rfl⟩ : ∃ m, n = m + 1 := ⟨n - 1, by simp at hn; omega⟩
    obtain ⟨ts, hts, hstep⟩ := ih hcs' (hrest.trans (by simpa using hn))
    refine ⟨t :: ts, ?_, ?_⟩
    · rw [tokensWithin, hc]
      simp [ht, hts]
    · rw [List.foldlM_cons, he]
      exact hstep

end Advances

lemma EndsNumber.blanks {ws : List Char} (hws : Blanks ws) {rest : List Char}
    (hrest : EndsNumber rest) : EndsNumber (ws ++ rest) := by
  cases ws with
  | nil => exact hrest
  | cons c ws =>
    refine .cons ?_ _
    rcases hws c (List.mem_cons_self ..) with rfl | rfl | rfl | rfl <;> decide

/-- A number takes the reader to what follows it. -/
lemma Advances.number {cs rest : List Char} {t : Token} {e e' : Expected}
    (ht : token? (cs ++ rest) = some (t, rest)) (hcs : ∃ c cs', cs = c :: cs' ∧ isBlank c = false)
    (he : step e t = some e') : Advances e (cs ++ rest) e' rest := by
  obtain ⟨c, cs, rfl, hc⟩ := hcs
  exact .token hc ht (by simp) he (.refl _ _)

/-- A digit is no blank. -/
lemma isBlank_of_isDigit {c : Char} (hc : c.isDigit) : isBlank c = false := by
  have hne : c ≠ ' ' ∧ c ≠ '\t' ∧ c ≠ '\n' ∧ c ≠ '\r' := by
    refine ⟨?_, ?_, ?_, ?_⟩ <;> rintro rfl <;> exact absurd hc (by decide)
  simp [isBlank, hne]

lemma exists_toDigits_append (n : Nat) (cs : List Char) :
    ∃ d cs', Nat.toDigits 10 n ++ cs = d :: cs' ∧ isBlank d = false := by
  have hne : Nat.toDigits 10 n ≠ [] := Nat.toDigits_ne_nil
  obtain ⟨d, ds, hds⟩ := List.exists_cons_of_ne_nil hne
  have hd : d ∈ Nat.toDigits 10 n := hds ▸ List.mem_cons_self ..
  exact ⟨d, ds ++ cs, by rw [hds, List.cons_append],
    isBlank_of_isDigit (isDigit_of_mem_toDigits hd)⟩

lemma OtherNumber.exists_cons {cs : List Char} (h : OtherNumber cs) :
    ∃ c cs', cs = c :: cs' ∧ isBlank c = false := by
  obtain @⟨whole, sign, fraction, exponent, hsign, -, -, -⟩ := h
  rcases hsign with rfl | rfl
  · exact exists_toDigits_append whole _
  · exact ⟨_, _, rfl, rfl⟩

/-! ### Documents -/

mutual

/-- The reader goes through a document, whatever is open around it. -/
lemma Written.advances {d : Document} {cs : List Char} (h : Written d cs) (outer : List Frame)
    {rest : List Char} (hrest : EndsNumber rest) :
    Advances (.item outer) (cs ++ rest) (.rest d outer) rest := by
  cases h with
  | null => exact .token rfl rfl (by simp; omega) rfl (.refl _ _)
  | true => exact .token rfl rfl (by simp; omega) rfl (.refl _ _)
  | false => exact .token rfl rfl (by simp; omega) rfl (.refl _ _)
  | natural n =>
    obtain ⟨c, cs, hcs, hc⟩ := exists_toDigits_append n []
    rw [List.append_nil] at hcs
    exact .number (token?_natural n hrest) ⟨c, cs, hcs, hc⟩ rfl
  | number h => exact .number (token?_number h hrest) h.exists_cons rfl
  | string h =>
    rw [List.cons_append, List.append_assoc]
    exact .string h rfl (.refl _ _)
  | array h =>
    rw [List.cons_append, List.append_assoc]
    exact .char rfl rfl rfl (h.advances [] outer rest fun _ => rfl)
  | object h =>
    rw [List.cons_append, List.append_assoc]
    exact .char rfl rfl rfl (h.advances [] outer rest fun _ => rfl)

/-- The reader goes through the items of an array that are left, and through its end. -/
lemma WrittenItems.advances {items : List Document} {cs : List Char} (h : WrittenItems items cs)
    (done : List Document) (outer : List Frame) (rest : List Char)
    (hdone : items = [] → done = []) :
    Advances (.item (.array done :: outer)) (cs ++ ']' :: rest)
      (.rest (.array (done.reverse ++ items)) outer) rest := by
  cases h with
  | none h =>
    obtain rfl := hdone rfl
    exact .blanks h (.char rfl rfl rfl (.refl _ _))
  | @last d before cs behind hbefore h hbehind =>
    have hfollows : EndsNumber (behind ++ ']' :: rest) := .blanks hbehind (.cons (by decide) _)
    simp only [List.append_assoc]
    refine .blanks hbefore (.trans (h.advances _ hfollows) (.blanks hbehind ?_))
    exact .char rfl rfl (by simp [step]) (.refl _ _)
  | @cons d d' items before cs behind more hbefore h hbehind hmore =>
    have hfollows : EndsNumber (behind ++ ',' :: (more ++ ']' :: rest)) :=
      .blanks hbehind (.cons (by decide) _)
    have hrest := hmore.advances (d :: done) outer rest nofun
    simp only [List.append_assoc, List.cons_append, List.reverse_cons, List.nil_append]
      at hrest ⊢
    refine .blanks hbefore (.trans (h.advances _ hfollows) (.blanks hbehind ?_))
    exact .char rfl rfl rfl hrest

/-- The reader goes through the fields of an object that are left, and through its end. -/
lemma WrittenFields.advances {fields : List (Option String × Document)} {cs : List Char}
    (h : WrittenFields fields cs) (done : List (Option String × Document)) (outer : List Frame)
    (rest : List Char) (hdone : fields = [] → done = []) :
    Advances (.key done outer) (cs ++ '\x7d' :: rest)
      (.rest (.object (done.reverse ++ fields)) outer) rest := by
  cases h with
  | none h =>
    obtain rfl := hdone rfl
    exact .blanks h (.char rfl rfl rfl (.refl _ _))
  | last h =>
    refine .trans (h.advances done outer (.cons (by decide) rest)) ?_
    exact .char rfl rfl (by simp [step]) (.refl _ _)
  | @cons f f' fields cs more h hmore =>
    have hrest := hmore.advances (f :: done) outer rest nofun
    simp only [List.append_assoc, List.cons_append, List.reverse_cons, List.nil_append]
      at hrest ⊢
    refine .trans (h.advances done outer (.cons (by decide) _)) ?_
    exact .char rfl rfl rfl hrest

/-- The reader goes through one field of an object. -/
lemma WrittenField.advances {f : Option String × Document} {cs : List Char}
    (h : WrittenField f cs) (done : List (Option String × Document)) (outer : List Frame)
    {rest : List Char} (hrest : EndsNumber rest) :
    Advances (.key done outer) (cs ++ rest) (.rest f.2 (.object done f.1 :: outer)) rest := by
  cases h with
  | @intro key d ws₁ ws₂ ws₃ ws₄ ks cs h₁ hkey h₂ h₃ h h₄ =>
    simp only [List.append_assoc, List.cons_append]
    refine .blanks h₁ (.string hkey rfl (.blanks h₂ (.char rfl rfl rfl (.blanks h₃ ?_))))
    exact .trans (h.advances _ (.blanks h₄ hrest)) (.blanks h₄ (.refl _ _))

end

/-- A text of a document is read as that document. -/
theorem Document.ofText?_eq {d : Document} {s : String} (h : d.IsWrittenAs s) :
    Document.ofText? s = some d := by
  obtain ⟨before, cs, behind, hbefore, hd, hbehind, hs⟩ := h
  have hread : Advances (.item []) s.toList (.rest d []) [] := by
    rw [hs]
    refine .blanks hbefore (.trans (hd.advances [] ?_) ?_)
    · have hends := EndsNumber.blanks hbehind .nil
      rwa [List.append_nil] at hends
    · have hskip := (Advances.refl (.rest d []) []).blanks hbehind
      rwa [List.append_nil] at hskip
  obtain ⟨ts, hts, hstep⟩ := hread.tokens rfl le_rfl
  rw [Document.ofText?, tokens?, hts]
  show (do Document.finish (← ts.foldlM step (.item []))) = _
  rw [hstep]
  rfl

end TreeWalk.Json
