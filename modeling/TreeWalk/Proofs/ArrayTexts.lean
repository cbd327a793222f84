/-
# The text of an array is unambiguous

Arrays of scalars and of such arrays are written so that what stands at each place can be told from
the text: words, which have none of the characters of the others, texts between quotation marks, and
brackets (`Shown.Listed.told`).  So two of them with the same text hold the same data, and a
string in one of them is at the same place in the other, whatever its characters are
(`array_text_unambiguous`).  Objects are left out, because keys are written as they are.
-/
import Std.Data.String.ToInt
import TreeWalk.Proofs.JsonExport
import TreeWalk.Proofs.QuotedText

namespace TreeWalk

namespace Shown

/-- A scalar that is written without quotation marks. -/
inductive Word : Shown → Prop
  | nil : Word .nil
  | bool (b : Bool) : Word (.bool b)
  | number (n : Int64) : Word (.number n)

/-- A tree of arrays with scalars for leaves. -/
inductive Listed : Shown → Prop
  | word {t : Shown} (h : t.Word) : Listed t
  | string (s : String) : Listed (.string s)
  | array {items : List Shown} (h : ∀ t ∈ items, Listed t) : Listed (.array items)

/-- A character that can stand in a word. -/
def inWord (c : Char) : Bool := c ≠ ',' ∧ c ≠ ']' ∧ c ≠ '[' ∧ c ≠ '"'

/-- The text goes on with a character that cannot stand in a word. -/
def EndsWord (rest : List Char) : Prop := ∃ c cs, rest = c :: cs ∧ inWord c = false

/-- A tree can be told from its text, whatever is written behind it, and so can that. -/
def Told (t : Shown) : Prop := ∀ (t' : Shown) (rest rest' : List Char), t'.Listed →
  EndsWord rest → EndsWord rest' → t.innerText.toList ++ rest = t'.innerText.toList ++ rest' →
  t = t' ∧ rest = rest'

/-- What is written of an array behind an element, if `ts` are the next ones. -/
def textBehind : List Shown → List Char → List Char
  | [], rest => ']' :: rest
  | t :: ts, rest => ',' :: ' ' :: (t.innerText.toList ++ textBehind ts rest)

/-- What is written of an array behind the bracket that opens it. -/
def textInside : List Shown → List Char → List Char
  | [], rest => ']' :: rest
  | t :: ts, rest => t.innerText.toList ++ textBehind ts rest

variable {t t' : Shown} {ts ts' : List Shown} {rest rest' : List Char}

lemma endsWord_textBehind (ts : List Shown) (rest : List Char) : EndsWord (textBehind ts rest) := by
  cases ts with
  | nil => exact ⟨']', rest, rfl, rfl⟩
  | cons t ts => exact ⟨',', _, rfl, rfl⟩

lemma toList_string (s : String) (rest : List Char) :
    ∃ cs, (innerText (.string s)).toList ++ rest = '"' :: cs := by
  rw [innerText, Text.toList_quote]
  exact ⟨_, rfl⟩

lemma toList_array (items : List Shown) (rest : List Char) :
    (innerText (.array items)).toList ++ rest = '[' :: textInside items rest := by
  have hbehind (t : Shown) (ts : List Shown) :
      ", ".toList.intercalate (((t :: ts).map innerText).map String.toList) ++ ']' :: rest =
        t.innerText.toList ++ textBehind ts rest := by
    induction ts generalizing t with
    | nil => simp [textBehind]
    | cons t' ts ih =>
      simp only [List.map_cons, List.intercalate_cons_cons, List.append_assoc] at ih ⊢
      rw [ih t']
      rfl
  rw [innerText, itemTexts_eq]
  cases items with
  | nil => simp [textInside]
  | cons t ts => simpa [String.toList_intercalate, textInside] using hbehind t ts

/-! ### Words -/

lemma isDigit_of_mem_repr {n : Int} {c : Char} (hc : c ∈ (Int.repr n).toList) :
    c = '-' ∨ c.isDigit := by
  rw [Int.repr_eq_if] at hc
  split at hc
  · rw [Nat.toList_repr] at hc
    exact .inr (Nat.isDigit_of_mem_toDigits (by decide) (by decide) hc)
  · rw [String.toList_append, Nat.toList_repr] at hc
    rcases List.mem_append.mp hc with hc | hc
    · exact .inl (by simpa using hc)
    · exact .inr (Nat.isDigit_of_mem_toDigits (by decide) (by decide) hc)

lemma repr_ne_nil (n : Int) : (Int.repr n).toList ≠ [] := by
  rw [Int.repr_eq_if]
  split
  · rw [Nat.toList_repr]
    exact Nat.toDigits_ne_nil
  · simp

namespace Word

lemma inWord_of_mem (h : t.Word) : ∀ c ∈ t.innerText.toList, inWord c = true := by
  cases h with
  | nil => exact List.all_eq_true.mp (by decide)
  | bool b => cases b <;> exact List.all_eq_true.mp (by decide)
  | number n =>
    intro c hc
    have hne : c ≠ ',' ∧ c ≠ ']' ∧ c ≠ '[' ∧ c ≠ '"' := by
      rcases isDigit_of_mem_repr hc with rfl | hdigit
      · decide
      · refine ⟨?_, ?_, ?_, ?_⟩ <;> rintro rfl <;> exact absurd hdigit (by decide)
    exact decide_eq_true hne

lemma exists_cons (h : t.Word) : ∃ c cs, t.innerText.toList = c :: cs ∧ inWord c = true := by
  have hne : t.innerText.toList ≠ [] := by
    cases h with
    | nil => decide
    | bool b => cases b <;> decide
    | number n => exact repr_ne_nil n.toInt
  obtain ⟨c, cs, htext⟩ := List.exists_cons_of_ne_nil hne
  exact ⟨c, cs, htext, h.inWord_of_mem c (htext ▸ List.mem_cons_self ..)⟩

/-- A number has no letters, so the words are different from each other. -/
lemma eq_of_innerText (h : t.Word) (h' : t'.Word) (heq : t.innerText = t'.innerText) : t = t' := by
  have hletter (n : Int64) (s : String) (hs : 'n' ∈ s.toList ∨ 'e' ∈ s.toList) :
      Int.repr n.toInt ≠ s := by
    rintro rfl
    rcases hs with hs | hs <;> rcases isDigit_of_mem_repr hs with hc | hc <;>
      exact absurd hc (by decide)
  cases h with
  | nil =>
    cases h' with
    | nil => rfl
    | bool b => cases b <;> exact absurd heq (by decide)
    | number n => exact absurd heq.symm (hletter n _ (by decide))
  | bool b =>
    cases h' with
    | nil => cases b <;> exact absurd heq (by decide)
    | bool b' => cases b <;> cases b' <;> first | rfl | exact absurd heq (by decide)
    | number n => cases b <;> exact absurd heq.symm (hletter n _ (by decide))
  | number n =>
    cases h' with
    | nil => exact absurd heq (hletter n _ (by decide))
    | bool b => cases b <;> exact absurd heq (hletter n _ (by decide))
    | number n' => rw [Int64.toInt_inj.mp (Int.repr_injective heq)]

end Word

/-- Words end where the first character stands that cannot be in one. -/
lemma word_append_inj {w w' : List Char} (hw : ∀ c ∈ w, inWord c = true)
    (hw' : ∀ c ∈ w', inWord c = true) (hrest : EndsWord rest) (hrest' : EndsWord rest')
    (heq : w ++ rest = w' ++ rest') : w = w' ∧ rest = rest' := by
  have hend {w rest : List Char} (hw : ∀ c ∈ w, inWord c = true) (hrest : EndsWord rest) :
      (w ++ rest).takeWhile inWord = w := by
    obtain ⟨c, cs, rfl, hc⟩ := hrest
    rw [List.takeWhile_append_of_pos hw, List.takeWhile_cons_of_neg (by simp [hc]), List.append_nil]
  have hwords : w = w' := by rw [← hend hw hrest, heq, hend hw' hrest']
  subst hwords
  exact ⟨rfl, List.append_cancel_left heq⟩

/-! ### Trees -/

/-- What is written of the tree starts with such a character. -/
inductive Opens : Shown → Char → Prop
  | word {t : Shown} {c : Char} (h : t.Word) (hc : inWord c = true) : Opens t c
  | string (s : String) : Opens (.string s) '"'
  | array (items : List Shown) : Opens (.array items) '['

lemma Listed.opens (h : t.Listed) (rest : List Char) :
    ∃ c cs, t.innerText.toList ++ rest = c :: cs ∧ t.Opens c := by
  cases h with
  | word h =>
    obtain ⟨c, cs, htext, hc⟩ := h.exists_cons
    exact ⟨c, cs ++ rest, by rw [htext, List.cons_append], .word h hc⟩
  | string s =>
    obtain ⟨cs, htext⟩ := toList_string s rest
    exact ⟨'"', cs, htext, .string s⟩
  | @array items h => exact ⟨'[', _, toList_array items rest, .array items⟩

lemma Listed.opens_of_append_eq (h : t.Listed) (h' : t'.Listed)
    (heq : t.innerText.toList ++ rest = t'.innerText.toList ++ rest') :
    ∃ c, t.Opens c ∧ t'.Opens c := by
  obtain ⟨c, cs, htext, hopens⟩ := h.opens rest
  obtain ⟨c', cs', htext', hopens'⟩ := h'.opens rest'
  rw [htext, htext'] at heq
  obtain ⟨rfl, -⟩ := List.cons.inj heq
  exact ⟨c, hopens, hopens'⟩

lemma told_word (h : t.Word) : t.Told := by
  intro t' rest rest' h' hrest hrest' heq
  -- the first character tells which kind of tree the other one is
  obtain ⟨c, hopens, hopens'⟩ := (Listed.word h).opens_of_append_eq h' heq
  cases hopens with
  | string s => cases h
  | array items => cases h
  | word h hc =>
    cases hopens' with
    | string s => cases hc
    | array items => cases hc
    | word h' hc =>
      obtain ⟨hword, hbehind⟩ := word_append_inj h.inWord_of_mem h'.inWord_of_mem hrest hrest' heq
      exact ⟨h.eq_of_innerText h' (String.toList_inj.mp hword), hbehind⟩

lemma told_string (s : String) : (string s).Told := by
  intro t' rest rest' h' hrest hrest' heq
  obtain ⟨c, hopens, hopens'⟩ := (Listed.string s).opens_of_append_eq h' heq
  cases hopens with
  | word h => cases h
  | string s =>
    cases hopens' with
    | word h hc => cases hc
    | string s' =>
      obtain ⟨rfl, hbehind⟩ := Text.quote_append_inj heq
      exact ⟨rfl, hbehind⟩

/-- An element does not start with the bracket that closes an empty array. -/
lemma innerText_append_ne_bracket (h : t.Listed) (cs : List Char) :
    t.innerText.toList ++ rest ≠ ']' :: cs := by
  obtain ⟨c, cs', htext, hopens⟩ := h.opens rest
  rw [htext]
  rintro heq
  cases heq
  cases hopens with
  | word h hc => cases hc

/-- What is written behind an element tells which elements there are. -/
lemma textBehind_inj (htold : ∀ t ∈ ts, t.Told) (hlisted : ∀ t ∈ ts', t.Listed)
    (heq : textBehind ts rest = textBehind ts' rest') : ts = ts' ∧ rest = rest' := by
  induction ts generalizing ts' with
  | nil =>
    cases ts' with
    | nil => exact ⟨rfl, List.tail_eq_of_cons_eq heq⟩
    | cons t' ts' => cases (List.cons.inj heq).1
  | cons t ts ih =>
    cases ts' with
    | nil => cases (List.cons.inj heq).1
    | cons t' ts' =>
      simp only [textBehind, List.cons.injEq, true_and] at heq
      obtain ⟨ht, hts⟩ := List.forall_mem_cons.mp htold
      obtain ⟨ht', hts'⟩ := List.forall_mem_cons.mp hlisted
      -- behind either element there is a comma or a bracket, and neither can stand in a word
      obtain ⟨hhead, hbehind⟩ := ht t' _ _ ht' (endsWord_textBehind ts rest)
        (endsWord_textBehind ts' rest') heq
      obtain ⟨htail, hrest⟩ := ih hts hts' hbehind
      exact ⟨by rw [hhead, htail], hrest⟩

lemma textInside_inj (htold : ∀ t ∈ ts, t.Told) (hlisted : ∀ t ∈ ts, t.Listed)
    (hlisted' : ∀ t ∈ ts', t.Listed) (heq : textInside ts rest = textInside ts' rest') :
    ts = ts' ∧ rest = rest' := by
  cases ts with
  | nil =>
    cases ts' with
    | nil => exact ⟨rfl, List.tail_eq_of_cons_eq heq⟩
    | cons t' ts' =>
      exact absurd heq.symm (innerText_append_ne_bracket (hlisted' t' List.mem_cons_self) rest)
  | cons t ts =>
    cases ts' with
    | nil => exact absurd heq (innerText_append_ne_bracket (hlisted t List.mem_cons_self) rest')
    | cons t' ts' =>
      refine textBehind_inj htold hlisted' ?_
      rw [textBehind, textBehind, ← textInside, ← textInside, heq]

lemma told_array {items : List Shown} (hlisted : ∀ t ∈ items, t.Listed)
    (htold : ∀ t ∈ items, t.Told) : (array items).Told := by
  intro t' rest rest' h' hrest hrest' heq
  obtain ⟨c, hopens, hopens'⟩ := (Listed.array hlisted).opens_of_append_eq h' heq
  cases hopens with
  | word h => cases h
  | array items =>
    cases hopens' with
    | word h hc => cases hc
    | array items' =>
      have hlisted' : ∀ t ∈ items', t.Listed := by
        cases h' with
        | word h => cases h
        | array h => exact h
      rw [toList_array, toList_array] at heq
      obtain ⟨hitems, hbehind⟩ := textInside_inj htold hlisted hlisted' (List.cons.inj heq).2
      exact ⟨congrArg array hitems, hbehind⟩

/-- Trees of arrays can be told from their texts. -/
lemma Listed.told (h : t.Listed) : t.Told := by
  induction h with
  | word h => exact told_word h
  | string s => exact told_string s
  | array h ih => exact told_array h ih

/-- Trees of arrays with the same text are the same. -/
theorem Listed.eq_of_innerText (h : t.Listed) (h' : t'.Listed) (heq : t.innerText = t'.innerText) :
    t = t' := by
  -- a text by itself has no end of a word behind it, so that one is added to both
  have hends : EndsWord [']'] := ⟨']', [], rfl, rfl⟩
  exact (h.told t' [']'] [']'] h' hends hends (by rw [heq])).1

end Shown

namespace Store

open Relation

/-- Plain data that lead to no objects. -/
structure PlainArrays (st : Store) (v : Value) : Prop where
  plain : st.Plain v
  no_object : ∀ r, ¬ ReflTransGen st.Holds v (.object r)

/-- Look whether a value is a scalar, or an array of such values that is nested at most so deep. -/
def nestedArrays (st : Store) : Nat → Value → Bool
  | _, .nil | _, .bool _ | _, .number _ | _, .string _ => true
  | d + 1, .array r => (st.array r).toList.all fun v => st.nestedArrays d v
  | _, _ => false

variable {st st' : Store} {v v' : Value} {d : Nat}

lemma nestedArrays_of_nested (h : st.nested d v)
    (hv : ∀ r, ¬ ReflTransGen st.Holds v (.object r)) : st.nestedArrays d v := by
  refine nested_induction (P := fun d v => (∀ r, ¬ ReflTransGen st.Holds v (.object r)) →
    st.nestedArrays d v) (fun d v hdata hleaf _ => ?_) (fun d v hcontainer _ ih hv => ?_) h hv
  · cases v with
    | object r => cases hleaf
    | array r => cases hleaf
    | function r => cases hdata
    | builtin r => cases hdata
    | «variable» name => cases hdata
    | _ => cases d <;> rfl
  · rcases v.container_cases hcontainer with ⟨r, rfl⟩ | ⟨r, rfl⟩
    · exact absurd .refl (hv r)
    · exact List.all_eq_true.mpr fun w hw => ih w (.element hw) fun r' hr' =>
        hv r' (.head (.element hw) hr')

lemma nested_of_nestedArrays (h : st.nestedArrays d v) : st.nested d v := by
  induction d generalizing v with
  | zero => cases v <;> first | rfl | cases h
  | succ d ih =>
    cases v with
    | array r => exact List.all_eq_true.mpr fun w hw => ih (List.all_eq_true.mp h w hw)
    | _ => first | rfl | cases h

/-- An object is nowhere on the way down. -/
lemma no_object_of_nestedArrays (h : st.nestedArrays d v) (r : ObjectRef) :
    ¬ ReflTransGen st.Holds v (.object r) := by
  intro hr
  induction hr using ReflTransGen.head_induction_on generalizing d with
  | refl => cases d <;> cases h
  | head hw _ ih =>
    cases d with
    | zero => cases hw <;> cases h
    | succ d =>
      cases hw with
      | entry hw => cases h
      | element hw => exact ih (List.all_eq_true.mp h _ hw)

/-- One can compute whether a value is made of scalars and arrays only. -/
theorem plainArrays_iff : st.PlainArrays v ↔ st.nestedArrays 128 v := by
  constructor
  · exact fun h => nestedArrays_of_nested (plain_iff_nested.mp h.plain) h.no_object
  · exact fun h => ⟨plain_iff_nested.mpr (nested_of_nestedArrays h), no_object_of_nestedArrays h⟩

lemma listed_leaf (hdata : v.isData) (hv : v.isContainer = false) : (st.leaf v).Listed := by
  cases v with
  | nil => exact .word .nil
  | bool b => exact .word (.bool b)
  | number n => exact .word (.number n)
  | string s => exact .string s
  | object r => cases hv
  | array r => cases hv
  | _ => cases hdata

lemma listed_tree (h : st.nestedArrays d v) : (st.tree d v).Listed := by
  refine nested_induction (P := fun d v => st.nestedArrays d v → (st.tree d v).Listed)
    (fun d v hdata hv _ => ?_) (fun d v hv _ ih h => ?_) (nested_of_nestedArrays h) h
  · rw [tree_leaf hv]
    exact listed_leaf hdata hv
  · rcases v.container_cases hv with ⟨r, rfl⟩ | ⟨r, rfl⟩
    · cases h
    · refine .array fun t ht => ?_
      obtain ⟨w, hw, rfl⟩ := List.mem_map.mp ht
      exact ih w (.element hw) (List.all_eq_true.mp h w hw)

/-- Values whose trees are not cut and are the same hold the same data. -/
lemma sameData_of_tree_eq (h : st.nested d v) (h' : st'.nested d v')
    (heq : st.tree d v = st'.tree d v') : SameData st st' v v' := by
  -- what is made of the common data holds the same data as either value
  obtain ⟨w, st₁, hrun, -, hsame⟩ := restores_tree h default
  obtain ⟨w', st₂, hrun', -, hsame'⟩ := restores_tree h' default
  rw [heq, hrun'] at hrun
  cases hrun
  exact (hsame st₁ (.refl st₁)).trans (hsame' st₁ (.refl st₁)).symm

/-- The text of an array that is not cut has no marks. -/
lemma text_array (r : ArrayRef) (h : st.Plain (.array r)) :
    st.text (.array r) = (st.tree 128 (.array r)).innerText := by
  rw [text_eq, h.unfolding]
  rfl

/-- The value that is found in a value at the place in the array at the place, and so on. -/
def part? (st : Store) : Value → List Nat → Option Value
  | v, [] => some v
  | .array r, i :: path => (st.array r)[i]? >>= fun v => st.part? v path
  | _, _ :: _ => none

/-- The same data have the same strings at the same places. -/
lemma SameData.part?_eq_string {s : String} {path : List Nat} (h : SameData st st' v v')
    (hs : st.part? v path = some (.string s)) : st'.part? v' path = some (.string s) := by
  induction path generalizing v v' with
  | nil =>
    cases Option.some.inj hs
    cases h
    rfl
  | cons i path ih =>
    cases h with
    | @array r r' size elements =>
      obtain ⟨w, hw, hs⟩ := Option.bind_eq_some_iff.mp hs
      have hi : i < (st'.array r').size := size ▸ (Array.getElem?_eq_some_iff.mp hw).1
      have hw' := Array.getElem?_eq_getElem hi
      exact Option.bind_eq_some_iff.mpr ⟨_, hw', ih (elements i w _ hw hw') hs⟩
    | _ => cases hs

/-- Two plain arrays without objects, in whatever stores, have the same text if and only if they
hold the same data.  So they have the same text only if they have the same strings at each place. -/
theorem array_text_unambiguous (st st' : Store) (r r' : ArrayRef) (h : st.PlainArrays (.array r))
    (h' : st'.PlainArrays (.array r')) :
    (st.text (.array r) = st'.text (.array r') ↔ SameData st st' (.array r) (.array r')) ∧
    (st.text (.array r) = st'.text (.array r') → ∀ path s,
      st.part? (.array r) path = some (.string s) ↔
        st'.part? (.array r') path = some (.string s)) := by
  have hsame : st.text (.array r) = st'.text (.array r') →
      SameData st st' (.array r) (.array r') := by
    intro heq
    rw [text_array r h.plain, text_array r' h'.plain] at heq
    have hnested := plainArrays_iff.mp h
    have hnested' := plainArrays_iff.mp h'
    exact sameData_of_tree_eq (nested_of_nestedArrays hnested) (nested_of_nestedArrays hnested')
      ((listed_tree hnested).eq_of_innerText (listed_tree hnested') heq)
  refine ⟨⟨hsame, fun hdata => ?_⟩, fun heq path s => ⟨?_, ?_⟩⟩
  · rw [text_array r h.plain, text_array r' h'.plain, hdata.tree_eq 128]
  · exact (hsame heq).part?_eq_string
  · exact (hsame heq).symm.part?_eq_string

/-- An array with a pair of strings in it, one with a copy of the pair, and one with a single string
instead, which has quotation marks and a comma in it. -/
theorem array_text_unambiguous_quoted :
    let pair := (default : Store).newArray #[.string "a", .string "b"]
    let copy := pair.2.newArray #[.string "a", .string "b"]
    let single := copy.2.newArray #[.string "a\", \"b"]
    let empty := single.2.newArray #[]
    let rest : Array Value := #[.array empty.1, .string "", .string "<cycle>", .string "..."]
    let first := empty.2.newArray (#[.array pair.1] ++ rest)
    let second := first.2.newArray (#[.array copy.1] ++ rest)
    let third := second.2.newArray (#[.array single.1] ++ rest)
    let st := third.2
    st.PlainArrays (.array first.1) ∧ st.PlainArrays (.array second.1) ∧
      st.PlainArrays (.array third.1) ∧ SameData st st (.array first.1) (.array second.1) ∧
      st.text (.array first.1) = st.text (.array second.1) ∧
      st.text (.array first.1) ≠ st.text (.array third.1) := by
  intro pair copy single empty rest first second third st
  have hfirst : st.PlainArrays (.array first.1) := plainArrays_iff.mpr (by decide +kernel)
  have hsecond : st.PlainArrays (.array second.1) := plainArrays_iff.mpr (by decide +kernel)
  have hthird : st.PlainArrays (.array third.1) := plainArrays_iff.mpr (by decide +kernel)
  have htext : st.text (.array first.1) = st.text (.array second.1) := by
    rw [text_array _ hfirst.plain, text_array _ hsecond.plain]
    exact congrArg Shown.innerText rfl
  refine ⟨hfirst, hsecond, hthird, ?_, htext, fun heq => ?_⟩
  · exact (array_text_unambiguous st st first.1 second.1 hfirst hsecond).1.mp htext
  · have hstring := ((array_text_unambiguous st st first.1 third.1 hfirst hthird).2 heq
      [0, 0] "a").mp rfl
    exact absurd hstring (by decide)

end Store

end TreeWalk
