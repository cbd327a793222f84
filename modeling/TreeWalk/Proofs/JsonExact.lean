/-
# Exactly the texts of the grammar are read

A text is read as a document if and only if it is a text of that document
(`Document.ofText?_eq_some_iff`).  One direction is said in `JsonReading`.  For the other one an
invariant goes along the text: what has been read so far leads, in the grammar, to where the reader
is (`Reached`).  It holds the containers that are open, each with the items or fields that have been
read of it, and every token keeps it (`Reached.lexeme`).
-/
import TreeWalk.Proofs.JsonLexemes
import TreeWalk.Proofs.JsonReading

namespace TreeWalk.Json

open Document (Expected Frame step)

/-! ### What has been read of a container -/

/-- Items of an array, the last one first, with what has been read of them: each one and the comma
behind it. -/
inductive ItemsRead : List Document → List Char → Prop
  | nil : ItemsRead [] []
  | cons {d : Document} {items : List Document} {done before cs behind : List Char}
      (h : ItemsRead items done) (hbefore : Blanks before) (hd : Written d cs)
      (hbehind : Blanks behind) :
      ItemsRead (d :: items) (done ++ (before ++ (cs ++ (behind ++ [',']))))

/-- Fields of an object, the last one first, with what has been read of them: each one and the comma
behind it. -/
inductive FieldsRead : List (Option String × Document) → List Char → Prop
  | nil : FieldsRead [] []
  | cons {f : Option String × Document} {fields : List (Option String × Document)}
      {done cs : List Char} (h : FieldsRead fields done) (hf : WrittenField f cs) :
      FieldsRead (f :: fields) (done ++ (cs ++ [',']))

/-- Items that have been read are followed by at least one more. -/
lemma ItemsRead.written {items : List Document} {done : List Char} (h : ItemsRead items done)
    {d : Document} {more : List Document} {cs : List Char} (hmore : WrittenItems (d :: more) cs) :
    WrittenItems (items.reverse ++ d :: more) (done ++ cs) := by
  induction h generalizing d more cs with
  | nil => exact hmore
  | cons _ hbefore hd hbehind ih => simpa using ih (.cons hbefore hd hbehind hmore)

/-- Fields that have been read are followed by at least one more. -/
lemma FieldsRead.written {fields : List (Option String × Document)} {done : List Char}
    (h : FieldsRead fields done) {f : Option String × Document}
    {more : List (Option String × Document)} {cs : List Char}
    (hmore : WrittenFields (f :: more) cs) :
    WrittenFields (fields.reverse ++ f :: more) (done ++ cs) := by
  induction h generalizing f more cs with
  | nil => exact hmore
  | cons _ hf ih => simpa using ih (.cons hf hmore)

/-- What has been read before a document in the open containers. -/
inductive Opened : List Frame → List Char → Prop
  | nil : Opened [] []
  | array {items : List Document} {outer : List Frame} {done before inner : List Char}
      (h : Opened outer done) (hbefore : Blanks before) (hitems : ItemsRead items inner) :
      Opened (.array items :: outer) (done ++ (before ++ '[' :: inner))
  | object {fields : List (Option String × Document)} {key : Option String} {outer : List Frame}
      {done before inner ws₁ ks ws₂ : List Char} (h : Opened outer done) (hbefore : Blanks before)
      (hfields : FieldsRead fields inner) (h₁ : Blanks ws₁) (hkey : Spelled key ks)
      (h₂ : Blanks ws₂) :
      Opened (.object fields key :: outer)
        (done ++ (before ++ '\x7b' :: (inner ++ (ws₁ ++ '"' :: (ks ++ '"' :: (ws₂ ++ [':']))))))

/-- What has been read where the reader expects `e`. -/
inductive Reached : Expected → List Char → Prop
  | item {outer : List Frame} {done before : List Char} (h : Opened outer done)
      (hbefore : Blanks before) : Reached (.item outer) (done ++ before)
  | key {fields : List (Option String × Document)} {outer : List Frame}
      {done before inner ws : List Char} (h : Opened outer done) (hbefore : Blanks before)
      (hfields : FieldsRead fields inner) (hws : Blanks ws) :
      Reached (.key fields outer) (done ++ (before ++ '\x7b' :: (inner ++ ws)))
  | colon {fields : List (Option String × Document)} {key : Option String} {outer : List Frame}
      {done before inner ws₁ ks ws₂ : List Char} (h : Opened outer done) (hbefore : Blanks before)
      (hfields : FieldsRead fields inner) (h₁ : Blanks ws₁) (hkey : Spelled key ks)
      (h₂ : Blanks ws₂) :
      Reached (.colon fields key outer)
        (done ++ (before ++ '\x7b' :: (inner ++ (ws₁ ++ '"' :: (ks ++ '"' :: ws₂)))))
  | rest {d : Document} {outer : List Frame} {done before cs behind : List Char}
      (h : Opened outer done) (hbefore : Blanks before) (hd : Written d cs)
      (hbehind : Blanks behind) :
      Reached (.rest d outer) (done ++ (before ++ (cs ++ behind)))

lemma Blanks.concat {ws : List Char} (hws : Blanks ws) {c : Char} (hc : isBlank c = true) :
    Blanks (ws ++ [c]) := by
  intro d hd
  rcases List.mem_append.mp hd with hd | hd
  · exact hws d hd
  · rw [List.mem_singleton.mp hd]
    simpa [isBlank, or_assoc] using hc

namespace Reached

variable {e e' : Expected} {outer : List Frame} {done cs : List Char} {d : Document}
  {items : List Document} {fields : List (Option String × Document)} {key : Option String}

lemma blank (h : Reached e done) {c : Char} (hc : isBlank c = true) : Reached e (done ++ [c]) := by
  cases h with
  | item h hbefore =>
    have hread := Reached.item h (hbefore.concat hc)
    simpa using hread
  | key h hbefore hfields hws =>
    have hread := Reached.key h hbefore hfields (hws.concat hc)
    simpa using hread
  | colon h hbefore hfields h₁ hkey h₂ =>
    have hread := Reached.colon h hbefore hfields h₁ hkey (h₂.concat hc)
    simpa using hread
  | rest h hbefore hd hbehind =>
    have hread := Reached.rest h hbefore hd (hbehind.concat hc)
    simpa using hread

/-! ### Tokens -/

lemma document (h : Reached (.item outer) done) (hd : Written d cs) :
    Reached (.rest d outer) (done ++ cs) := by
  cases h with
  | item h hbefore =>
    have hread := Reached.rest h hbefore hd .nil
    simpa using hread

lemma openArray (h : Reached (.item outer) done) :
    Reached (.item (.array [] :: outer)) (done ++ ['[']) := by
  cases h with
  | item h hbefore =>
    have hread := Reached.item (.array h hbefore .nil) .nil
    simpa using hread

lemma openObject (h : Reached (.item outer) done) : Reached (.key [] outer) (done ++ ['\x7b']) := by
  cases h with
  | item h hbefore =>
    have hread := Reached.key h hbefore .nil .nil
    simpa using hread

lemma emptyArray (h : Reached (.item (.array [] :: outer)) done) :
    Reached (.rest (.array []) outer) (done ++ [']']) := by
  cases h with
  | item h hblanks =>
    cases h with
    | array h hbefore hitems =>
      cases hitems
      have hread := Reached.rest h hbefore (.array (.none hblanks)) .nil
      simpa using hread

lemma emptyObject (h : Reached (.key [] outer) done) :
    Reached (.rest (.object []) outer) (done ++ ['\x7d']) := by
  cases h with
  | key h hbefore hfields hblanks =>
    cases hfields
    have hread := Reached.rest h hbefore (.object (.none hblanks)) .nil
    simpa using hread

lemma fieldKey (h : Reached (.key fields outer) done) (hkey : Spelled key cs) :
    Reached (.colon fields key outer) (done ++ '"' :: (cs ++ ['"'])) := by
  cases h with
  | key h hbefore hfields hws =>
    have hread := Reached.colon h hbefore hfields hws hkey .nil
    simpa using hread

lemma fieldColon (h : Reached (.colon fields key outer) done) :
    Reached (.item (.object fields key :: outer)) (done ++ [':']) := by
  cases h with
  | colon h hbefore hfields h₁ hkey h₂ =>
    have hread := Reached.item (.object h hbefore hfields h₁ hkey h₂) .nil
    simpa using hread

lemma nextItem (h : Reached (.rest d (.array items :: outer)) done) :
    Reached (.item (.array (d :: items) :: outer)) (done ++ [',']) := by
  cases h with
  | rest h hbefore hd hbehind =>
    cases h with
    | array h houter hitems =>
      have hread := Reached.item (.array h houter (.cons hitems hbefore hd hbehind)) .nil
      simpa using hread

lemma closeArray (h : Reached (.rest d (.array items :: outer)) done) :
    Reached (.rest (.array (d :: items).reverse) outer) (done ++ [']']) := by
  cases h with
  | rest h hbefore hd hbehind =>
    cases h with
    | array h houter hitems =>
      have hall := hitems.written (.last hbefore hd hbehind)
      have hread := Reached.rest h houter (.array hall) .nil
      simpa using hread

lemma nextField (h : Reached (.rest d (.object fields key :: outer)) done) :
    Reached (.key ((key, d) :: fields) outer) (done ++ [',']) := by
  cases h with
  | rest h hbefore hd hbehind =>
    cases h with
    | object h houter hfields h₁ hkey h₂ =>
      have hfield := WrittenField.intro h₁ hkey h₂ hbefore hd hbehind
      have hread := Reached.key h houter (.cons hfields hfield) .nil
      simpa using hread

lemma closeObject (h : Reached (.rest d (.object fields key :: outer)) done) :
    Reached (.rest (.object ((key, d) :: fields).reverse) outer) (done ++ ['\x7d']) := by
  cases h with
  | rest h hbefore hd hbehind =>
    cases h with
    | object h houter hfields h₁ hkey h₂ =>
      have hfield := WrittenField.intro h₁ hkey h₂ hbefore hd hbehind
      have hall := hfields.written (.last hfield)
      have hread := Reached.rest h houter (.object hall) .nil
      simpa using hread

/-- A token leads from where the reader is to where it is next. -/
lemma lexeme (h : Reached e done) {t : Token} (ht : Lexeme t cs) (hstep : step e t = some e') :
    Reached e' (done ++ cs) := by
  -- one case for each token that the reader goes on with, in the order of `step`
  unfold step at hstep
  split at hstep <;> cases hstep <;> cases ht
  · exact h.document .null
  · exact h.document .true
  · exact h.document .false
  · exact h.document (.natural _)
  · next hnumber => exact h.document (.number hnumber)
  · next hspelled => exact h.document (.string hspelled)
  · exact h.openArray
  · exact h.openObject
  · exact h.emptyArray
  · next hspelled => exact h.fieldKey hspelled
  · exact h.emptyObject
  · exact h.fieldColon
  · exact h.nextItem
  · exact h.closeArray
  · exact h.nextField
  · exact h.closeObject

/-- The tokens of a text lead from where the reader is to where it is behind the text. -/
lemma tokens {n : Nat} {ts : List Token} (hts : tokensWithin n cs = some ts)
    (hstep : ts.foldlM step e = some e') (h : Reached e done) : Reached e' (done ++ cs) := by
  fun_induction tokensWithin n cs generalizing e done ts with
  | case1 =>
    cases hts
    cases hstep
    simpa using h
  | case2 => cases hts
  | case3 n c rest hc ih => simpa using ih hts hstep (h.blank hc)
  | case4 n c rest hc ih =>
    obtain ⟨⟨t, rest'⟩, ht, hts⟩ := Option.bind_eq_some_iff.mp hts
    obtain ⟨ts', hts', heq⟩ := Option.bind_eq_some_iff.mp hts
    cases heq
    obtain ⟨front, hfront, hcs⟩ := exists_lexeme ht
    rw [List.foldlM_cons] at hstep
    obtain ⟨e₁, he₁, hstep⟩ := Option.bind_eq_some_iff.mp hstep
    rw [hcs, ← List.append_assoc]
    exact ih rest' hts' hstep (h.lexeme hfront he₁)

/-- Where nothing is open any more the whole text is one of the document that has been read. -/
lemma written (h : Reached (.rest d []) done) : ∃ before cs behind, Blanks before ∧ Written d cs ∧
    Blanks behind ∧ done = before ++ (cs ++ behind) := by
  cases h with
  | rest h hbefore hd hbehind =>
    cases h
    exact ⟨_, _, _, hbefore, hd, hbehind, rfl⟩

end Reached

/-- A text that is read as a document is a text of that document. -/
lemma Document.isWrittenAs_of_ofText? {d : Document} {s : String}
    (h : Document.ofText? s = some d) : d.IsWrittenAs s := by
  obtain ⟨ts, hts, h⟩ := Option.bind_eq_some_iff.mp h
  obtain ⟨e, he, hfinish⟩ := Option.bind_eq_some_iff.mp h
  -- at the start nothing is open and nothing has been read
  have hread : Reached e ([] ++ s.toList) := Reached.tokens hts he (.item .nil .nil)
  unfold finish at hfinish
  split at hfinish
  · cases hfinish
    exact hread.written
  · cases hfinish

/-- The texts that are read as a document are those of the document. -/
theorem Document.ofText?_eq_some_iff {d : Document} {s : String} :
    Document.ofText? s = some d ↔ d.IsWrittenAs s :=
  ⟨isWrittenAs_of_ofText?, ofText?_eq⟩

end TreeWalk.Json
