/-
# The texts of spans

A span is read from the texts of two shapes and from no others (`ofText?_exact`): from those of an
object that has each of the four fields once, with a number of 32 bits, among any other fields and
in any order, and from those of an array of the four numbers.  Nothing has a default: a field that
is left out, repeated or out of range is refused.  The encoding of a span is one of its texts, so
what has been read can be written and read again.
-/
import TreeWalk.Fault
import TreeWalk.Proofs.JsonExact
import TreeWalk.Proofs.JsonFields
import TreeWalk.Span.Reading

namespace TreeWalk.Span

open Json (Document)
open Json.Document (named under)

/-- The fields of a span. -/
inductive Field where
  | startLine
  | startCol
  | endLine
  | endCol
deriving DecidableEq, Repr

namespace Field

/-- The fields in their order. -/
def all : List Field := [.startLine, .startCol, .endLine, .endCol]

/-- The name of a field in the texts of spans. -/
def name : Field → String
  | .startLine => "start_line"
  | .startCol => "start_col"
  | .endLine => "end_line"
  | .endCol => "end_col"

end Field

/-- The number in a field. -/
def get (s : Span) : Field → UInt32
  | .startLine => s.startLine
  | .startCol => s.startCol
  | .endLine => s.endLine
  | .endCol => s.endCol

/-- The number in a field as it stands in a document. -/
def value (s : Span) (f : Field) : Document := .natural (s.get f).toNat

/-- The encoding of a span, without blanks. -/
def encoding (s : Span) : String :=
  "\x7b" ++ String.intercalate "," (Field.all.map fun f =>
    "\"" ++ f.name ++ "\":" ++ Nat.repr (s.get f).toNat) ++ "\x7d"

/-- What a document has to be in order to describe a span. -/
inductive Describes (s : Span) : Document → Prop
  | object {fields : List (String × Document)}
      (h : ∀ f : Field, under fields f.name = [s.value f]) : Describes s (.object (named fields))
  | array : Describes s (.array (Field.all.map s.value))

variable {s : Span} {d : Document} {text : String}

lemma document_json (s : Span) :
    s.json.document = .object (named (Field.all.map fun f => (f.name, s.value f))) := rfl

lemma describes_json (s : Span) : s.Describes s.json.document :=
  document_json s ▸ .object fun f => by cases f <;> rfl

/-! ### Documents -/

/-- The numbers of 32 bits are read, each from its own document. -/
lemma word?_eq_some_iff {n : UInt32} : word? d = some n ↔ d = .natural n.toNat := by
  cases d with
  | natural m =>
    rw [word?, Document.natural.injEq]
    split_ifs with hm
    · rw [Option.some.injEq, ← UInt32.toNat_inj, UInt32.toNat_ofNat_of_lt' hm]
    · refine ⟨nofun, ?_⟩
      rintro rfl
      exact absurd n.toNat_lt_size hm
  | _ => simp [word?]

lemma wordField?_named_eq_some_iff {fields : List (String × Document)} {key : String} {n : UInt32} :
    wordField? (named fields) key = some n ↔ under fields key = [.natural n.toNat] := by
  constructor
  · intro h
    obtain ⟨found, hfound, h⟩ := Option.bind_eq_some_iff.mp h
    obtain ⟨d, rfl, hd⟩ := Option.bind_eq_some_iff.mp h
    rw [Json.Document.field?_named_eq_some_iff.mp hfound, word?_eq_some_iff.mp hd]
    rfl
  · intro h
    have hfound : Document.field? (named fields) key = some (some (.natural n.toNat)) :=
      Json.Document.field?_named h
    simp [wordField?, hfound, word?_eq_some_iff]

lemma ofDocument?_object_eq_some_iff {fields : List (Option String × Document)} :
    ofDocument? (.object fields) = some s ↔
      ∃ fields', fields = named fields' ∧ ∀ f : Field, under fields' f.name = [s.value f] := by
  constructor
  · intro h
    unfold ofDocument? at h
    dsimp only at h
    split at h
    · next hkeys =>
      obtain ⟨fields', rfl⟩ := Json.Document.exists_named hkeys
      simp only [Option.bind_eq_bind, Option.bind_eq_some_iff, Option.pure_def,
        wordField?_named_eq_some_iff] at h
      obtain ⟨a, ha, b, hb, c, hc, d, hd, h⟩ := h
      cases h
      exact ⟨fields', rfl, fun f => by cases f <;> assumption⟩
    · cases h
  · rintro ⟨fields', rfl, h⟩
    have hstartLine := wordField?_named_eq_some_iff.mpr (h .startLine)
    have hstartCol := wordField?_named_eq_some_iff.mpr (h .startCol)
    have hendLine := wordField?_named_eq_some_iff.mpr (h .endLine)
    have hendCol := wordField?_named_eq_some_iff.mpr (h .endCol)
    simp only [Field.name] at hstartLine hstartCol hendLine hendCol
    simp [ofDocument?, hstartLine, hstartCol, hendLine, hendCol, get]

lemma ofDocument?_array_eq_some_iff {items : List Document} :
    ofDocument? (.array items) = some s ↔ items = Field.all.map s.value := by
  constructor
  · intro h
    unfold ofDocument? at h
    split at h
    · next heq => cases heq
    · next a b c d heq =>
      cases heq
      simp only [Option.bind_eq_bind, Option.bind_eq_some_iff, Option.pure_def,
        word?_eq_some_iff] at h
      obtain ⟨a, rfl, b, rfl, c, rfl, d, rfl, h⟩ := h
      cases h
      rfl
    · cases h
  · rintro rfl
    have hword (f : Field) : word? (s.value f) = some (s.get f) := word?_eq_some_iff.mpr rfl
    simp [Field.all, ofDocument?, hword, get]

/-- The documents that describe a span are read as it, and no others. -/
lemma ofDocument?_eq_some_iff : ofDocument? d = some s ↔ s.Describes d := by
  constructor
  · intro h
    cases d with
    | object fields =>
      obtain ⟨fields', rfl, hfields⟩ := ofDocument?_object_eq_some_iff.mp h
      exact .object hfields
    | array items =>
      obtain rfl := ofDocument?_array_eq_some_iff.mp h
      exact .array
    | _ => cases h
  · intro h
    cases h with
    | object hfields => exact ofDocument?_object_eq_some_iff.mpr ⟨_, rfl, hfields⟩
    | array => exact ofDocument?_array_eq_some_iff.mpr rfl

namespace Describes

/-- Each field stands in the object once. -/
lemma filter_eq {fields : List (Option String × Document)} (h : s.Describes (.object fields))
    (f : Field) : (fields.filter fun e => e.1 = some f.name) = [(some f.name, s.value f)] := by
  cases h with
  | object hfields =>
    rw [Json.Document.filter_named, hfields f]
    rfl

lemma mem_iff {fields : List (Option String × Document)} (h : s.Describes (.object fields))
    (f : Field) : (some f.name, d) ∈ fields ↔ d = s.value f := by
  have hmem : (some f.name, d) ∈ fields ↔
      (some f.name, d) ∈ fields.filter fun e => e.1 = some f.name := by simp
  rw [hmem, h.filter_eq f]
  simp

end Describes

/-! ### Texts -/

lemma ofText?_eq_some_iff : ofText? text = some s ↔ ∃ d, s.Describes d ∧ d.IsWrittenAs text := by
  rw [ofText?, Option.bind_eq_bind, Option.bind_eq_some_iff]
  simp only [Document.ofText?_eq_some_iff, ofDocument?_eq_some_iff, and_comm]

/-- A text of a document that describes no span is refused. -/
lemma ofText?_eq_none (hd : d.IsWrittenAs text) (h : ∀ s, ¬ Describes s d) :
    ofText? text = none := by
  refine Option.eq_none_iff_forall_ne_some.mpr fun s hs => ?_
  rw [ofText?, Document.ofText?_eq_some_iff.mpr hd] at hs
  exact h s (ofDocument?_eq_some_iff.mp hs)

/-- A field of an encoding has no blanks and no escapes. -/
lemma written_field (s : Span) (f : Field) : Json.WrittenField (some f.name, s.value f)
    ("\"" ++ f.name ++ "\":" ++ Nat.repr (s.get f).toNat).toList := by
  have hplain : ∀ c ∈ f.name.toList, 0x20 ≤ c.toNat ∧ c ≠ '"' ∧ c ≠ '\\' := by
    cases f <;> simp [Field.name]
  have hfield := Json.WrittenField.intro .nil (.plain hplain) .nil .nil
    (.natural (s.get f).toNat) .nil
  simpa [value, Nat.repr_eq_ofList_toDigits] using hfield

/-- The encoding of a span is a text of its fields. -/
lemma isWrittenAs_encoding (s : Span) : s.json.document.IsWrittenAs s.encoding := by
  have hfields := Json.WrittenFields.cons (s.written_field .startLine)
    (.cons (s.written_field .startCol)
      (.cons (s.written_field .endLine) (.last (s.written_field .endCol))))
  refine ⟨[], s.encoding.toList, [], .nil, ?_, .nil, by simp⟩
  have hobject := Json.Written.object hfields
  simpa [document_json, named, encoding, Field.all, String.toList_intercalate,
    List.intercalate_cons_cons] using hobject

/-- The texts of spans are those of an object that has each field once, among others and in any
order, with a number of 32 bits, and those of an array of the four numbers.  A text of an object is
refused if a field is missing in it, repeated or no such number, and a text of an array if that is
not made of four of them; whatever is read describes the span that comes of it.  The encoding of a
span is one of its texts, so it is read as that span, and so are all other texts of the encoded
data. -/
theorem ofText?_exact :
    (∀ (s : Span) (fields : List (String × Document)) (text : String),
      (∀ f : Field, under fields f.name = [s.value f]) →
      (Document.object (named fields)).IsWrittenAs text → ofText? text = some s) ∧
    (∀ (s : Span) (text : String),
      (Document.array (Field.all.map s.value)).IsWrittenAs text → ofText? text = some s) ∧
    (∀ (f : Field) (fields : List (Option String × Document)) (text : String),
      (Document.object fields).IsWrittenAs text →
      (∀ d, (some f.name, d) ∉ fields) ∨
        2 ≤ (fields.filter fun e => e.1 = some f.name).length ∨
        (∃ d, (some f.name, d) ∈ fields ∧ ∀ n : UInt32, d ≠ .natural n.toNat) →
      ofText? text = none) ∧
    (∀ (items : List Document) (text : String), (Document.array items).IsWrittenAs text →
      items.length ≠ 4 ∨ (∃ d ∈ items, ∀ n : UInt32, d ≠ .natural n.toNat) →
      ofText? text = none) ∧
    (∀ (s : Span) (text : String), ofText? text = some s →
      (∃ d, s.Describes d ∧ d.IsWrittenAs text) ∧ ofText? s.encoding = some s) ∧
    ∀ s : Span, s.json.document.IsWrittenAs s.encoding ∧
      ∀ text, s.json.document.IsWrittenAs text → ofText? text = some s := by
  have hencoding (s : Span) (text : String) (h : s.json.document.IsWrittenAs text) :
      ofText? text = some s := ofText?_eq_some_iff.mpr ⟨_, s.describes_json, h⟩
  refine ⟨fun s fields text hfields h => ?_, fun s text h => ?_,
    fun f fields text h hrefused => ?_, fun items text h hrefused => ?_,
    fun s text h => ⟨ofText?_eq_some_iff.mp h, hencoding s _ s.isWrittenAs_encoding⟩,
    fun s => ⟨s.isWrittenAs_encoding, hencoding s⟩⟩
  · exact ofText?_eq_some_iff.mpr ⟨_, .object hfields, h⟩
  · exact ofText?_eq_some_iff.mpr ⟨_, .array, h⟩
  · refine ofText?_eq_none h fun s hs => ?_
    rcases hrefused with hmissing | hrepeated | ⟨d, hd, hrange⟩
    · exact hmissing _ ((hs.mem_iff f).mpr rfl)
    · rw [hs.filter_eq f] at hrepeated
      simp at hrepeated
    · exact hrange (s.get f) ((hs.mem_iff f).mp hd)
  · refine ofText?_eq_none h fun s hs => ?_
    cases hs
    rcases hrefused with hlength | ⟨d, hd, hrange⟩
    · exact hlength rfl
    · obtain ⟨f, -, rfl⟩ := List.mem_map.mp hd
      exact hrange (s.get f) rfl

/-- The fields in another order with an escape in the name of one, an unknown field with a field of
a span inside, and the largest number; the array of the numbers; and texts that are refused: without
a field, with a field that is repeated, and with a number that is too large. -/
theorem ofText?_exact_reordered :
    let s : Span := ⟨2, 4, 4294967295, 9⟩
    ofText? ("\x7b \"end_col\":9,\"x\":[-0, \x7b\"end_col\":1e9\x7d],\n\"start_line\" :2," ++
      "\"\\u0073tart_col\":4,\"end_line\":4294967295\x7d") = some s ∧
    ofText? "[2,4,4294967295, 9]" = some s ∧ ofText? s.encoding = some s ∧
    ofText? "\x7b\"start_line\":2,\"start_col\":4,\"end_line\":5\x7d" = none ∧
    ofText? ("\x7b\"start_line\":2,\"start_col\":4,\"end_line\":5,\"end_col\":9," ++
      "\"end_col\":9\x7d") = none ∧
    ofText? "[2,4,4294967296,9]" = none := by
  intro s
  obtain ⟨hobject, harray, hfields, hitems, hread, -⟩ := ofText?_exact
  have hnumbers : ofText? "[2,4,4294967295, 9]" = some s :=
    harray s _ (Document.ofText?_eq_some_iff.mp (by rfl))
  refine ⟨?_, hnumbers, (hread s _ hnumbers).2, ?_, ?_, ?_⟩
  · exact hobject s [("end_col", .natural 9),
      ("x", .array [.number, .object [(some "end_col", .number)]]), ("start_line", .natural 2),
      ("start_col", .natural 4), ("end_line", .natural 4294967295)] _
      (fun f => by cases f <;> rfl) (Document.ofText?_eq_some_iff.mp (by rfl))
  · exact hfields .endCol [(some "start_line", .natural 2), (some "start_col", .natural 4),
      (some "end_line", .natural 5)] _ (Document.ofText?_eq_some_iff.mp (by rfl))
      (.inl (by simp [Field.name]))
  · exact hfields .endCol [(some "start_line", .natural 2), (some "start_col", .natural 4),
      (some "end_line", .natural 5), (some "end_col", .natural 9), (some "end_col", .natural 9)] _
      (Document.ofText?_eq_some_iff.mp (by rfl)) (.inr (.inl (by decide)))
  · refine hitems [.natural 2, .natural 4, .natural 4294967296, .natural 9] _
      (Document.ofText?_eq_some_iff.mp (by rfl)) (.inr ⟨.natural 4294967296, by simp, fun n => ?_⟩)
    have hn : n.toNat < 4294967296 := n.toNat_lt_size
    exact fun heq => absurd (Document.natural.inj heq) hn.ne'

end TreeWalk.Span
