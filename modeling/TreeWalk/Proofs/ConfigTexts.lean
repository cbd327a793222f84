/-
# The texts of configurations

Whatever text of the grammar a host has for a configuration, the configuration is read from it: the
fields may stand in any order among any others, and blanks and escapes are free.  A field that is
left out has its default, a field that is repeated is refused, and an array holds the values of the
first fields in their order (`ofText?_of_written`).
-/
import TreeWalk.Config.Reading
import TreeWalk.Proofs.JsonFields
import TreeWalk.Proofs.JsonReading

namespace TreeWalk

namespace Config

open Json (Document)
open Json.Document (named under)

/-- The fields of a configuration. -/
inductive Field where
  | maxCallDepth
  | stepLimit
  | arity
deriving DecidableEq, Repr

namespace Field

/-- The fields in their order. -/
def all : List Field := [.maxCallDepth, .stepLimit, .arity]

/-- The name of a field in configuration texts. -/
def name : Field → String
  | .maxCallDepth => "max_call_depth"
  | .stepLimit => "step_limit"
  | .arity => "arity"

end Field

variable {c : Config} {given : List Field} {fields : List (String × Document)}
  {items : List Document}

/-- The value of a field as data. -/
def value (c : Config) : Field → Json
  | .maxCallDepth => .number c.maxCallDepth.toNat
  | .stepLimit => match c.stepLimit with
    | some limit => .number limit.toNat
    | none => .null
  | .arity => .string c.arity.key

/-- The configuration with the given fields of `c` and the defaults of the others. -/
def only (c : Config) (given : List Field) : Config where
  maxCallDepth := if .maxCallDepth ∈ given then c.maxCallDepth else ({} : Config).maxCallDepth
  stepLimit := if .stepLimit ∈ given then c.stepLimit else ({} : Config).stepLimit
  arity := if .arity ∈ given then c.arity else ({} : Config).arity

/-- The value that stands under a field when only the given ones are written. -/
def given? (c : Config) (given : List Field) (f : Field) : Option Document :=
  if f ∈ given then some (c.value f).document else none

@[simp] lemma only_all (c : Config) : c.only Field.all = c := rfl

lemma document_json (c : Config) : c.json.document =
    .object (named (Field.all.map fun f => (f.name, (c.value f).document))) := rfl

/-! ### Values -/

lemma word?_document (n : UInt64) : word? (Json.document (.number n.toNat)) = some n := by
  simp [Json.document, word?, n.toNat_lt_size]

lemma limit?_document (c : Config) : limit? (c.value .stepLimit).document = some c.stepLimit := by
  cases hlimit : c.stepLimit with
  | none => simp [value, hlimit, Json.document, limit?]
  | some n =>
    have hn : word? (.natural n.toNat) = some n := word?_document n
    simp [value, hlimit, Json.document, limit?, hn]

lemma policy?_document (p : ArityPolicy) :
    policy? (Json.document (.string p.key)) = some p := by
  cases p <;> rfl

/-- Each field is read from its own value, or has its default. -/
lemma ofFields?_given? (c : Config) (given : List Field) :
    ofFields? (c.given? given .maxCallDepth) (c.given? given .stepLimit)
      (c.given? given .arity) = some (c.only given) := by
  have hdepth : fieldOr word? ({} : Config).maxCallDepth (c.given? given .maxCallDepth) =
      some (c.only given).maxCallDepth := by
    unfold given? only
    split <;> simp [fieldOr, value, word?_document]
  have hlimit : fieldOr limit? ({} : Config).stepLimit (c.given? given .stepLimit) =
      some (c.only given).stepLimit := by
    unfold given? only
    split <;> simp [fieldOr, limit?_document]
  have harity : fieldOr policy? ({} : Config).arity (c.given? given .arity) =
      some (c.only given).arity := by
    unfold given? only
    split <;> simp [fieldOr, value, policy?_document]
  simp only [ofFields?, hdepth, hlimit, harity, Option.bind_eq_bind, Option.bind_some,
    Option.pure_def]

/-! ### Documents -/

/-- An object in which no field of a configuration is repeated. -/
lemma ofDocument?_named {value? : Field → Option Document}
    (h : ∀ f : Field, under fields f.name = (value? f).toList) :
    ofDocument? (.object (named fields)) =
      ofFields? (value? .maxCallDepth) (value? .stepLimit) (value? .arity) := by
  have hdepth := Json.Document.field?_named (h .maxCallDepth)
  have hlimit := Json.Document.field?_named (h .stepLimit)
  have harity := Json.Document.field?_named (h .arity)
  simp only [Field.name] at hdepth hlimit harity
  simp [ofDocument?, hdepth, hlimit, harity]

/-- An object in which a field of a configuration is repeated. -/
lemma ofDocument?_repeated {f : Field} (h : 2 ≤ (under fields f.name).length) :
    ofDocument? (.object (named fields)) = none := by
  have hnone := Json.Document.field?_named_eq_none h
  cases f <;> simp only [Field.name] at hnone <;> simp [ofDocument?, hnone]

/-- An array with the values of the first fields. -/
lemma ofDocument?_array (h : items.length ≤ 3) :
    ofDocument? (.array items) = ofFields? items[0]? items[1]? items[2]? := by
  simp [ofDocument?, h]

/-! ### Texts -/

lemma ofText?_of_isWrittenAs {d : Document} {text : String} (h : d.IsWrittenAs text) :
    ofText? text = ofDocument? d := by
  rw [ofText?, Json.Document.ofText?_eq h]
  rfl

/-- A configuration is read from every text that has it.  An encoding is read as what was encoded,
and so is every object that has each field once, among any others; what is left out has its default,
and what is repeated is refused.  An array with the values of the first fields is read like the
object that has these values in its fields, and no array is longer. -/
theorem ofText?_of_written :
    (∀ (c : Config) (text : String), c.json.document.IsWrittenAs text → ofText? text = some c) ∧
    (∀ (c : Config) (fields : List (String × Document)) (text : String),
      (∀ f : Field, under fields f.name = [(c.value f).document]) →
      (Document.object (named fields)).IsWrittenAs text → ofText? text = some c) ∧
    (∀ (c : Config) (given : List Field) (fields : List (String × Document)) (text : String),
      (∀ f : Field, under fields f.name = if f ∈ given then [(c.value f).document] else []) →
      (Document.object (named fields)).IsWrittenAs text → ofText? text = some (c.only given)) ∧
    (∀ (f : Field) (fields : List (String × Document)) (text : String),
      2 ≤ (under fields f.name).length →
      (Document.object (named fields)).IsWrittenAs text → ofText? text = none) ∧
    (∀ (c : Config) (k : Nat) (text : String),
      (Document.array ((Field.all.take k).map fun f => (c.value f).document)).IsWrittenAs text →
      ofText? text = some (c.only (Field.all.take k))) ∧
    (∀ (items : List Document) (fields : List (String × Document)) (text text' : String),
      items.length ≤ 3 →
      (∀ i (hi : i < Field.all.length), under fields Field.all[i].name = items[i]?.toList) →
      (Document.array items).IsWrittenAs text →
      (Document.object (named fields)).IsWrittenAs text' → ofText? text = ofText? text') ∧
    ∀ (items : List Document) (text : String), 3 < items.length →
      (Document.array items).IsWrittenAs text → ofText? text = none := by
  have hall (c : Config) (fields : List (String × Document)) (text : String)
      (hfields : ∀ f : Field, under fields f.name = [(c.value f).document])
      (h : (Document.object (named fields)).IsWrittenAs text) : ofText? text = some c := by
    have hvalues (f : Field) : under fields f.name = (c.given? Field.all f).toList := by
      rw [hfields]
      cases f <;> rfl
    rw [ofText?_of_isWrittenAs h, ofDocument?_named hvalues, ofFields?_given?, only_all]
  refine ⟨fun c text h => ?_, hall, fun c given fields text hfields h => ?_,
    fun f fields text hrepeated h => ?_, fun c k text h => ?_,
    fun items fields text text' hlength hfields h h' => ?_, fun items text hlength h => ?_⟩
  · exact hall c _ text (fun f => by cases f <;> rfl) (c.document_json ▸ h)
  · have hvalues (f : Field) : under fields f.name = (c.given? given f).toList := by
      rw [hfields, given?]
      split <;> rfl
    rw [ofText?_of_isWrittenAs h, ofDocument?_named hvalues, ofFields?_given?]
  · rw [ofText?_of_isWrittenAs h, ofDocument?_repeated hrepeated]
  · rw [ofText?_of_isWrittenAs h, ofDocument?_array (by simp [Field.all]), ← ofFields?_given?]
    rcases k with _ | _ | _ | k <;> simp [Field.all, given?]
  · let value? : Field → Option Document
      | .maxCallDepth => items[0]?
      | .stepLimit => items[1]?
      | .arity => items[2]?
    have hvalues (f : Field) : under fields f.name = (value? f).toList := by
      cases f
      · exact hfields 0 (by decide)
      · exact hfields 1 (by decide)
      · exact hfields 2 (by decide)
    rw [ofText?_of_isWrittenAs h, ofText?_of_isWrittenAs h', ofDocument?_array hlength,
      ofDocument?_named hvalues]
  · rw [ofText?_of_isWrittenAs h, ofDocument?]
    simp [Nat.not_le.mpr hlength]

/-- Two fields, one of them with an escape in its name, among others: one that is repeated, with a
number that has an exponent and the name of a known field inside. -/
theorem ofText?_of_written_among_others :
    ofText? ("\x7b\"x\": [-1.5e3, \x7b\"arity\":0\x7d], \"\\u0061rity\":\"strict\"," ++
      "\"x\":null, \"step_limit\":9 \x7d") = some ⟨1024, some 9, .strict⟩ := by
  have hblank : Json.Blanks [' '] := by simp [Json.Blanks]
  have hplain (s : String) (h : ∀ c ∈ s.toList, 0x20 ≤ c.toNat ∧ c ≠ '"' ∧ c ≠ '\\') :
      Json.Spelled (some s) s.toList := .plain h
  have hfraction : Json.Fraction ['.', '5'] := .intro ⟨by decide, by simp⟩
  have hexponent : Json.Exponent ['e', '3'] := .plain (.inl rfl) ⟨by decide, by simp⟩
  have hnumber : Json.Written .number _ :=
    .number (.intro 1 (.inr rfl) (.inr hfraction) (.inr hexponent) (.inl (by decide)))
  have hinner : Json.Written (.object [(some "arity", .natural 0)]) _ :=
    .object (.last (.intro .nil (hplain "arity" (by simp)) .nil .nil (.natural 0) .nil))
  have hfirst : Json.WrittenField (some "x", .array [.number, _]) _ :=
    .intro .nil (hplain "x" (by simp)) .nil hblank
      (.array (.cons .nil hnumber .nil (.last hblank hinner .nil))) .nil
  have hrity : Json.Units ("rity".toList.map Char.toNat) "rity".toList := by
    iterate 4 refine .plain (by decide) (by decide) (by decide) ?_
    exact .nil
  have hkey : Json.Spelled (some "arity") _ :=
    .text (.code (i := 0) (j := 0) (k := 6) (l := 1) (.inl rfl) (.inl rfl) (.inl rfl) (.inl rfl)
      hrity) (.single (.single (.single (.single (.single .nil)))))
  have harity : Json.WrittenField (some "arity", .string (some "strict")) _ :=
    .intro hblank hkey .nil .nil (.string (hplain "strict" (by simp))) .nil
  have hagain : Json.WrittenField (some "x", .null) _ :=
    .intro .nil (hplain "x" (by simp)) .nil .nil .null .nil
  have hlimit : Json.WrittenField (some "step_limit", .natural 9) _ :=
    .intro hblank (hplain "step_limit" (by simp)) .nil .nil (.natural 9) hblank
  exact ofText?_of_written.2.2.1 ⟨0, some 9, .strict⟩ [.stepLimit, .arity]
    [("x", .array [.number, .object [(some "arity", .natural 0)]]),
      ("arity", .string (some "strict")), ("x", .null), ("step_limit", .natural 9)] _
    (fun f => by cases f <;> rfl)
    ⟨[], _, [], .nil, .object (.cons hfirst (.cons harity (.cons hagain (.last hlimit)))), .nil,
      rfl⟩

end Config

end TreeWalk
