/-
# Fields of documents

What the texts of some data have in common is one document (`Json.document`).  In a document whose
keys are texts, a field is found under its name if it is given once or not at all, and refused if it
is repeated (`Document.field?_named_eq_some_iff`).
-/
import Mathlib.Tactic.Lemma
import TreeWalk.Json
import TreeWalk.Json.Document

namespace TreeWalk

namespace Json

mutual

/-- The document that the texts of the data form. -/
def document : Json → Document
  | .null => .null
  | .bool b => .bool b
  | .number (.ofNat n) => .natural n
  | .number (.negSucc _) => .number
  | .string s => .string (some s)
  | .array items => .array (itemDocuments items)
  | .object fields => .object (fieldDocuments fields)

/-- The documents of the items of an array. -/
def itemDocuments : List Json → List Document
  | [] => []
  | j :: js => j.document :: itemDocuments js

/-- The fields of the document of an object. -/
def fieldDocuments : List (String × Json) → List (Option String × Document)
  | [] => []
  | (key, j) :: rest => (some key, j.document) :: fieldDocuments rest

end

namespace Document

variable {fields : List (String × Document)} {key : String}

/-- Fields whose keys are texts. -/
def named (fields : List (String × Document)) : List (Option String × Document) :=
  fields.map fun f => (some f.1, f.2)

/-- The values that stand under a key, in the order of the text. -/
def under (fields : List (String × Document)) (key : String) : List Document :=
  (fields.filter fun f => f.1 = key).map Prod.snd

@[simp] lemma keysAreTexts_named (fields : List (String × Document)) :
    keysAreTexts (named fields) = true := by
  simp [keysAreTexts, named]

lemma filter_named (fields : List (String × Document)) (key : String) :
    (named fields).filter (fun f => f.1 = some key) =
      (under fields key).map fun d => (some key, d) := by
  induction fields with
  | nil => rfl
  | cons f fields ih =>
    rw [named, List.map_cons, ← named, under, List.filter_cons, List.filter_cons, ih]
    by_cases hf : f.1 = key <;> simp [hf, under]

/-- A field that is given once or not at all. -/
lemma field?_named {d : Option Document} (h : under fields key = d.toList) :
    field? (named fields) key = some d := by
  rw [field?, filter_named, h]
  cases d <;> rfl

/-- A field that is given twice. -/
lemma field?_named_eq_none (h : 2 ≤ (under fields key).length) :
    field? (named fields) key = none := by
  obtain ⟨d, d', rest, hd⟩ : ∃ d d' rest, under fields key = d :: d' :: rest := by
    match hd : under fields key, h with
    | d :: d' :: rest, _ => exact ⟨d, d', rest, rfl⟩
  rw [field?, filter_named, hd]
  rfl

/-- What is found under a key stands there once, or nothing does. -/
lemma field?_named_eq_some_iff {found : Option Document} :
    field? (named fields) key = some found ↔ under fields key = found.toList := by
  refine ⟨fun h => ?_, field?_named⟩
  rcases hunder : under fields key with _ | ⟨d, _ | ⟨d', rest⟩⟩
  · rw [field?_named (d := none) hunder] at h
    cases h
    rfl
  · rw [field?_named (d := some d) hunder] at h
    cases h
    rfl
  · rw [field?_named_eq_none (by simp [hunder])] at h
    cases h

lemma exists_named {fields : List (Option String × Document)} (h : keysAreTexts fields = true) :
    ∃ fields', fields = named fields' := by
  induction fields with
  | nil => exact ⟨[], rfl⟩
  | cons f fields ih =>
    obtain ⟨hf, hfields⟩ := Bool.and_eq_true_iff.mp h
    obtain ⟨fields', rfl⟩ := ih hfields
    obtain ⟨key, d⟩ := f
    obtain ⟨key, rfl⟩ := Option.isSome_iff_exists.mp hf
    exact ⟨(key, d) :: fields', rfl⟩

end Document

end Json

end TreeWalk
