/-
# JSON documents

A document is the tree that the tokens of a JSON text form.  It keeps of the text what the readers
of configurations and spans can use, and it keeps repeated keys, because those readers refuse them.
-/
import TreeWalk.Json.Token

namespace TreeWalk.Json

/-- A JSON text as a tree. -/
inductive Document where
  | null
  | bool (b : Bool)
  /-- A number written with digits alone. -/
  | natural (n : Nat)
  /-- Any other number. -/
  | number
  /-- A string, with its content if that is a text. -/
  | string (content : Option String)
  | array (items : List Document)
  /-- An object with its fields in the order of the text, repeated keys included. -/
  | object (fields : List (Option String × Document))

namespace Document

/-- A container of which the closing token has not been read; what is inside is kept last first. -/
inductive Frame where
  /-- The items read so far. -/
  | array (items : List Document)
  /-- The fields read so far, and the key of the next one. -/
  | object (fields : List (Option String × Document)) (key : Option String)

/-- What may come next while the containers `outer` are open. -/
inductive Expected where
  /-- A document, or the end of an array that has no items. -/
  | item (outer : List Frame)
  /-- A key behind the given fields, or the end of an object that has none. -/
  | key (fields : List (Option String × Document)) (outer : List Frame)
  /-- The colon behind a key. -/
  | colon (fields : List (Option String × Document)) (key : Option String) (outer : List Frame)
  /-- What may follow the document that has just been read. -/
  | rest (read : Document) (outer : List Frame)

/-- Read one token. -/
def step : Expected → Token → Option Expected
  | .item outer, .null => some (.rest .null outer)
  | .item outer, .bool b => some (.rest (.bool b) outer)
  | .item outer, .natural n => some (.rest (.natural n) outer)
  | .item outer, .number => some (.rest .number outer)
  | .item outer, .string content => some (.rest (.string content) outer)
  | .item outer, .openArray => some (.item (.array [] :: outer))
  | .item outer, .openObject => some (.key [] outer)
  | .item (.array [] :: outer), .closeArray => some (.rest (.array []) outer)
  | .key fields outer, .string content => some (.colon fields content outer)
  | .key [] outer, .closeObject => some (.rest (.object []) outer)
  | .colon fields key outer, .colon => some (.item (.object fields key :: outer))
  | .rest d (.array items :: outer), .comma => some (.item (.array (d :: items) :: outer))
  | .rest d (.array items :: outer), .closeArray =>
    some (.rest (.array (d :: items).reverse) outer)
  | .rest d (.object fields key :: outer), .comma => some (.key ((key, d) :: fields) outer)
  | .rest d (.object fields key :: outer), .closeObject =>
    some (.rest (.object ((key, d) :: fields).reverse) outer)
  | _, _ => none

/-- The document that was read, if it is complete. -/
def finish : Expected → Option Document
  | .rest d [] => some d
  | _ => none

/-- The document that tokens form. -/
def ofTokens? (ts : List Token) : Option Document := do
  finish (← ts.foldlM step (.item []))

/-- The document that a text is. -/
def ofText? (s : String) : Option Document := do
  ofTokens? (← tokens? s)

/-! ### Fields -/

/-- Whether every key is a text. -/
def keysAreTexts (fields : List (Option String × Document)) : Bool :=
  fields.all fun f => f.1.isSome

/-- What stands under a key that may be missing; `none` if the key is repeated. -/
def field? (fields : List (Option String × Document)) (key : String) : Option (Option Document) :=
  match fields.filter fun f => f.1 = some key with
  | [] => some none
  | [(_, d)] => some (some d)
  | _ => none

end Document

end TreeWalk.Json
