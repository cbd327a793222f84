/-
# The renderings of a value

A value can be rendered as a text and as data.  Containers may share their parts and may hold
themselves, so a rendering remembers the containers that it is in: a container that is in itself is
marked as a cycle, and one that is in 128 others is elided.  What a container shares with its
neighbours is shown at every place.
-/
import TreeWalk.Json
import TreeWalk.Store
import TreeWalk.Text.Quoted

namespace TreeWalk

/-- An action with a list of the containers being rendered, the innermost one first.  It comes to
nothing if it has too few levels. -/
abbrev Rendering (α : Type) : Type := StateT (List Value) Option α

namespace Store

/-- The number of containers in which a container is still shown. -/
def shownDepth : Nat := 128

/-- The mark that stands for a container inside of itself. -/
def cycleMark : String := "<cycle>"

/-- The mark that stands for a container nested too deep. -/
def elidedMark : String := "..."

/-- The text of a value that is no data. -/
def label (st : Store) : Value → String
  | .function r => (st.closure r).text
  | .builtin r => "<builtin " ++ (st.builtin r).name ++ ">"
  | .variable name => "<variable " ++ name ++ ">"
  | _ => ""

/-- Write the text of a value, with so many levels.  A string is written as it is only if it is not
in a container; keys are always written as they are. -/
def writeText (st : Store) : Nat → Value → Rendering String
  | 0, _ => failure
  | n + 1, v => do
    let seen ← get
    match v with
    | .nil => return "nil"
    | .bool b => return if b then "true" else "false"
    | .number k => return Int.repr k.toInt
    | .string s => return if seen.isEmpty then s else Text.quote s
    | .object r =>
      if shownDepth ≤ seen.length then
        return elidedMark
      else if .object r ∈ seen then
        return cycleMark
      else
        set (.object r :: seen)
        let entries ← (st.object r).toList.mapM fun e => do
          return e.1 ++ ": " ++ (← st.writeText n e.2)
        modify List.tail
        return "\x7b" ++ String.intercalate ", " entries ++ "\x7d"
    | .array r =>
      if shownDepth ≤ seen.length then
        return elidedMark
      else if .array r ∈ seen then
        return cycleMark
      else
        set (.array r :: seen)
        let items ← (st.array r).toList.mapM fun v => st.writeText n v
        modify List.tail
        return "[" ++ String.intercalate ", " items ++ "]"
    | .function _ | .builtin _ | .variable _ => return st.label v

/-- Write a value as data, with so many levels. -/
def writeJson (st : Store) : Nat → Value → Rendering Json
  | 0, _ => failure
  | n + 1, v => do
    let seen ← get
    if v.isContainer ∧ shownDepth ≤ seen.length then
      return .string elidedMark
    match v with
    | .nil => return .null
    | .bool b => return .bool b
    | .number k => return .number k.toInt
    | .string s => return .string s
    | .object r =>
      if .object r ∈ seen then
        return .string cycleMark
      else
        set (.object r :: seen)
        let fields ← (st.object r).toList.mapM fun e => do
          return (e.1, ← st.writeJson n e.2)
        modify List.tail
        return .object fields
    | .array r =>
      if .array r ∈ seen then
        return .string cycleMark
      else
        set (.array r :: seen)
        let items ← (st.array r).toList.mapM fun v => st.writeJson n v
        modify List.tail
        return .array items
    | .function _ | .builtin _ | .variable _ => return .string (st.label v)

/-- A rendering with one level for each container that is shown, and one for what is in the last of
them. -/
def rendered {α : Type} [Inhabited α] (render : Nat → Value → Rendering α) (v : Value) : α :=
  ((render (shownDepth + 1) v).run' []).getD default

/-- The text of a value. -/
def text (st : Store) (v : Value) : String := rendered st.writeText v

/-- A value as data. -/
def json (st : Store) (v : Value) : Json := rendered st.writeJson v

/-- The diagnostic text of a value, which names its kind. -/
def debugText (st : Store) : Value → String
  | .nil => "Nil"
  | .bool b => "Boolean(" ++ (if b then "true" else "false") ++ ")"
  | .number n => "Number(" ++ Int.repr n.toInt ++ ")"
  | .string s => "String(" ++ Text.quote s ++ ")"
  | v => v.typeName ++ "(" ++ st.text v ++ ")"

/-- The diagnostic text of what can be called. -/
def callableText? (st : Store) : Value → Option String
  | .function r =>
    let c := st.closure r
    let name := match c.name with
      | some name => "Some(" ++ Text.quote name ++ ")"
      | none => "None"
    some ("Closure \x7b name: " ++ name ++ ", arity: " ++ Nat.repr c.arity ++ " \x7d")
  | .builtin r => some ("Builtin(" ++ (st.builtin r).name ++ ")")
  | _ => none

/-- The diagnostic text of a scope. -/
def scopeText (st : Store) (c : ScopeRef) : String :=
  let s := st.scope c
  "Context \x7b symbols: [" ++ String.intercalate ", " (s.symbols.keys.map Text.quote) ++
    "], has_parent: " ++ (if s.parent.isSome then "true" else "false") ++ " \x7d"

end Store

end TreeWalk
