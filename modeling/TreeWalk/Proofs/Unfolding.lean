/-
# The unfolding of a value

What can be seen of a value is a finite tree: the unfolding of the value, cut at containers that are
inside of themselves and at those below 128 others.  Where a container stands, its place in the tree
is given by the containers above it, and the tree at each place is determined by what is asked of
unfoldings (`Store.Unfolds`): there is one unfolding of a store (`Store.unfolds_unfolding`) and no
other (`Store.Unfolds.unique`).
-/
import Mathlib.Tactic.Lemma
import TreeWalk.Store.Rendering

namespace TreeWalk

lemma Value.container_cases (v : Value) (hv : v.isContainer) :
    (∃ r, v = .object r) ∨ ∃ r, v = .array r := by
  cases v with
  | object r => exact .inl ⟨r, rfl⟩
  | array r => exact .inr ⟨r, rfl⟩
  | _ => cases hv

/-- A value as far as it is shown. -/
inductive Shown where
  | nil
  | bool (b : Bool)
  | number (n : Int64)
  | string (s : String)
  /-- An object with its entries in the order of their keys. -/
  | object (entries : List (String × Shown))
  /-- An array with its elements in order. -/
  | array (items : List Shown)
  /-- A value that is no data, by its text. -/
  | label (text : String)
  /-- A container inside of itself. -/
  | cycle
  /-- A container that is nested too deep. -/
  | elided

namespace Shown

mutual

/-- The text of a value inside a container. -/
def innerText : Shown → String
  | .nil => "nil"
  | .bool b => if b then "true" else "false"
  | .number n => Int.repr n.toInt
  | .string s => Text.quote s
  | .object entries => "\x7b" ++ String.intercalate ", " (entryTexts entries) ++ "\x7d"
  | .array items => "[" ++ String.intercalate ", " (itemTexts items) ++ "]"
  | .label text => text
  | .cycle => Store.cycleMark
  | .elided => Store.elidedMark

/-- The texts of the elements of an array. -/
def itemTexts : List Shown → List String
  | [] => []
  | t :: ts => innerText t :: itemTexts ts

/-- The texts of the entries of an object.  Keys are written as they are. -/
def entryTexts : List (String × Shown) → List String
  | [] => []
  | (key, t) :: rest => (key ++ ": " ++ innerText t) :: entryTexts rest

end

/-- The text of a value by itself: a string is written as it is. -/
def text : Shown → String
  | .string s => s
  | t => innerText t

mutual

/-- A value as data. -/
def json : Shown → Json
  | .nil => .null
  | .bool b => .bool b
  | .number n => .number n.toInt
  | .string s => .string s
  | .object entries => .object (entryJsons entries)
  | .array items => .array (itemJsons items)
  | .label text => .string text
  | .cycle => .string Store.cycleMark
  | .elided => .string Store.elidedMark

/-- The elements of an array as data. -/
def itemJsons : List Shown → List Json
  | [] => []
  | t :: ts => json t :: itemJsons ts

/-- The entries of an object as data. -/
def entryJsons : List (String × Shown) → List (String × Json)
  | [] => []
  | (key, t) :: rest => (key, json t) :: entryJsons rest

end

lemma itemTexts_eq (items : List Shown) : itemTexts items = items.map innerText := by
  induction items with
  | nil => rfl
  | cons t ts ih => simp only [itemTexts, ih, List.map_cons]

lemma entryTexts_eq (entries : List (String × Shown)) :
    entryTexts entries = entries.map fun e => e.1 ++ ": " ++ innerText e.2 := by
  induction entries with
  | nil => rfl
  | cons e es ih => simp only [entryTexts, ih, List.map_cons]

lemma itemJsons_eq (items : List Shown) : itemJsons items = items.map json := by
  induction items with
  | nil => rfl
  | cons t ts ih => simp only [itemJsons, ih, List.map_cons]

lemma entryJsons_eq (entries : List (String × Shown)) :
    entryJsons entries = entries.map fun e => (e.1, json e.2) := by
  induction entries with
  | nil => rfl
  | cons e es ih => simp only [entryJsons, ih, List.map_cons]

end Shown

namespace Store

variable {st : Store}

/-- What is shown of a value that is no container. -/
def leaf (st : Store) : Value → Shown
  | .nil => .nil
  | .bool b => .bool b
  | .number n => .number n
  | .string s => .string s
  | v => .label (st.label v)

/-- `U` unfolds every value at every place: below the containers `path`, the innermost one first. -/
structure Unfolds (st : Store) (U : List Value → Value → Shown) : Prop where
  leaf : ∀ path v, v.isContainer = false → U path v = st.leaf v
  /-- What is nested too deep is elided, and no other container. -/
  elided : ∀ path v, v.isContainer → (U path v = .elided ↔ 128 ≤ path.length)
  /-- What is inside of itself is a cycle, and no other container. -/
  cycle : ∀ path v, v.isContainer → (U path v = .cycle ↔ path.length < 128 ∧ v ∈ path)
  object : ∀ path r, path.length < 128 → .object r ∉ path → U path (.object r) =
    .object ((st.object r).toList.map fun e => (e.1, U (.object r :: path) e.2))
  array : ∀ path r, path.length < 128 → .array r ∉ path → U path (.array r) =
    .array ((st.array r).toList.map fun v => U (.array r :: path) v)

namespace Unfolds

variable {U U' : List Value → Value → Shown}

/-- There are no two unfoldings of a store. -/
theorem unique (h : st.Unfolds U) (h' : st.Unfolds U') : U = U' := by
  -- by induction on the number of containers that there is room for below the path
  have hroom : ∀ room path v, 128 - path.length = room → U path v = U' path v := by
    intro room
    induction room with
    | zero =>
      intro path v hlength
      have hdeep : 128 ≤ path.length := by omega
      cases hv : v.isContainer with
      | false => rw [h.leaf path v hv, h'.leaf path v hv]
      | true => rw [(h.elided path v hv).mpr hdeep, (h'.elided path v hv).mpr hdeep]
    | succ room ih =>
      intro path v hlength
      have hshallow : path.length < 128 := by omega
      have hbelow : ∀ w u, U (w :: path) u = U' (w :: path) u := fun w u =>
        ih (w :: path) u (by rw [List.length_cons]; omega)
      cases hv : v.isContainer with
      | false => rw [h.leaf path v hv, h'.leaf path v hv]
      | true =>
        by_cases hmem : v ∈ path
        · have hcycle : path.length < 128 ∧ v ∈ path := ⟨hshallow, hmem⟩
          rw [(h.cycle path v hv).mpr hcycle, (h'.cycle path v hv).mpr hcycle]
        · rcases v.container_cases hv with ⟨r, rfl⟩ | ⟨r, rfl⟩
          · simp only [h.object path r hshallow hmem, h'.object path r hshallow hmem, hbelow]
          · simp only [h.array path r hshallow hmem, h'.array path r hshallow hmem, hbelow]
  exact funext fun path => funext fun v => hroom _ path v rfl

end Unfolds

/-- The tree of a value below the containers `path`, with room for `room` further ones. -/
def unfoldBelow (st : Store) : Nat → List Value → Value → Shown
  | 0, _, .object _ | 0, _, .array _ => .elided
  | room + 1, path, .object r =>
    if .object r ∈ path then .cycle
    else .object ((st.object r).toList.map fun e =>
      (e.1, st.unfoldBelow room (.object r :: path) e.2))
  | room + 1, path, .array r =>
    if .array r ∈ path then .cycle
    else .array ((st.array r).toList.map fun v => st.unfoldBelow room (.array r :: path) v)
  | _, _, v => st.leaf v

/-- The tree of a value below the containers `path`. -/
def unfolding (st : Store) (path : List Value) (v : Value) : Shown :=
  st.unfoldBelow (shownDepth - path.length) path v

lemma unfoldBelow_leaf {v : Value} (hv : v.isContainer = false) (room : Nat) (path : List Value) :
    st.unfoldBelow room path v = st.leaf v := by
  cases v with
  | object r => cases hv
  | array r => cases hv
  | _ => cases room <;> rfl

/-- Where there is no room containers are elided, and elsewhere none is. -/
lemma unfoldBelow_eq_elided {v : Value} (hv : v.isContainer) (room : Nat) (path : List Value) :
    st.unfoldBelow room path v = .elided ↔ room = 0 := by
  by_cases hmem : v ∈ path <;> rcases v.container_cases hv with ⟨r, rfl⟩ | ⟨r, rfl⟩ <;>
    cases room <;> simp [unfoldBelow, hmem]

lemma unfoldBelow_eq_cycle {v : Value} (hv : v.isContainer) (room : Nat) (path : List Value) :
    st.unfoldBelow room path v = .cycle ↔ 0 < room ∧ v ∈ path := by
  by_cases hmem : v ∈ path <;> rcases v.container_cases hv with ⟨r, rfl⟩ | ⟨r, rfl⟩ <;>
    cases room <;> simp [unfoldBelow, hmem]

/-- There is an unfolding of every store. -/
theorem unfolds_unfolding (st : Store) : st.Unfolds st.unfolding where
  leaf path v hv := unfoldBelow_leaf hv _ path
  elided path v hv := by
    rw [unfolding, unfoldBelow_eq_elided hv, Nat.sub_eq_zero_iff_le]
    rfl
  cycle path v hv := by
    rw [unfolding, unfoldBelow_eq_cycle hv, Nat.sub_pos_iff_lt]
    rfl
  object path r hlength hmem := by
    obtain ⟨room, hroom⟩ : ∃ room, shownDepth - path.length = room + 1 :=
      Nat.exists_eq_add_one.mpr (Nat.sub_pos_of_lt hlength)
    have hbelow : shownDepth - (path.length + 1) = room := by omega
    simp only [unfolding, List.length_cons, hroom, hbelow, unfoldBelow, if_neg hmem]
  array path r hlength hmem := by
    obtain ⟨room, hroom⟩ : ∃ room, shownDepth - path.length = room + 1 :=
      Nat.exists_eq_add_one.mpr (Nat.sub_pos_of_lt hlength)
    have hbelow : shownDepth - (path.length + 1) = room := by omega
    simp only [unfolding, List.length_cons, hroom, hbelow, unfoldBelow, if_neg hmem]

end Store

end TreeWalk
