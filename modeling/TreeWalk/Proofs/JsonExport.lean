/-
# The export of plain data loses nothing

What is exported of plain data can be read back: a host that makes a value of the data
(`Json.decode`), in whatever store, gets a value with the same data.  So two plain values are
exported as the same data if and only if they hold the same data (`json_lossless`), however they
share their parts.  Texts that look like the marks of a cut stay texts, as there are no marks.
-/
import TreeWalk.Proofs.Cells
import TreeWalk.Proofs.PlainData

namespace TreeWalk

/-! ### Reading data -/

/-- An action that makes values in a store, or refuses to. -/
abbrev Decoding (α : Type) : Type := StateT Store Option α

namespace Json

mutual

/-- Make a value of data, with new containers for all arrays and objects.  Numbers outside of the
range of 64 bits are refused. -/
def decode : Json → Decoding Value
  | .null => return .nil
  | .bool b => return .bool b
  | .number n => if (Int64.ofInt n).toInt = n then return .number (.ofInt n) else failure
  | .string s => return .string s
  | .array items => do
    let vs ← decodeItems items
    modifyGet fun st => (.array (st.newArray vs.toArray).1, (st.newArray vs.toArray).2)
  | .object fields => do
    let es ← decodeFields fields
    modifyGet fun st => (.object (st.newObject (.ofList es)).1, (st.newObject (.ofList es)).2)

/-- Make the elements of an array. -/
def decodeItems : List Json → Decoding (List Value)
  | [] => return []
  | j :: js => do
    let v ← j.decode
    return v :: (← decodeItems js)

/-- Make the entries of an object. -/
def decodeFields : List (String × Json) → Decoding (List (String × Value))
  | [] => return []
  | (key, j) :: rest => do
    let v ← j.decode
    return (key, v) :: (← decodeFields rest)

end

lemma decodeItems_eq (js : List Json) : decodeItems js = js.mapM decode := by
  induction js with
  | nil => rfl
  | cons j js ih => rw [decodeItems, ih, List.mapM_cons]

lemma decodeFields_eq (fields : List (String × Json)) :
    decodeFields fields = fields.mapM fun e => do return (e.1, ← e.2.decode) := by
  induction fields with
  | nil => rfl
  | cons e rest ih =>
    rw [decodeFields, ih, List.mapM_cons]
    simp only [bind_assoc, pure_bind]

end Json

namespace Store

variable {st st' st'' : Store} {v : Value} {d : Nat}

/-- The second store has the cells of the first one, and they hold what they held. -/
def Keeps (st st' : Store) : Prop := ∀ n, st.Has n → st'.Has n ∧ st'.cell n = st.cell n

namespace Keeps

lemma refl (st : Store) : st.Keeps st := fun _ hn => ⟨hn, rfl⟩

lemma trans (h : st.Keeps st') (h' : st'.Keeps st'') : st.Keeps st'' := fun n hn =>
  ⟨(h' n (h n hn).1).1, (h' n (h n hn).1).2.trans (h n hn).2⟩

lemma of_makes {n₀ : Node} {x : Cell} (h : Makes n₀ x st st') : st.Keeps st' := fun n hn =>
  ⟨(h.has n).mpr (.inl hn), h.cell_ne n fun heq => h.fresh (heq ▸ hn)⟩

end Keeps

namespace SameData

lemma of_items {r r' : ArrayRef} {vs : List Value} (hr : st'.array r' = vs.toArray)
    (h : List.Forall₂ (SameData st st') (st.array r).toList vs) :
    SameData st st' (.array r) (.array r') := by
  obtain ⟨hlength, hget⟩ := List.forall₂_iff_get.mp h
  refine .array (by simpa [hr] using hlength) fun i v v' hv hv' => ?_
  rw [hr, List.getElem?_toArray] at hv'
  rw [← Array.getElem?_toList] at hv
  obtain ⟨hi, rfl⟩ := List.getElem?_eq_some_iff.mp hv
  obtain ⟨hi', rfl⟩ := List.getElem?_eq_some_iff.mp hv'
  exact hget i hi hi'

/-- The entries have the keys of the object, which are different from each other. -/
lemma of_fields {r r' : ObjectRef} {l : List (String × Value)} (hr : st'.object r' = .ofList l)
    (h : List.Forall₂ (fun e e' => e.1 = e'.1 ∧ SameData st st' e.2 e'.2)
      (st.object r).toList l) : SameData st st' (.object r) (.object r') := by
  have hkeys : (st.object r).toList.map Prod.fst = l.map Prod.fst := by
    rw [← List.forall₂_eq_eq_eq, List.forall₂_map_left_iff, List.forall₂_map_right_iff]
    exact h.imp fun _ _ he => he.1
  have hdistinct : l.Pairwise fun a b => ¬ compare a.1 b.1 = .eq := by
    have hpairs : ((st.object r).toList.map Prod.fst).Pairwise fun a b => ¬ compare a b = .eq :=
      List.pairwise_map.mpr Std.TreeMap.distinct_keys_toList
    rw [hkeys] at hpairs
    exact List.pairwise_map.mp hpairs
  refine .object (fun key => ?_) fun key v v' hv hv' => ?_
  · rw [hr, Std.TreeMap.mem_ofList, ← hkeys, List.contains_iff_mem,
      Std.TreeMap.map_fst_toList_eq_keys, Std.TreeMap.mem_keys]
  · -- the entry at the same position is the one that is found under the key
    obtain ⟨i, hi, hget⟩ := List.getElem_of_mem (Std.TreeMap.mem_toList_iff_getElem?_eq_some.mpr hv)
    have hi' : i < l.length := h.length_eq ▸ hi
    obtain ⟨hkey, hsame⟩ := h.get hi hi'
    simp only [List.get_eq_getElem, hget] at hkey hsame
    have hfound := Std.TreeMap.getElem?_ofList_of_mem (Std.compare_self (a := key)) hdistinct
      (v := l[i].2) (by rw [hkey]; exact List.getElem_mem hi')
    rw [hr, hfound] at hv'
    exact Option.some.inj hv' ▸ hsame

end SameData

end Store

namespace Decoding

variable {α β : Type}

/-- The action makes something in every store and keeps the cells of the store.  What it makes is as
`P` says, also when the store grows. -/
def Yields (x : Decoding α) (P : Store → α → Prop) : Prop :=
  ∀ st, ∃ a st', x.run st = some (a, st') ∧ st.Keeps st' ∧ ∀ st'', st'.Keeps st'' → P st'' a

namespace Yields

variable {P : Store → α → Prop} {Q : Store → β → Prop}

lemma pure {a : α} (h : ∀ st, P st a) : Yields (pure a) P := fun st =>
  ⟨a, st, rfl, .refl st, fun st' _ => h st'⟩

lemma bind {x : Decoding α} {f : α → Decoding β} (hx : x.Yields P)
    (hf : ∀ a, (f a).Yields fun st b => P st a → Q st b) : Yields (x >>= f) Q := by
  intro st
  obtain ⟨a, st₁, ha, hkeeps, hP⟩ := hx st
  obtain ⟨b, st₂, hb, hkeeps', hQ⟩ := hf a st₁
  refine ⟨b, st₂, ?_, hkeeps.trans hkeeps', fun st₃ h₃ => hQ st₃ h₃ (hP st₃ (hkeeps'.trans h₃))⟩
  rw [StateT.run_bind, ha]
  exact hb

lemma mapM {f : α → Decoding β} {R : Store → α → β → Prop} {l : List α}
    (h : ∀ a ∈ l, (f a).Yields fun st => R st a) :
    (l.mapM f).Yields fun st => List.Forall₂ (R st) l := by
  induction l with
  | nil => exact .pure fun _ => .nil
  | cons a l ih =>
    rw [List.mapM_cons]
    refine (h a List.mem_cons_self).bind fun b => ?_
    refine (ih fun a' ha' => h a' (List.mem_cons_of_mem a ha')).bind fun bs => ?_
    exact .pure fun st hbs hb => .cons hb hbs

lemma imp {P' : Store → α → Prop} {x : Decoding α} (hx : x.Yields P)
    (h : ∀ st a, P st a → P' st a) : x.Yields P' := by
  intro st
  obtain ⟨a, st₁, ha, hkeeps, hP⟩ := hx st
  exact ⟨a, st₁, ha, hkeeps, fun st₂ h₂ => h st₂ a (hP st₂ h₂)⟩

/-- A new cell holds what it has been made with. -/
lemma make {new : Store → α × Store} {wrap : α → β} {n : α → Node} {x : Cell}
    (h : ∀ st, Store.Makes (n (new st).1) x st (new st).2) :
    Yields (modifyGet fun st => (wrap (new st).1, (new st).2))
      fun st b => ∃ a, b = wrap a ∧ st.cell (n a) = x := by
  intro st
  have hmakes := h st
  refine ⟨wrap (new st).1, (new st).2, rfl, .of_makes hmakes, fun st' hkeeps => ⟨_, rfl, ?_⟩⟩
  rw [(hkeeps _ ((hmakes.has _).mpr (.inr rfl))).2, hmakes.cell]

end Yields

end Decoding

namespace Store

variable {st : Store} {v : Value} {d : Nat}

/-- What is made of the data holds the same data as the value. -/
def Restores (st : Store) (v : Value) (j : Json) : Prop :=
  j.decode.Yields fun st' v' => SameData st st' v v'

lemma sameData_of_leaf {st' : Store} (hdata : v.isData) (hv : v.isContainer = false) :
    SameData st st' v v := by
  cases v with
  | nil => exact .nil
  | bool b => exact .bool b
  | number n => exact .number n
  | string s => exact .string s
  | object r => cases hv
  | array r => cases hv
  | _ => cases hdata

lemma decode_leaf (hdata : v.isData) (hv : v.isContainer = false) :
    (st.leaf v).json.decode = pure v := by
  cases v with
  | number n =>
    show (if (Int64.ofInt n.toInt).toInt = n.toInt then pure (.number (.ofInt n.toInt))
      else failure : Decoding Value) = _
    rw [Int64.ofInt_toInt, if_pos rfl]
  | object r => cases hv
  | array r => cases hv
  | function r => cases hdata
  | builtin r => cases hdata
  | «variable» name => cases hdata
  | _ => rfl

lemma restores_leaf (hdata : v.isData) (hv : v.isContainer = false) :
    st.Restores v (st.leaf v).json := by
  rw [Restores, decode_leaf hdata hv]
  exact .pure fun _ => sameData_of_leaf hdata hv

lemma restores_array {r : ArrayRef} (f : Value → Json)
    (h : ∀ v ∈ (st.array r).toList, st.Restores v (f v)) :
    st.Restores (.array r) (.array ((st.array r).toList.map f)) := by
  rw [Restores, Json.decode, Json.decodeItems_eq, List.mapM_map]
  refine (Decoding.Yields.mapM h).bind fun vs => ?_
  refine (Decoding.Yields.make fun st => st.makes_newArray vs.toArray).imp ?_
  rintro st' _ ⟨r', rfl, hcell⟩ hsame
  exact .of_items (Cell.array.inj hcell) hsame

lemma restores_object {r : ObjectRef} (f : Value → Json)
    (h : ∀ e ∈ (st.object r).toList, st.Restores e.2 (f e.2)) :
    st.Restores (.object r) (.object ((st.object r).toList.map fun e => (e.1, f e.2))) := by
  have hfield : ∀ e ∈ (st.object r).toList,
      (do return (e.1, ← (f e.2).decode) : Decoding (String × Value)).Yields
        fun st' e' => e.1 = e'.1 ∧ SameData st st' e.2 e'.2 :=
    fun e he => (h e he).bind fun _ => .pure fun _ hsame => ⟨rfl, hsame⟩
  rw [Restores, Json.decode, Json.decodeFields_eq, List.mapM_map]
  refine (Decoding.Yields.mapM hfield).bind fun es => ?_
  refine (Decoding.Yields.make fun st => st.makes_newObject (.ofList es)).imp ?_
  rintro st' _ ⟨r', rfl, hcell⟩ hsame
  exact .of_fields (Cell.object.inj hcell) hsame

/-- The data of a tree that is not cut make a value with the same data. -/
lemma restores_tree (h : st.nested d v) : st.Restores v (st.tree d v).json := by
  refine nested_induction (P := fun d v => st.Restores v (st.tree d v).json)
    (fun d v hdata hv => ?_) (fun d v hv _ ih => ?_) h
  · rw [tree_leaf hv]
    exact restores_leaf hdata hv
  · rcases v.container_cases hv with ⟨r, rfl⟩ | ⟨r, rfl⟩
    · rw [tree, Shown.json, Shown.entryJsons_eq, List.map_map]
      exact restores_object (fun w => (st.tree d w).json) fun e he => ih e.2 (.entry he)
    · rw [tree, Shown.json, Shown.itemJsons_eq, List.map_map]
      exact restores_array (fun w => (st.tree d w).json) fun w hw => ih w (.element hw)

/-- What is exported of plain data is a tree of all that the value leads to, without marks.  A value
that is made of it, in any store, holds the same data; and two plain values are exported as the same
data if and only if they hold the same data. -/
theorem json_lossless (st : Store) (v : Value) (hv : st.Plain v) :
    ((st.unfolding [] v).Unmarked ∧ st.json v = (st.unfolding [] v).json) ∧
    (∀ st₀, ∃ v' st₁, (st.json v).decode.run st₀ = some (v', st₁) ∧ SameData st st₁ v v') ∧
    ∀ st' w, st'.Plain w → (st.json v = st'.json w ↔ SameData st st' v w) := by
  have hjson : ∀ {st : Store} {v}, st.Plain v → st.json v = (st.tree 128 v).json :=
    fun h => by rw [json_eq, h.unfolding]
  have hrestores : ∀ {st : Store} {v}, st.Plain v → st.Restores v (st.json v) := fun h => by
    rw [hjson h]
    exact restores_tree (plain_iff_nested.mp h)
  refine ⟨⟨?_, st.json_eq v⟩, fun st₀ => ?_, fun st' w hw => ⟨fun heq => ?_, fun hsame => ?_⟩⟩
  · rw [hv.unfolding]
    exact unmarked_tree (plain_iff_nested.mp hv)
  · obtain ⟨v', st₁, hrun, -, hsame⟩ := hrestores hv st₀
    exact ⟨v', st₁, hrun, hsame st₁ (.refl st₁)⟩
  · -- what is made of the common data holds the same data as either value
    obtain ⟨v', st₁, hrun, -, hsame⟩ := hrestores hv st
    obtain ⟨w', st₂, hrun', -, hsame'⟩ := hrestores hw st
    rw [heq, hrun'] at hrun
    cases hrun
    exact (hsame st₁ (.refl st₁)).trans (hsame' st₁ (.refl st₁)).symm
  · rw [hjson hv, hjson hw, hsame.tree_eq 128]

/-- An array that holds an object twice, with an empty array in it and with texts that look like
marks, and another one that holds the object and a copy of it. -/
theorem json_lossless_shared :
    let empty := (default : Store).newArray #[]
    let table := (((∅ : Table).insert "<cycle>" (.string "...")).insert "" (.array empty.1)).insert
      "least" (.number Int64.minValue)
    let object := empty.2.newObject table
    let copy := object.2.newObject table
    let shared := copy.2.newArray #[.object object.1, .object object.1, .string "<cycle>"]
    let unshared := shared.2.newArray #[.object object.1, .object copy.1, .string "<cycle>"]
    let st := unshared.2
    st.Plain (.array shared.1) ∧ st.Plain (.array unshared.1) ∧
      (st.unfolding [] (.array shared.1)).Unmarked ∧
      (∃ v' st₁, (st.json (.array shared.1)).decode.run default = some (v', st₁) ∧
        SameData st st₁ (.array shared.1) v') ∧
      SameData st st (.array shared.1) (.array unshared.1) := by
  intro empty table object copy shared unshared st
  have hshared : st.Plain (.array shared.1) := plain_iff_nested.mpr (by decide +kernel)
  have hunshared : st.Plain (.array unshared.1) := plain_iff_nested.mpr (by decide +kernel)
  obtain ⟨⟨hunmarked, -⟩, hdecode, hinjective⟩ := json_lossless st (.array shared.1) hshared
  have hjson : st.json (.array shared.1) = st.json (.array unshared.1) := by
    rw [json_eq, json_eq, hshared.unfolding, hunshared.unfolding]
    rfl
  exact ⟨hshared, hunshared, hunmarked, hdecode default, (hinjective st _ hunshared).mp hjson⟩

end Store

end TreeWalk
