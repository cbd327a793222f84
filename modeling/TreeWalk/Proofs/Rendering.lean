/-
# Both renderings are of the unfolding

The text of a value and the value as data are made by two recursions, each of which keeps a list of
the containers that it is in.  One level of either does the same at each kind of value
(`renders_writeText`, `renders_writeJson`), and a recursion with such levels comes to its end, leaves
the list as it was, and makes what it makes of the unfolding of the value (`Renders.unfolds`).  So the
two are of one tree, and cut at the same places of it (`renderings_unfold`).
-/
import TreeWalk.Proofs.Unfolding

namespace TreeWalk

/-- A rendering of the members of a list, each of which leaves the containers as they are. -/
lemma Rendering.mapM_eq {α β : Type} {f : α → Rendering β} {g : α → β} {seen : List Value}
    {l : List α} (h : ∀ a ∈ l, (f a).run seen = some (g a, seen)) :
    (l.mapM f).run seen = some (l.map g, seen) := by
  induction l with
  | nil => rfl
  | cons a l ih =>
    rw [List.mapM_cons, StateT.run_bind, h a List.mem_cons_self]
    show (l.mapM f >>= fun bs => pure (g a :: bs)).run seen = _
    rw [StateT.run_bind, ih fun b hb => h b (List.mem_cons_of_mem a hb)]
    rfl

namespace Shown

/-- The text of what is shown below the containers `path`. -/
def textBelow (path : List Value) (t : Shown) : String :=
  if path.isEmpty then t.text else t.innerText

variable (path : List Value)

lemma textBelow_elided : textBelow path .elided = Store.elidedMark := by
  cases path <;> rfl

lemma textBelow_cycle : textBelow path .cycle = Store.cycleMark := by
  cases path <;> rfl

lemma textBelow_object (entries : List (String × Shown)) : textBelow path (.object entries) =
    "\x7b" ++ String.intercalate ", " (entries.map fun e => e.1 ++ ": " ++ e.2.innerText) ++
      "\x7d" := by
  rw [← entryTexts_eq]
  cases path <;> rfl

lemma textBelow_array (items : List Shown) :
    textBelow path (.array items) = "[" ++ String.intercalate ", " (items.map innerText) ++ "]" := by
  rw [← itemTexts_eq]
  cases path <;> rfl

end Shown

namespace Store

open Shown

variable {st : Store} {n : Nat} {path : List Value}

/-- One level of `render` makes `view path t` of a value that is seen as the tree `t` below the
containers `path`, if the next level does so below the value, and leaves `path` as it was. -/
structure Renders {α : Type} (st : Store) (render : Nat → Value → Rendering α)
    (view : List Value → Shown → α) : Prop where
  leaf : ∀ n path v, v.isContainer = false →
    (render (n + 1) v).run path = some (view path (st.leaf v), path)
  elided : ∀ n path v, v.isContainer → shownDepth ≤ path.length →
    (render (n + 1) v).run path = some (view path .elided, path)
  cycle : ∀ n path v, v.isContainer → ¬ shownDepth ≤ path.length → v ∈ path →
    (render (n + 1) v).run path = some (view path .cycle, path)
  object : ∀ n path r (tree : Value → Shown), ¬ shownDepth ≤ path.length → .object r ∉ path →
    (∀ v, (render n v).run (.object r :: path) =
      some (view (.object r :: path) (tree v), .object r :: path)) →
    (render (n + 1) (.object r)).run path =
      some (view path (.object ((st.object r).toList.map fun e => (e.1, tree e.2))), path)
  array : ∀ n path r (tree : Value → Shown), ¬ shownDepth ≤ path.length → .array r ∉ path →
    (∀ v, (render n v).run (.array r :: path) =
      some (view (.array r :: path) (tree v), .array r :: path)) →
    (render (n + 1) (.array r)).run path =
      some (view path (.array ((st.array r).toList.map tree)), path)

namespace Renders

variable {α : Type} {render : Nat → Value → Rendering α} {view : List Value → Shown → α}
  {U : List Value → Value → Shown}

/-- With levels enough a rendering comes to its end, with the view of the unfolding. -/
theorem unfolds (h : st.Renders render view) (hU : st.Unfolds U) (v : Value)
    (hpath : path.length ≤ 128) (hn : 128 < n + path.length) :
    (render n v).run path = some (view path (U path v), path) := by
  induction n generalizing path v with
  | zero => omega
  | succ n ih =>
    cases hv : v.isContainer with
    | false => rw [hU.leaf path v hv, h.leaf n path v hv]
    | true =>
      by_cases hdeep : 128 ≤ path.length
      · rw [(hU.elided path v hv).mpr hdeep, h.elided n path v hv hdeep]
      have hshallow : path.length < 128 := by omega
      by_cases hmem : v ∈ path
      · rw [(hU.cycle path v hv).mpr ⟨hshallow, hmem⟩, h.cycle n path v hv hdeep hmem]
      have hbelow : ∀ u, (render n u).run (v :: path) =
          some (view (v :: path) (U (v :: path) u), v :: path) :=
        fun u => ih u hshallow (by rw [List.length_cons]; omega)
      rcases v.container_cases hv with ⟨r, rfl⟩ | ⟨r, rfl⟩
      · rw [hU.object path r hshallow hmem, h.object n path r _ hdeep hmem hbelow]
      · rw [hU.array path r hshallow hmem, h.array n path r _ hdeep hmem hbelow]

lemma rendered_eq [Inhabited α] (h : st.Renders render view) (v : Value) :
    rendered render v = view [] (st.unfolding [] v) := by
  have hrender : (render (shownDepth + 1) v).run [] = some _ :=
    h.unfolds st.unfolds_unfolding v (Nat.zero_le _) (by decide)
  rw [rendered, StateT.run'_eq, hrender]
  rfl

end Renders

/-- The text of a value is written below the containers that it is in. -/
theorem renders_writeText (st : Store) : st.Renders st.writeText Shown.textBelow where
  leaf n path v hv := by
    cases v with
    | object r => cases hv
    | array r => cases hv
    | _ => cases path <;> rfl
  elided n path v hv hdeep := by
    rw [textBelow_elided]
    rcases v.container_cases hv with ⟨r, rfl⟩ | ⟨r, rfl⟩ <;>
      simp only [writeText, StateT.run_bind, StateT.run_get, pure_bind, if_pos hdeep,
        StateT.run_pure] <;> rfl
  cycle n path v hv hdeep hmem := by
    rw [textBelow_cycle]
    rcases v.container_cases hv with ⟨r, rfl⟩ | ⟨r, rfl⟩ <;>
      simp only [writeText, StateT.run_bind, StateT.run_get, pure_bind, if_neg hdeep, if_pos hmem,
        StateT.run_pure] <;> rfl
  object n path r tree hdeep hmem hbelow := by
    have hentries : ((st.object r).toList.mapM fun (e : String × Value) => do
        return e.1 ++ ": " ++ (← st.writeText n e.2)).run (.object r :: path) =
        some (_, .object r :: path) := Rendering.mapM_eq fun e _ => by
      rw [StateT.run_bind, hbelow]
      rfl
    rw [textBelow_object, List.map_map]
    simp only [writeText, StateT.run_bind, StateT.run_get, pure_bind, if_neg hdeep, if_neg hmem,
      StateT.run_set, hentries]
    rfl
  array n path r tree hdeep hmem hbelow := by
    have hitems : ((st.array r).toList.mapM fun v => st.writeText n v).run (.array r :: path) =
        some (_, .array r :: path) := Rendering.mapM_eq fun v _ => hbelow v
    rw [textBelow_array, List.map_map]
    simp only [writeText, StateT.run_bind, StateT.run_get, pure_bind, if_neg hdeep, if_neg hmem,
      StateT.run_set, hitems]
    rfl

/-- A value is exported in the same way wherever it is. -/
theorem renders_writeJson (st : Store) : st.Renders st.writeJson fun _ t => t.json where
  leaf n path v hv := by
    cases v with
    | object r => cases hv
    | array r => cases hv
    | _ => rfl
  elided n path v hv hdeep := by
    have hmark : v.isContainer = true ∧ shownDepth ≤ path.length := ⟨hv, hdeep⟩
    simp only [writeJson, StateT.run_bind, StateT.run_get, pure_bind, if_pos hmark,
      StateT.run_pure]
    rfl
  cycle n path v hv hdeep hmem := by
    have hmark : ¬ (v.isContainer = true ∧ shownDepth ≤ path.length) := fun h => hdeep h.2
    rcases v.container_cases hv with ⟨r, rfl⟩ | ⟨r, rfl⟩ <;>
      simp only [writeJson, StateT.run_bind, StateT.run_get, pure_bind, if_neg hmark, if_pos hmem,
        StateT.run_pure] <;> rfl
  object n path r tree hdeep hmem hbelow := by
    have hmark : ¬ ((Value.object r).isContainer = true ∧ shownDepth ≤ path.length) :=
      fun h => hdeep h.2
    have hfields : ((st.object r).toList.mapM fun (e : String × Value) => do
        return (e.1, ← st.writeJson n e.2)).run (.object r :: path) =
        some (_, .object r :: path) := Rendering.mapM_eq fun e _ => by
      rw [StateT.run_bind, hbelow]
      rfl
    rw [Shown.json, entryJsons_eq, List.map_map]
    simp only [writeJson, StateT.run_bind, StateT.run_get, pure_bind, if_neg hmark, if_neg hmem,
      StateT.run_set, hfields]
    rfl
  array n path r tree hdeep hmem hbelow := by
    have hmark : ¬ ((Value.array r).isContainer = true ∧ shownDepth ≤ path.length) :=
      fun h => hdeep h.2
    have hitems : ((st.array r).toList.mapM fun v => st.writeJson n v).run (.array r :: path) =
        some (_, .array r :: path) := Rendering.mapM_eq fun v _ => hbelow v
    rw [Shown.json, itemJsons_eq, List.map_map]
    simp only [writeJson, StateT.run_bind, StateT.run_get, pure_bind, if_neg hmark, if_neg hmem,
      StateT.run_set, hitems]
    rfl

/-- The text of a value is that of its unfolding. -/
lemma text_eq (st : Store) (v : Value) : st.text v = (st.unfolding [] v).text :=
  st.renders_writeText.rendered_eq v

/-- A value as data is its unfolding as data. -/
lemma json_eq (st : Store) (v : Value) : st.json v = (st.unfolding [] v).json :=
  st.renders_writeJson.rendered_eq v

/-- The entries of an object are listed in the order of their keys. -/
lemma object_toList_ordered (st : Store) (r : ObjectRef) :
    (st.object r).toList.Pairwise fun a b => a.1 < b.1 :=
  (Std.TreeMap.ordered_keys_toList (t := st.object r)).imp fun h => compareOfLessAndEq_eq_lt.mp h

/-- There is one unfolding of a store: below each list of containers it shows a tree of every value,
in which a container is elided if there are 128 containers or more above it, otherwise it is a cycle
if it is among those above it, and otherwise it is shown with its entries in the order of their keys
or its elements in their order.  The renderings of a value come to an end, with the text of its tree
and with its tree as data. -/
theorem renderings_unfold (st : Store) : ∃ U, st.Unfolds U ∧ (∀ U', st.Unfolds U' → U' = U) ∧
    (∀ r, (st.object r).toList.Pairwise fun a b => a.1 < b.1) ∧
    ∀ v, (∀ n, 128 < n → (st.writeText n v).run [] = some ((U [] v).text, []) ∧
        (st.writeJson n v).run [] = some ((U [] v).json, [])) ∧
      st.text v = (U [] v).text ∧ st.json v = (U [] v).json := by
  refine ⟨st.unfolding, st.unfolds_unfolding, fun U' h => h.unique st.unfolds_unfolding,
    st.object_toList_ordered, fun v => ⟨fun n hn => ⟨?_, ?_⟩, st.text_eq v, st.json_eq v⟩⟩
  · exact st.renders_writeText.unfolds st.unfolds_unfolding v (Nat.zero_le _) hn
  · exact st.renders_writeJson.unfolds st.unfolds_unfolding v (Nat.zero_le _) hn

end Store

end TreeWalk
