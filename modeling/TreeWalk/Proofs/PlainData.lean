/-
# Plain data

Plain data are the values that lead to nothing but scalars and containers, where no container is
inside of itself and containers are nested at most 128 times; they may share what they hold
(`Store.Plain`).  Whether a value is plain can be computed (`Store.plain_iff_nested`).  The
unfolding of plain data is not cut anywhere: it is the tree of all parts (`Store.Plain.unfolding`).
Two such values hold the same data (`Store.SameData`) if they do so part by part, whichever cells
the parts are in.
-/
import Mathlib.Data.List.Chain
import Mathlib.Logic.Relation
import TreeWalk.Proofs.Rendering

namespace TreeWalk

open Relation

/-- The value is no function, no builtin and no name of a binding. -/
def Value.isData : Value → Bool
  | .nil | .bool _ | .number _ | .string _ | .object _ | .array _ => true
  | .function _ | .builtin _ | .variable _ => false

/-- Nothing in the tree stands for a value that is not shown. -/
inductive Shown.Unmarked : Shown → Prop
  | nil : Unmarked .nil
  | bool (b : Bool) : Unmarked (.bool b)
  | number (n : Int64) : Unmarked (.number n)
  | string (s : String) : Unmarked (.string s)
  | object {entries : List (String × Shown)} (h : ∀ e ∈ entries, Unmarked e.2) :
      Unmarked (.object entries)
  | array {items : List Shown} (h : ∀ t ∈ items, Unmarked t) : Unmarked (.array items)

namespace Store

/-- The first value is a container that holds the second one. -/
inductive Holds (st : Store) : Value → Value → Prop
  | entry {r : ObjectRef} {key : String} {v : Value} (h : (key, v) ∈ (st.object r).toList) :
      Holds st (.object r) v
  | element {r : ArrayRef} {v : Value} (h : v ∈ (st.array r).toList) : Holds st (.array r) v

/-- The value and all that it leads to are data, no container among them is inside of itself, and
no more than 128 containers are nested in each other. -/
structure Plain (st : Store) (v : Value) : Prop where
  data : ∀ w, ReflTransGen st.Holds v w → w.isData
  acyclic : ∀ w, ReflTransGen st.Holds v w → ¬ TransGen st.Holds w w
  shallow : ∀ ws, List.IsChain st.Holds (v :: ws) → (∀ w ∈ v :: ws, w.isContainer) →
    (v :: ws).length ≤ 128

/-- Look whether a value is data with containers nested at most so many times. -/
def nested (st : Store) : Nat → Value → Bool
  | _, .nil | _, .bool _ | _, .number _ | _, .string _ => true
  | d + 1, .object r => (st.object r).toList.all fun e => st.nested d e.2
  | d + 1, .array r => (st.array r).toList.all fun v => st.nested d v
  | _, _ => false

variable {st : Store} {v w : Value} {d : Nat}

lemma isData_of_nested (h : st.nested d v) : v.isData := by
  cases v with
  | function r => cases d <;> cases h
  | builtin r => cases d <;> cases h
  | «variable» name => cases d <;> cases h
  | _ => rfl

lemma nested_of_leaf (hdata : v.isData) (hv : v.isContainer = false) : st.nested d v := by
  cases v with
  | object r => cases hv
  | array r => cases hv
  | function r => cases hdata
  | builtin r => cases hdata
  | «variable» name => cases hdata
  | _ => cases d <;> rfl

/-- What a value holds is nested less deep. -/
lemma nested_of_holds (h : st.nested d v) (hw : st.Holds v w) :
    ∃ d', d = d' + 1 ∧ st.nested d' w := by
  cases hw with
  | @entry r key w hw =>
    cases d with
    | zero => cases h
    | succ d => exact ⟨d, rfl, List.all_eq_true.mp h (key, w) hw⟩
  | element hw =>
    cases d with
    | zero => cases h
    | succ d => exact ⟨d, rfl, List.all_eq_true.mp h w hw⟩

/-- A value is nested so deep if what it holds is nested less deep. -/
lemma nested_of_forall (hv : v.isData) (h : ∀ w, st.Holds v w → st.nested d w) :
    st.nested (d + 1) v := by
  cases hcontainer : v.isContainer with
  | false => exact nested_of_leaf hv hcontainer
  | true =>
    rcases v.container_cases hcontainer with ⟨r, rfl⟩ | ⟨r, rfl⟩
    · exact List.all_eq_true.mpr fun e he => h e.2 (.entry he)
    · exact List.all_eq_true.mpr fun w hw => h w (.element hw)

/-- What holds of scalars, and of a container if it holds of what the container holds, holds of all
data whose containers are nested so deep. -/
theorem nested_induction {P : Nat → Value → Prop}
    (leaf : ∀ d v, v.isData → v.isContainer = false → P d v)
    (container : ∀ d v, v.isContainer → st.nested (d + 1) v → (∀ w, st.Holds v w → P d w) →
      P (d + 1) v) (h : st.nested d v) : P d v := by
  induction d generalizing v with
  | zero =>
    cases hv : v.isContainer with
    | false => exact leaf 0 v (isData_of_nested h) hv
    | true => rcases v.container_cases hv with ⟨r, rfl⟩ | ⟨r, rfl⟩ <;> cases h
  | succ d ih =>
    cases hv : v.isContainer with
    | false => exact leaf (d + 1) v (isData_of_nested h) hv
    | true =>
      refine container d v hv h fun w hw => ?_
      obtain ⟨d', hd, hw'⟩ := nested_of_holds h hw
      cases hd
      exact ih hw'

lemma nested_succ (h : st.nested d v) : st.nested (d + 1) v := by
  refine nested_induction (P := fun d v => st.nested (d + 1) v) (fun d v hdata hv => ?_)
    (fun d v _ h ih => ?_) h
  · exact nested_of_leaf hdata hv
  · exact nested_of_forall (isData_of_nested h) ih

lemma nested_of_reaches (h : st.nested d v) (hw : ReflTransGen st.Holds v w) : st.nested d w := by
  induction hw with
  | refl => exact h
  | tail _ hw ih =>
    obtain ⟨d', rfl, hw'⟩ := nested_of_holds ih hw
    exact nested_succ hw'

/-- Each turn of a cycle would be nested less deep. -/
lemma acyclic_of_nested (h : st.nested d v) : ¬ TransGen st.Holds v v := by
  induction d generalizing v with
  | zero =>
    intro hcycle
    obtain ⟨w, hw, -⟩ := TransGen.head'_iff.mp hcycle
    obtain ⟨d', hd, -⟩ := nested_of_holds h hw
    cases hd
  | succ d ih =>
    intro hcycle
    obtain ⟨w, hw, hback⟩ := TransGen.head'_iff.mp hcycle
    obtain ⟨d', hd, hw'⟩ := nested_of_holds h hw
    cases hd
    exact ih (nested_of_reaches hw' hback) hcycle

lemma length_le_of_nested (h : st.nested d v) {ws : List Value}
    (hchain : List.IsChain st.Holds (v :: ws)) (hws : ∀ w ∈ v :: ws, w.isContainer) :
    (v :: ws).length ≤ d := by
  induction ws generalizing d v with
  | nil =>
    cases d with
    | zero =>
      rcases v.container_cases (hws v List.mem_cons_self) with ⟨r, rfl⟩ | ⟨r, rfl⟩ <;> cases h
    | succ d => simp
  | cons w ws ih =>
    obtain ⟨hw, hrest⟩ := List.isChain_cons_cons.mp hchain
    obtain ⟨d', rfl, hw'⟩ := nested_of_holds h hw
    have hlength := ih hw' hrest fun u hu => hws u (List.mem_cons_of_mem v hu)
    simpa using hlength

lemma nested_of_shallow (hdata : ∀ w, ReflTransGen st.Holds v w → w.isData)
    (hshallow : ∀ ws, List.IsChain st.Holds (v :: ws) → (∀ w ∈ v :: ws, w.isContainer) →
      (v :: ws).length ≤ d) : st.nested d v := by
  cases hv : v.isContainer with
  | false => exact nested_of_leaf (hdata v .refl) hv
  | true =>
    induction d generalizing v with
    | zero => simpa [hv] using hshallow [] (.singleton v)
    | succ d ih =>
      refine nested_of_forall (hdata v .refl) fun w hw => ?_
      have hdata' : ∀ u, ReflTransGen st.Holds w u → u.isData := fun u hu => hdata u (.head hw hu)
      cases hcontainer : w.isContainer with
      | false => exact nested_of_leaf (hdata' w .refl) hcontainer
      | true =>
        refine ih hdata' (fun ws hchain hws => ?_) hcontainer
        have hlength := hshallow (w :: ws) (List.isChain_cons_cons.mpr ⟨hw, hchain⟩)
          (List.forall_mem_cons.mpr ⟨hv, hws⟩)
        simpa using hlength

/-- One can compute whether a value is plain data. -/
theorem plain_iff_nested : st.Plain v ↔ st.nested 128 v := by
  constructor
  · exact fun h => nested_of_shallow h.data h.shallow
  · exact fun h => ⟨fun w hw => isData_of_nested (nested_of_reaches h hw),
      fun w hw => acyclic_of_nested (nested_of_reaches h hw), fun ws => length_le_of_nested h⟩

/-! ### The tree of all parts -/

/-- The tree of a value, cut below `d` containers only. -/
def tree (st : Store) : Nat → Value → Shown
  | 0, .object _ | 0, .array _ => .elided
  | d + 1, .object r => .object ((st.object r).toList.map fun e => (e.1, st.tree d e.2))
  | d + 1, .array r => .array ((st.array r).toList.map fun v => st.tree d v)
  | _, v => st.leaf v

lemma tree_leaf (hv : v.isContainer = false) : st.tree d v = st.leaf v := by
  cases v with
  | object r => cases hv
  | array r => cases hv
  | _ => cases d <;> rfl

/-- Where there is room for all parts, and no part is one of the containers above it, the unfolding
is not cut. -/
lemma unfolding_eq_tree (h : st.nested d v) : ∀ path : List Value, path.length + d ≤ 128 →
    (∀ u ∈ path, TransGen st.Holds u v) → st.unfolding path v = st.tree d v := by
  have hunfolds := st.unfolds_unfolding
  refine nested_induction (P := fun d v => ∀ path : List Value, path.length + d ≤ 128 →
    (∀ u ∈ path, TransGen st.Holds u v) → st.unfolding path v = st.tree d v)
    (fun d v _ hv path _ _ => ?_) (fun d v hv h ih path hroom hpath => ?_) h
  · rw [hunfolds.leaf path v hv, tree_leaf hv]
  · have hmem : v ∉ path := fun hv => acyclic_of_nested h (hpath v hv)
    have hpart : ∀ w, st.Holds v w → st.unfolding (v :: path) w = st.tree d w := by
      intro w hw
      refine ih w hw (v :: path) (by rw [List.length_cons]; omega) fun u hu => ?_
      rcases List.mem_cons.mp hu with rfl | hu
      · exact .single hw
      · exact .tail (hpath u hu) hw
    rcases v.container_cases hv with ⟨r, rfl⟩ | ⟨r, rfl⟩
    · rw [hunfolds.object path r (by omega) hmem, tree]
      refine congrArg Shown.object (List.map_congr_left fun e he => ?_)
      rw [hpart e.2 (.entry he)]
    · rw [hunfolds.array path r (by omega) hmem, tree]
      exact congrArg Shown.array (List.map_congr_left fun w hw => hpart w (.element hw))

lemma unmarked_leaf (hdata : v.isData) (hv : v.isContainer = false) : (st.leaf v).Unmarked := by
  cases v with
  | nil => exact .nil
  | bool b => exact .bool b
  | number n => exact .number n
  | string s => exact .string s
  | object r => cases hv
  | array r => cases hv
  | _ => cases hdata

lemma unmarked_tree (h : st.nested d v) : (st.tree d v).Unmarked := by
  refine nested_induction (P := fun d v => (st.tree d v).Unmarked) (fun d v hdata hv => ?_)
    (fun d v hv _ ih => ?_) h
  · rw [tree_leaf hv]
    exact unmarked_leaf hdata hv
  · rcases v.container_cases hv with ⟨r, rfl⟩ | ⟨r, rfl⟩
    · refine .object fun e he => ?_
      obtain ⟨e', he', rfl⟩ := List.mem_map.mp he
      exact ih e'.2 (.entry he')
    · refine .array fun t ht => ?_
      obtain ⟨w, hw, rfl⟩ := List.mem_map.mp ht
      exact ih w (.element hw)

/-- The unfolding of plain data is the tree of all its parts. -/
lemma Plain.unfolding (h : st.Plain v) : st.unfolding [] v = st.tree 128 v :=
  unfolding_eq_tree (plain_iff_nested.mp h) [] (Nat.le_refl _) nofun

/-! ### The same data -/

/-- The values are the same scalar, or objects with the same keys and the same data under each of
them, or arrays of one length with the same data at each place. -/
inductive SameData (st st' : Store) : Value → Value → Prop
  | nil : SameData st st' .nil .nil
  | bool (b : Bool) : SameData st st' (.bool b) (.bool b)
  | number (n : Int64) : SameData st st' (.number n) (.number n)
  | string (s : String) : SameData st st' (.string s) (.string s)
  | object {r r' : ObjectRef} (keys : ∀ key, key ∈ st.object r ↔ key ∈ st'.object r')
      (entries : ∀ (key : String) v v', (st.object r)[key]? = some v → (st'.object r')[key]? = some v' →
        SameData st st' v v') : SameData st st' (.object r) (.object r')
  | array {r r' : ArrayRef} (size : (st.array r).size = (st'.array r').size)
      (elements : ∀ (i : Nat) v v', (st.array r)[i]? = some v → (st'.array r')[i]? = some v' →
        SameData st st' v v') : SameData st st' (.array r) (.array r')

namespace SameData

variable {st' st'' : Store} {v' v'' : Value}

lemma symm (h : SameData st st' v v') : SameData st' st v' v := by
  induction h with
  | nil => exact .nil
  | bool b => exact .bool b
  | number n => exact .number n
  | string s => exact .string s
  | object keys _ ih => exact .object (fun key => (keys key).symm) fun key v' v h' h => ih key v v' h h'
  | array size _ ih => exact .array size.symm fun i v' v h' h => ih i v v' h h'

lemma trans (h : SameData st st' v v') (h' : SameData st' st'' v' v'') :
    SameData st st'' v v'' := by
  induction h generalizing v'' with
  | nil => cases h'; exact .nil
  | bool b => cases h'; exact .bool b
  | number n => cases h'; exact .number n
  | string s => cases h'; exact .string s
  | object keys _ ih =>
    cases h' with
    | object keys' entries' =>
      refine .object (fun key => (keys key).trans (keys' key)) fun key v v'' hv hv'' => ?_
      have hmem := (keys key).mp (Std.TreeMap.mem_iff_isSome_getElem?.mpr (hv ▸ rfl))
      obtain ⟨v', hv'⟩ := Option.isSome_iff_exists.mp (Std.TreeMap.mem_iff_isSome_getElem?.mp hmem)
      exact ih key v v' hv hv' (entries' key v' v'' hv' hv'')
  | array size _ ih =>
    cases h' with
    | array size' elements' =>
      refine .array (size.trans size') fun i v v'' hv hv'' => ?_
      have hi := size ▸ (Array.getElem?_eq_some_iff.mp hv).1
      exact ih i v _ hv (Array.getElem?_eq_getElem hi)
        (elements' i _ v'' (Array.getElem?_eq_getElem hi) hv'')

/-- The trees of the same data are the same. -/
lemma tree_eq (h : SameData st st' v v') (d : Nat) : st.tree d v = st'.tree d v' := by
  induction h generalizing d with
  | nil => cases d <;> rfl
  | bool b => cases d <;> rfl
  | number n => cases d <;> rfl
  | string s => cases d <;> rfl
  | @object r r' keys _ ih =>
    cases d with
    | zero => rfl
    | succ d =>
      -- tables with the same values under all keys hold their entries in the same order
      have hequiv : ((st.object r).map fun _ v => st.tree d v).Equiv
          ((st'.object r').map fun _ v => st'.tree d v) := by
        refine Std.TreeMap.Equiv.of_forall_constGet?_eq fun key => ?_
        rw [Std.TreeMap.getElem?_map, Std.TreeMap.getElem?_map]
        have hkey := keys key
        rw [Std.TreeMap.mem_iff_isSome_getElem?, Std.TreeMap.mem_iff_isSome_getElem?] at hkey
        cases hv : (st.object r)[key]? with
        | none => cases hv' : (st'.object r')[key]? <;> simp_all
        | some v =>
          cases hv' : (st'.object r')[key]? with
          | none => simp_all
          | some v' => exact congrArg some (ih key v v' hv hv' d)
      have hlist := hequiv.toList_eq
      rw [Std.TreeMap.toList_map, Std.TreeMap.toList_map] at hlist
      rw [tree, tree, hlist]
  | @array r r' size _ ih =>
    cases d with
    | zero => rfl
    | succ d =>
      rw [tree, tree]
      refine congrArg Shown.array (List.ext_getElem (by simpa using size) fun i hi hi' => ?_)
      simp only [List.length_map, Array.length_toList] at hi hi'
      simp only [List.getElem_map, Array.getElem_toList]
      exact ih i _ _ (Array.getElem?_eq_getElem hi) (Array.getElem?_eq_getElem hi') d

end SameData

end Store

end TreeWalk
