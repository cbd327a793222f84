/-
# Reading and writing under keys

An index read and an index write look, each for itself, at what the container and the key are and at
the place in an array that an index stands for.  Both accept the same keys, and refuse the other ones
with the same fault (`read_write_laws`); what is written is what is read afterwards, and nothing else
is changed by the write (`Store.WrittenUnder`).
-/
import TreeWalk.Proofs.Rejections
import TreeWalk.Proofs.SimpleOperands

namespace TreeWalk

open Evaluator (readKey writeKey)

/-- The second store is the first one after `v` has been written under the key `k` of `x`: `v` is
read there, under every other key that is no container the same is read as before, and containers
are refused as keys before and after; an array is as long as before, an object has no new key but
`k`, and all other cells are the same. -/
structure Store.WrittenUnder (x k v : Value) (st st' : Store) : Prop where
  read : (readKey x k).Reads st' (.ok v) 0
  others : ∀ k', k' ≠ k → k'.isContainer = false →
    ∃ r, (readKey x k').Reads st r 0 ∧ (readKey x k').Reads st' r 0
  refused : ∀ k', k'.isContainer = true →
    (readKey x k').Reads st (.error (.ofFault (.badKey (st.text k') k'.typeName))) 0 ∧
      (readKey x k').Reads st' (.error (.ofFault (.badKey (st'.text k') k'.typeName))) 0
  size : ∀ r, x = .array r → (st'.array r).size = (st.array r).size
  keys : ∀ r, x = .object r → ∀ key, key ∈ st'.object r ↔ .string key = k ∨ key ∈ st.object r
  cells : ∀ n, x.node? ≠ some n → st'.cell n = st.cell n
  has : ∀ n, st'.Has n ↔ st.Has n

namespace Store

variable {st st' : Store} {n : Node} {e : Edit}

/-! ### What is read -/

lemma reads_entry (st : Store) (r : ObjectRef) (key : String) :
    (readKey (.object r) (.string key)).Reads st (.ok (st.entry r key)) 0 := by
  rintro s rfl
  rfl

lemma reads_element {r : ArrayRef} {i : Int64} {v : Value} (h : st.element? r i = some v) :
    (readKey (.array r) (.number i)).Reads st (.ok v) 0 := by
  rintro s rfl
  rw [readKey, Action.bind_apply, Action.read, h]
  rfl

lemma reads_outOfRange {r : ArrayRef} {i : Int64} (h : st.element? r i = none) :
    (readKey (.array r) (.number i)).Reads st
      (.error (.ofFault (.outOfRange i (st.array r).size))) 0 := by
  rintro s rfl
  rw [readKey, Action.bind_apply, Action.read, h]
  rfl

section

variable {x k : Value} (hobject : ∀ r key, x = .object r → k ≠ .string key)
  (harray : ∀ r i, x = .array r → k ≠ .number i)
include hobject harray

lemma readKey_eq_refuse : readKey x k = Evaluator.refuseKey k := by
  unfold readKey
  split
  · exact absurd rfl (hobject _ _ rfl)
  · exact absurd rfl (harray _ _ rfl)
  · rfl

lemma reads_badKey (st : Store) :
    (readKey x k).Reads st (.error (.ofFault (.badKey (st.text k) k.typeName))) 0 := by
  rintro s rfl
  rw [readKey_eq_refuse hobject harray]
  rfl

lemma writeKey_eq_refuse (v : Value) (s : State) :
    writeKey x k v s = .error (.ofFault (.badKey (s.store.text k) k.typeName)) s := by
  unfold writeKey
  split
  · exact absurd rfl (hobject _ _ rfl)
  · exact absurd rfl (harray _ _ rfl)
  · rfl

end

/-- A container is no key. -/
lemma reads_container {x k : Value} (hk : k.isContainer = true) (st : Store) :
    (readKey x k).Reads st (.error (.ofFault (.badKey (st.text k) k.typeName))) 0 := by
  refine reads_badKey (fun _ _ _ h => ?_) (fun _ _ _ h => ?_) st <;> simp [h, Value.isContainer] at hk

/-- How a value that is no container is shown depends on the functions and builtins only. -/
lemma text_congr (hclosure : ∀ r, st'.closure r = st.closure r)
    (hbuiltins : st'.builtins = st.builtins) {k : Value} (hk : k.isContainer = false) :
    st'.text k = st.text k := by
  cases k with
  | object r => cases hk
  | array r => cases hk
  | function r => exact congrArg Closure.text (hclosure r)
  | builtin r =>
    have hbuiltin : st'.builtin r = st.builtin r := congrArg (fun b => b.get r.index) hbuiltins
    have htext : ∀ st : Store, st.text (.builtin r) = "<builtin " ++ (st.builtin r).name ++ ">" :=
      fun _ => rfl
    rw [htext, htext, hbuiltin]
  | _ => rfl

lemma Edits.text (h : Edits n e st st') (hn : ∀ r, n ≠ .function r) {k : Value}
    (hk : k.isContainer = false) : st'.text k = st.text k :=
  text_congr (fun r => Cell.function.inj (h.cell_ne (.function r) (hn r).symm)) h.builtins hk

/-! ### Places of indices -/

lemma toInt_of_position? {i : Int64} {length p : Nat} (h : position? i length = some p) :
    i.toInt = p := by
  unfold position? at h
  split at h
  · cases h
    omega
  · cases h

/-- Different indices stand for different places. -/
lemma position?_inj {i j : Int64} {length p : Nat} (hi : position? i length = some p)
    (hj : position? j length = some p) : i = j :=
  Int64.toInt_inj.mp ((toInt_of_position? hi).trans (toInt_of_position? hj).symm)

lemma element?_of_position? {r : ArrayRef} {i : Int64} {p : Nat}
    (h : position? i (st.array r).size = some p) : st.element? r i = some ((st.array r).getD p .nil) := by
  simp [element?, h]

lemma element?_eq_none {r : ArrayRef} {i : Int64} (h : position? i (st.array r).size = none) :
    st.element? r i = none := by
  simp [element?, h]

/-! ### Writes -/

/-- A write into an object sets one entry. -/
lemma writtenUnder_setEntry {r : ObjectRef} (hr : st.Has (.object r)) (key : String) (v : Value) :
    WrittenUnder (.object r) (.string key) v st (st.setEntry r key v) := by
  have hedits := st.edits_setEntry r key v
  have hobject : (st.setEntry r key v).object r = (st.object r).insert key v := by
    rw [object_setEntry, if_pos ⟨rfl, hr⟩]
  refine ⟨?_, fun k' hk' hleaf => ?_, fun k' hk' => ⟨reads_container hk' _, reads_container hk' _⟩,
    (fun _ hq => by cases hq), ?_, fun n hn => ?_, hedits.has⟩
  · have hentry : (st.setEntry r key v).entry r key = v := by simp [entry, hobject]
    simpa only [hentry] using reads_entry (st.setEntry r key v) r key
  · by_cases hstring : ∃ other, k' = .string other
    · obtain ⟨other, rfl⟩ := hstring
      have hne : ¬ compare key other = .eq := by
        rw [Std.compare_eq_iff_eq]
        rintro rfl
        exact hk' rfl
      have hentry : (st.setEntry r key v).entry r other = st.entry r other := by
        simp [entry, hobject, Std.TreeMap.getD_insert, hne]
      exact ⟨_, reads_entry st r other, hentry ▸ reads_entry (st.setEntry r key v) r other⟩
    · have hbad : ∀ q other, Value.object r = .object q → k' ≠ .string other :=
        fun _ other _ h => hstring ⟨other, h⟩
      have harray : ∀ q i, Value.object r = .array q → k' ≠ .number i := by
        rintro _ _ ⟨⟩
      refine ⟨_, reads_badKey hbad harray st, ?_⟩
      rw [← hedits.text (fun _ hq => by cases hq) hleaf]
      exact reads_badKey hbad harray _
  · rintro q ⟨⟩ other
    rw [hobject, Std.TreeMap.mem_insert, Std.compare_eq_iff_eq, Value.string.injEq, eq_comm]
  · exact hedits.cell_ne n fun h => hn (h ▸ rfl)

/-- A write into an array replaces one element. -/
lemma writtenUnder_setElement {r : ArrayRef} (hr : st.Has (.array r)) {i : Int64} {p : Nat}
    (hp : position? i (st.array r).size = some p) (v : Value) :
    WrittenUnder (.array r) (.number i) v st (st.setElement r i v) := by
  have hedits := st.edits_setElement r i v
  have hlt : p < (st.array r).size := position?_lt hp
  have harray : (st.setElement r i v).array r = (st.array r).setIfInBounds p v := by
    rw [array_setElement, hp]
    exact if_pos ⟨rfl, hr⟩
  have hsize : ((st.setElement r i v).array r).size = (st.array r).size := by simp [harray]
  refine ⟨?_, fun k' hk' hleaf => ?_, fun k' hk' => ⟨reads_container hk' _, reads_container hk' _⟩,
    ?_, nofun, fun n hn => ?_, hedits.has⟩
  · refine reads_element ?_
    rw [element?_of_position? (hsize.symm ▸ hp), harray]
    simp [hlt]
  · by_cases hnumber : ∃ j, k' = .number j
    · obtain ⟨j, rfl⟩ := hnumber
      cases hq : position? j (st.array r).size with
      | some q =>
        -- another index stands for another place
        have hne : p ≠ q := by
          rintro rfl
          exact hk' (congrArg Value.number (position?_inj hq hp))
        refine ⟨_, reads_element (element?_of_position? hq), reads_element ?_⟩
        rw [element?_of_position? (hsize.symm ▸ hq), harray]
        simp [Array.getD_eq_getD_getElem?, hne]
      | none =>
        refine ⟨_, reads_outOfRange (element?_eq_none hq), ?_⟩
        rw [← hsize]
        exact reads_outOfRange (element?_eq_none (hsize.symm ▸ hq))
    · have hbad : ∀ q j, Value.array r = .array q → k' ≠ .number j :=
        fun _ j _ h => hnumber ⟨j, h⟩
      have hobject : ∀ q other, Value.array r = .object q → k' ≠ .string other := by
        rintro _ _ ⟨⟩
      refine ⟨_, reads_badKey hobject hbad st, ?_⟩
      rw [← hedits.text nofun hleaf]
      exact reads_badKey hobject hbad _
  · rintro q ⟨⟩
    exact hsize
  · exact hedits.cell_ne n fun h => hn (h ▸ rfl)

/-- Of a read and a write in the same state both have an effect of their own or both fail, and then
with the same fault. -/
lemma read_write {x k : Value} (v : Value) (hx : x.isContainer = true) {s : State}
    (hhas : ∀ n, x.node? = some n → s.store.Has n) :
    (∃ w st', readKey x k s = .value w s ∧ writeKey x k v s = .value () { s with store := st' } ∧
      s.store.WrittenUnder x k v st') ∨
    ∃ fault, readKey x k s = .error (.ofFault fault) s ∧
      writeKey x k v s = .error (.ofFault fault) s := by
  by_cases hobject : ∃ r key, x = .object r ∧ k = .string key
  · obtain ⟨r, key, rfl, rfl⟩ := hobject
    have hr : s.store.Has (.object r) := hhas _ rfl
    exact .inl ⟨_, _, reads_entry s.store r key s rfl, rfl, writtenUnder_setEntry hr key v⟩
  by_cases harray : ∃ r i, x = .array r ∧ k = .number i
  · obtain ⟨r, i, rfl, rfl⟩ := harray
    have hr : s.store.Has (.array r) := hhas _ rfl
    cases hp : position? i (s.store.array r).size with
    | some p =>
      have hwrite : writeKey (.array r) (.number i) v s =
          .value () { s with store := s.store.setElement r i v } := by
        simp [writeKey, hasElement, hp]
      exact .inl ⟨_, _, reads_element (element?_of_position? hp) s rfl, hwrite,
        writtenUnder_setElement hr hp v⟩
    | none =>
      have hwrite : writeKey (.array r) (.number i) v s =
          .error (.ofFault (.outOfRange i (s.store.array r).size)) s := by
        simp [writeKey, hasElement, hp]
      exact .inr ⟨_, reads_outOfRange (element?_eq_none hp) s rfl, hwrite⟩
  · have hobject' : ∀ r key, x = .object r → k ≠ .string key :=
      fun r key hr hk => hobject ⟨r, key, hr, hk⟩
    have harray' : ∀ r i, x = .array r → k ≠ .number i :=
      fun r i hr hk => harray ⟨r, i, hr, hk⟩
    exact .inr ⟨_, reads_badKey hobject' harray' s.store s rfl,
      writeKey_eq_refuse hobject' harray' v s⟩

end Store

namespace Interpreter

variable {i : Interpreter} {st : Store} {c : ScopeRef} {container key : Expr} {x k : Value}
  {s t : State}

/-- The value of an index expression is read when container and key have been evaluated. -/
lemma ends_evalIndex (hcontainer : i.Ends st (fun ev => ev.expr container c) (.value x t))
    (hkey : (i.after t).Ends t.store (fun ev => ev.expr key c) (.value k s))
    (hread : readKey x k s ≠ .unfinished) :
    i.Ends st (fun ev => ev.evalIndex c container key) (readKey x k s) := by
  refine (ends_iff (i.toSetting.level_comeTo.evalIndex c container key)).mpr ⟨hread, ?_⟩
  have hfirst : i.toSetting.full.expr container c (i.start st) = .value x t :=
    full_of_ends_expr hcontainer
  have hsecond : i.toSetting.full.expr key c t = .value k s := full_of_ends_expr hkey
  rw [Evaluator.evalIndex, Action.bind_apply, hfirst]
  show (i.toSetting.full.expr key c >>= fun k => readKey x k) t = _
  rw [Action.bind_apply, hsecond]

/-- A value is written to an index expression when container and key have been evaluated. -/
lemma ends_assignIndex (hcontainer : i.Ends st (fun ev => ev.expr container c) (.value x t))
    (hkey : (i.after t).Ends t.store (fun ev => ev.expr key c) (.value k s))
    (hx : x.isContainer = true) {v : Value} (hwrite : writeKey x k v s ≠ .unfinished) :
    i.Ends st (fun ev => ev.assignIndex c container key v) (writeKey x k v s) :=
  (ends_iff (i.toSetting.level_comeTo.assignIndex c container key v)).mpr
    ⟨hwrite, Evaluator.assignIndex_apply (full_of_ends_expr hcontainer) hx
      (full_of_ends_expr hkey) v⟩

end Interpreter

/-- In every state and under every key a container can be read and written, or neither; what refuses
the one refuses the other with the same fault, and changes nothing.  A write has the effects of
`Store.WrittenUnder`.  To these come index expressions, as values and as targets, when container and
key have been evaluated. -/
theorem read_write_laws (x k v : Value) (s : State) (hx : x.isContainer = true)
    (hhas : ∀ n, x.node? = some n → s.store.Has n) :
    ((∃ w st', readKey x k s = .value w s ∧ writeKey x k v s = .value () { s with store := st' } ∧
        s.store.WrittenUnder x k v st') ∨
      ∃ fault, readKey x k s = .error (.ofFault fault) s ∧
        writeKey x k v s = .error (.ofFault fault) s) ∧
    ∀ (i : Interpreter) (st : Store) (c : ScopeRef) (container key : Expr) (t : State),
      i.Ends st (fun ev => ev.expr container c) (.value x t) →
      (i.after t).Ends t.store (fun ev => ev.expr key c) (.value k s) →
      i.Ends st (fun ev => ev.evalIndex c container key) (readKey x k s) ∧
      i.Ends st (fun ev => ev.assignIndex c container key v) (writeKey x k v s) := by
  have hboth := Store.read_write (k := k) v hx hhas
  refine ⟨hboth, fun i st c container key t hcontainer hkey => ⟨?_, ?_⟩⟩
  · refine Interpreter.ends_evalIndex hcontainer hkey ?_
    rcases hboth with ⟨w, st', hread, -, -⟩ | ⟨fault, hread, -⟩ <;> rw [hread] <;> simp
  · refine Interpreter.ends_assignIndex hcontainer hkey hx ?_
    rcases hboth with ⟨w, st', -, hwrite, -⟩ | ⟨fault, -, hwrite⟩ <;> rw [hwrite] <;> simp

/-- An array that is written into itself, as its first element, keeps the second one. -/
theorem read_write_laws_cyclic :
    let st := (({} : Store).newArray #[.number 1, .number 5]).2
    let a : Value := .array ⟨0⟩
    a.isContainer = true ∧ (∀ n, a.node? = some n → st.Has n) ∧
      ∃ st', writeKey a (.number 0) a { store := st } = .value () { store := st' } ∧
        st.WrittenUnder a (.number 0) a st' ∧
        readKey a (.number 1) { store := st' } = .value (.number 5) { store := st' } := by
  intro st a
  have hhas : ∀ n, a.node? = some n → st.Has n := by
    rintro n ⟨⟩
    decide
  have hfirst : readKey a (.number 0) { store := st } = .value (.number 1) { store := st } := rfl
  have hsecond : readKey a (.number 1) { store := st } = .value (.number 5) { store := st } := rfl
  refine ⟨rfl, hhas, ?_⟩
  rcases (read_write_laws a (.number 0) a { store := st } rfl hhas).1 with
    ⟨w, st', -, hwrite, hwritten⟩ | ⟨fault, hread, -⟩
  · refine ⟨st', hwrite, hwritten, ?_⟩
    obtain ⟨r, hbefore, hafter⟩ := hwritten.others (.number 1) (by decide) rfl
    have hr : Outcome.ofExcept r { store := st } = .value (.number 5) { store := st } :=
      (hbefore _ rfl).symm.trans hsecond
    cases r with
    | ok w =>
      cases hr
      exact hafter _ rfl
    | error e => cases hr
  · rw [hfirst] at hread
    cases hread

end TreeWalk
