/-
# What an object lists

An object is a map.  However a host writes to a new object, and whatever it writes in between to
other ones, the entries of the object are the keys that were written, each once and in the order of
their bytes, with the value last written under each (`Store.Blank.lists`).  So the order of the
writes can only be seen in what they replace: two objects with the same last values look the same
(`Store.Lists.alike`), unless they are inside of these.  An object literal is written by its entries
in source order (`Interpreter.ends_objectLiteral_iff`).
-/
import TreeWalk.Proofs.ByteOrder
import TreeWalk.Proofs.PlainData
import TreeWalk.Proofs.TakenBreaks

namespace TreeWalk

open Relation

/-- A write of an entry. -/
structure Write where
  /-- The object that is written to. -/
  object : ObjectRef
  /-- The key of the entry. -/
  key : String
  /-- The value of the entry. -/
  value : Value

/-- The value last written to an object under a key, if there is one. -/
def lastValue (ws : List Write) (r : ObjectRef) (key : String) : Option Value :=
  (ws.filter fun w => w.object = r ∧ w.key = key).getLast?.map Write.value

lemma lastValue_concat (ws : List Write) (w : Write) (r : ObjectRef) (key : String) :
    lastValue (ws ++ [w]) r key =
      if w.object = r ∧ w.key = key then some w.value else lastValue ws r key := by
  unfold lastValue
  split
  · next h => simp [h]
  · next h => simp [h]

namespace Store

/-- The store after one write after another. -/
def writeAll (st : Store) (ws : List Write) : Store :=
  ws.foldl (fun st w => st.setEntry w.object w.key w.value) st

/-- There is an object, and it has no entries. -/
structure Blank (st : Store) (r : ObjectRef) : Prop where
  has : st.Has (.object r)
  empty : (st.object r).isEmpty

/-- The entries of an object are the keys under which `m` has a value, with these values. -/
structure Lists (st : Store) (r : ObjectRef) (m : String → Option Value) : Prop where
  mem : ∀ key v, (key, v) ∈ (st.object r).toList ↔ m key = some v
  /-- No key is listed more than once. -/
  count : ∀ key, ((st.object r).toList.map Prod.fst).count key = if (m key).isSome then 1 else 0
  /-- The keys are in the order of their bytes. -/
  increasing : (st.object r).toList.Pairwise fun a b => Text.bytes a.1 < Text.bytes b.1
  /-- What is read under a key is what is listed, and nil if nothing is. -/
  entry : ∀ key, st.entry r key = ((st.object r).toList.lookup key).getD .nil
  contains : ∀ key, (st.object r).contains key = ((st.object r).toList.lookup key).isSome
  size : (st.object r).size = (st.object r).toList.length

variable {st : Store} {r r₁ r₂ : ObjectRef} {ws : List Write} {m : String → Option Value}
  {key : String} {v : Value}

lemma writeAll_concat (ws : List Write) (w : Write) :
    st.writeAll (ws ++ [w]) = (st.writeAll ws).setEntry w.object w.key w.value := by
  rw [writeAll, List.foldl_append]
  rfl

lemma le_writeAll (st : Store) (ws : List Write) : st ≤ st.writeAll ws := by
  induction ws using List.reverseRecOn with
  | nil => exact le_rfl
  | append_singleton ws w ih =>
    rw [writeAll_concat]
    exact ih.trans (edits_setEntry _ _ _ _).le

/-- The last write under a key is read, and what was there before if there is none. -/
lemma getElem?_writeAll (h : st.Has (.object r)) (ws : List Write) (key : String) :
    ((st.writeAll ws).object r)[key]? = (lastValue ws r key).or (st.object r)[key]? := by
  induction ws using List.reverseRecOn with
  | nil => rfl
  | append_singleton ws w ih =>
    rw [writeAll_concat, object_setEntry, lastValue_concat]
    by_cases hr : w.object = r
    · have hhas : r.index < (st.writeAll ws).objects.size := has_of_le (le_writeAll st ws) h
      rw [if_pos ⟨hr, hhas⟩, Std.TreeMap.getElem?_insert]
      by_cases hkey : w.key = key
      · simp [hr, hkey]
      · simp [hr, hkey, ih]
    · simp [hr, ih]

/-- Of a table, the first entry with a key is the only one. -/
lemma lookup_toList (t : Table) (key : String) : t.toList.lookup key = t[key]? := by
  refine Option.ext fun v => ?_
  rw [List.lookup_eq_some_iff, ← Std.TreeMap.mem_toList_iff_getElem?_eq_some]
  constructor
  · rintro ⟨before, after, heq, -⟩
    exact heq ▸ List.mem_append_right _ List.mem_cons_self
  · intro hmem
    obtain ⟨before, after, heq⟩ := List.mem_iff_append.mp hmem
    have hdistinct := heq ▸ Std.TreeMap.distinct_keys_toList (t := t)
    refine ⟨before, after, heq, fun e he => bne_iff_ne.mpr fun hkey => ?_⟩
    refine (List.pairwise_append.mp hdistinct).2.2 e he (key, v) List.mem_cons_self ?_
    rw [hkey]
    exact Std.ReflCmp.compare_self

/-- An object lists the entries of its table. -/
lemma lists_getElem? (st : Store) (r : ObjectRef) : st.Lists r fun key => (st.object r)[key]? where
  mem key v := Std.TreeMap.mem_toList_iff_getElem?_eq_some
  count key := by
    rw [Std.TreeMap.map_fst_toList_eq_keys, Std.TreeMap.nodup_keys.count]
    simp only [Std.TreeMap.mem_keys, Std.TreeMap.isSome_getElem?_iff_mem]
  increasing := (st.object_toList_ordered r).imp fun h => (Text.bytes_lt_iff _ _).mpr h
  entry key := by rw [lookup_toList, entry, Std.TreeMap.getD_eq_getD_getElem?]
  contains key := by rw [lookup_toList, Std.TreeMap.contains_eq_isSome_getElem?]
  size := Std.TreeMap.length_toList.symm

/-- A new object lists the values last written to it. -/
lemma Blank.lists (h : st.Blank r) (ws : List Write) :
    (st.writeAll ws).Lists r (lastValue ws r) := by
  have hlast : (fun key => ((st.writeAll ws).object r)[key]?) = lastValue ws r := by
    funext key
    rw [getElem?_writeAll h.has, Std.TreeMap.getElem?_of_isEmpty h.empty, Option.or_none]
  exact hlast ▸ lists_getElem? _ r

/-! ### Objects with the same entries -/

/-- Two objects with the same last values have the same list of entries. -/
lemma Lists.toList_eq (h₁ : st.Lists r₁ m) (h₂ : st.Lists r₂ m) :
    (st.object r₁).toList = (st.object r₂).toList := by
  refine Std.TreeMap.equiv_iff_toList_eq.mp (.of_forall_constGet?_eq fun key => ?_)
  refine Option.ext fun v => ?_
  have hmem := (h₁.mem key v).trans (h₂.mem key v).symm
  rwa [Std.TreeMap.mem_toList_iff_getElem?_eq_some, Std.TreeMap.mem_toList_iff_getElem?_eq_some]
    at hmem

/-- Below which containers a value is unfolded makes no difference, as long as they are as many and
the same ones among them can be come to from the value. -/
lemma unfolding_congr {path path' : List Value} (hlength : path.length = path'.length)
    (hmem : ∀ w, ReflTransGen st.Holds v w → (w ∈ path ↔ w ∈ path')) :
    st.unfolding path v = st.unfolding path' v := by
  have hU := st.unfolds_unfolding
  -- by induction on the number of containers that there is room for below the paths
  induction hroom : 128 - path.length generalizing path path' v with
  | zero =>
    have hdeep : 128 ≤ path.length := by omega
    cases hv : v.isContainer with
    | false => rw [hU.leaf path v hv, hU.leaf path' v hv]
    | true => rw [(hU.elided path v hv).mpr hdeep, (hU.elided path' v hv).mpr (hlength ▸ hdeep)]
  | succ room ih =>
    have hshallow : path.length < 128 := by omega
    have hshallow' : path'.length < 128 := by omega
    have hbelow (w : Value) (hw : st.Holds v w) :
        st.unfolding (v :: path) w = st.unfolding (v :: path') w := by
      refine ih (by simp [hlength]) (fun u hu => ?_) (by rw [List.length_cons]; omega)
      rw [List.mem_cons, List.mem_cons, hmem u (.head hw hu)]
    cases hv : v.isContainer with
    | false => rw [hU.leaf path v hv, hU.leaf path' v hv]
    | true =>
      by_cases hin : v ∈ path
      · rw [(hU.cycle path v hv).mpr ⟨hshallow, hin⟩,
          (hU.cycle path' v hv).mpr ⟨hshallow', (hmem v .refl).mp hin⟩]
      · have hin' : v ∉ path' := fun h => hin ((hmem v .refl).mpr h)
        rcases v.container_cases hv with ⟨r, rfl⟩ | ⟨r, rfl⟩
        · rw [hU.object path r hshallow hin, hU.object path' r hshallow' hin',
            List.map_congr_left fun e he => by rw [hbelow e.2 (.entry he)]]
        · rw [hU.array path r hshallow hin, hU.array path' r hshallow' hin',
            List.map_congr_left fun w hw => hbelow w (.element hw)]

/-- Two objects with the same entries, which lead to neither of them, are unfolded in the same
way. -/
lemma unfolding_object_congr (hentries : (st.object r₁).toList = (st.object r₂).toList)
    (hout : ∀ e ∈ (st.object r₁).toList, ∀ r, r = r₁ ∨ r = r₂ →
      ¬ ReflTransGen st.Holds e.2 (.object r)) :
    st.unfolding [] (.object r₁) = st.unfolding [] (.object r₂) := by
  have hU := st.unfolds_unfolding
  rw [hU.object [] r₁ (by simp) (by simp), hU.object [] r₂ (by simp) (by simp), ← hentries]
  refine congrArg Shown.object (List.map_congr_left fun e he => ?_)
  have hsame : st.unfolding [.object r₁] e.2 = st.unfolding [.object r₂] e.2 := by
    refine unfolding_congr rfl fun w hw => ?_
    rw [List.mem_singleton, List.mem_singleton]
    constructor
    · rintro rfl
      exact absurd hw (hout e he r₁ (.inl rfl))
    · rintro rfl
      exact absurd hw (hout e he r₂ (.inr rfl))
  rw [hsame]

/-! ### Object literals -/

lemma blank_newObject (st : Store) : (st.newObject ∅).2.Blank (st.newObject ∅).1 where
  has := ((st.makes_newObject ∅).has _).mpr (.inr rfl)
  empty := by
    rw [object_newObject, if_pos rfl]
    exact Std.TreeMap.isEmpty_emptyc

/-- An object with entries is a new object to which they are written. -/
lemma writeAll_newObject (st : Store) (t : Table) (h : ∀ w ∈ ws, w.object = (st.newObject t).1) :
    (st.newObject t).2.writeAll ws =
      (st.newObject (ws.foldl (fun t w => t.insert w.key w.value) t)).2 := by
  induction ws generalizing t with
  | nil => rfl
  | cons w ws ih =>
    have hw : (st.newObject t).2.setEntry w.object w.key w.value =
        (st.newObject (t.insert w.key w.value)).2 := by
      rw [h w List.mem_cons_self]
      simp only [newObject, setEntry, Heap.modify_push]
    have hws := ih (t.insert w.key w.value) fun w' hw' => h w' (List.mem_cons_of_mem _ hw')
    rw [List.foldl_cons, ← hws, ← hw]
    rfl

end Store

/-- The writes of values to an object, one for each entry of a literal. -/
def literalWrites (r : ObjectRef) (entries : List (String × Expr)) (vs : List Value) : List Write :=
  List.zipWith (fun entry v => ⟨r, entry.1, v⟩) entries vs

lemma object_of_mem_literalWrites (r : ObjectRef) (entries : List (String × Expr))
    (vs : List Value) : ∀ w ∈ literalWrites r entries vs, w.object = r := by
  induction entries generalizing vs with
  | nil => nofun
  | cons entry entries ih =>
    cases vs with
    | nil => nofun
    | cons v vs => exact List.forall_mem_cons.mpr ⟨rfl, ih vs⟩

namespace Interpreter

/-- Expressions are evaluated in the scope `c` one after another, each once, and have these
values. -/
inductive EvaluatesAll (c : ScopeRef) :
    Interpreter → Store → List Expr → List Value → State → Prop
  | nil {i : Interpreter} {st : Store} : EvaluatesAll c i st [] [] (i.start st)
  | cons {i : Interpreter} {st : Store} {e : Expr} {es : List Expr} {v : Value} {vs : List Value}
      {u t : State} (he : i.Ends st (fun ev => ev.expr e c) (.value v u))
      (hes : EvaluatesAll c (i.after u) u.store es vs t) :
      EvaluatesAll c i st (e :: es) (v :: vs) t

variable {i : Interpreter} {st : Store} {c : ScopeRef}

/-- The entries of a literal are put into a table with the values that they are evaluated to. -/
lemma evalEntries_eq_value {entries : List (String × Expr)} {t₀ t : Table} {s : State}
    (r : ObjectRef) :
    (entries.foldlM (fun t entry => do return t.insert entry.1 (← i.full.expr entry.2 c)) t₀ :
        Action Table) (i.start st) = .value t s ↔
      ∃ vs, EvaluatesAll c i st (entries.map Prod.snd) vs s ∧
        t = (literalWrites r entries vs).foldl (fun t w => t.insert w.key w.value) t₀ := by
  induction entries generalizing i st t₀ with
  | nil =>
    constructor
    · rintro ⟨⟩
      exact ⟨[], .nil, rfl⟩
    · rintro ⟨vs, ⟨⟩, rfl⟩
      rfl
  | cons entry entries ih =>
    rw [List.foldlM_cons, bind_assoc, Action.bind_eq_value]
    constructor
    · rintro ⟨v, u, hv, hrest⟩
      obtain ⟨vs, hvs, rfl⟩ := (ih (i := i.after u)).mp hrest
      exact ⟨v :: vs, .cons (ends_expr_iff.mpr ⟨nofun, hv⟩) hvs, rfl⟩
    · rintro ⟨vs, ⟨⟩ | ⟨hv, hvs⟩, rfl⟩
      exact ⟨_, _, (ends_expr_iff.mp hv).2, ih.mpr ⟨_, hvs, rfl⟩⟩

/-- An object literal comes to an end if its step is taken and its values are evaluated, in source
order.  It is then a new object, to which these have been written in this order. -/
lemma ends_objectLiteral_iff {span : Span} {entries : List (String × Expr)} {v : Value}
    {s : State} :
    i.Ends st (fun ev => ev.expr ⟨span, .object entries⟩ c) (.value v s) ↔
      i.MayStep (i.start st) ∧ ∃ vs t r made,
        EvaluatesAll c i.ticked st (entries.map Prod.snd) vs t ∧
        t.store.newObject ∅ = (r, made) ∧ v = .object r ∧
        s = { t with store := made.writeAll (literalWrites r entries vs) } := by
  have hentries (t : Table) (u : State) (r : ObjectRef) :
      i.full.evalEntries c entries (i.start st).ticked = .value t u ↔
        ∃ vs, i.ticked.EvaluatesAll c st (entries.map Prod.snd) vs u ∧
          t = (literalWrites r entries vs).foldl (fun t w => t.insert w.key w.value) ∅ :=
    evalEntries_eq_value (i := i.ticked) r
  -- the object of a literal is made when its table is there
  have hmade (t : State) (vs : List Value) :=
    t.store.writeAll_newObject ∅ (object_of_mem_literalWrites (t.store.newObject ∅).1 entries vs)
  rw [ends_expr_iff, Setting.full_expr]
  refine (and_iff_right nofun).trans <|
    Action.blame_eq_value.trans <| Setting.tick_bind_eq_value.trans <| and_congr_right' ?_
  rw [Evaluator.evalKind, Action.bind_eq_value]
  constructor
  · rintro ⟨t, u, ht, hrest⟩
    obtain ⟨vs, hvs, rfl⟩ := (hentries t u (u.store.newObject ∅).1).mp ht
    cases hrest
    exact ⟨vs, u, _, _, hvs, rfl, rfl,
      congrArg (fun made => { u with store := made }) (hmade u vs).symm⟩
  · rintro ⟨vs, t, r, made, hvs, hnew, rfl, rfl⟩
    cases hnew
    exact ⟨_, t, (hentries _ t (t.store.newObject ∅).1).mpr ⟨vs, hvs, rfl⟩,
      congrArg (fun made => Outcome.value _ { t with store := made }) (hmade t vs).symm⟩

end Interpreter

/-- Objects are maps, and the last write wins.  However it is written to, a new object lists the
keys written to it, each once, in the order of their bytes and with the value last written under it.
What is read under any key, whether there is an entry, and the number of entries agree with the
list.  Two new objects with the same last values, none of which leads to one of them, have the same
entries, the same text and the same data, whatever the writes were.  An object literal evaluates its
values in source order, each once, and is a new object to which they are written in this order, and
which can then be written to like any other. -/
theorem last_write_wins (i : Interpreter) (st : Store) (ws : List Write) :
    (∀ r, st.Blank r → (st.writeAll ws).Lists r (lastValue ws r)) ∧
    (∀ r₁ r₂, st.Blank r₁ → st.Blank r₂ → lastValue ws r₁ = lastValue ws r₂ →
      (∀ key v, lastValue ws r₁ key = some v → ∀ r, r = r₁ ∨ r = r₂ →
        ¬ ReflTransGen (st.writeAll ws).Holds v (.object r)) →
      ((st.writeAll ws).object r₁).toList = ((st.writeAll ws).object r₂).toList ∧
      (st.writeAll ws).text (.object r₁) = (st.writeAll ws).text (.object r₂) ∧
      (st.writeAll ws).json (.object r₁) = (st.writeAll ws).json (.object r₂)) ∧
    ∀ c span entries v s,
      i.Ends st (fun ev => ev.expr ⟨span, .object entries⟩ c) (.value v s) ↔
        i.MayStep (i.start st) ∧ ∃ vs t r made,
          i.ticked.EvaluatesAll c st (entries.map Prod.snd) vs t ∧
          t.store.newObject ∅ = (r, made) ∧ v = .object r ∧
          s = { t with store := made.writeAll (literalWrites r entries vs) } ∧
          ∀ ws, (s.store.writeAll ws).Lists r (lastValue (literalWrites r entries vs ++ ws) r) := by
  refine ⟨fun r h => h.lists ws, fun r₁ r₂ h₁ h₂ hlast hout => ?_, fun c span entries v s => ?_⟩
  · have hlists : (st.writeAll ws).Lists r₂ (lastValue ws r₁) := hlast ▸ h₂.lists ws
    have hentries := (h₁.lists ws).toList_eq hlists
    have hunfold := Store.unfolding_object_congr hentries fun e he =>
      hout e.1 e.2 (((h₁.lists ws).mem e.1 e.2).mp he)
    exact ⟨hentries, by rw [Store.text_eq, Store.text_eq, hunfold],
      by rw [Store.json_eq, Store.json_eq, hunfold]⟩
  · rw [Interpreter.ends_objectLiteral_iff]
    refine and_congr_right' (exists₄_congr fun vs t r made => and_congr_right' ?_)
    refine and_congr_right fun hnew => and_congr_right' (iff_self_and.mpr ?_)
    rintro rfl ws
    have hblank : made.Blank r := by
      have h := t.store.blank_newObject
      rwa [hnew] at h
    rw [show (made.writeAll (literalWrites r entries vs)).writeAll ws =
      made.writeAll (literalWrites r entries vs ++ ws) from (List.foldl_append ..).symm]
    exact hblank.lists _

/-- Two objects are written in different orders, with a key of three bytes that comes before one of
four bytes.  A literal replaces the first value of a key by its last one. -/
theorem last_write_wins_four_bytes :
    let st : Store := ((Store.newObject {} ∅).2.newObject ∅).2
    let ws : List Write := [⟨⟨0⟩, "😀", .number 1⟩, ⟨⟨0⟩, "\uffff", .number 2⟩,
      ⟨⟨1⟩, "\uffff", .number 2⟩, ⟨⟨0⟩, "😀", .number 3⟩, ⟨⟨1⟩, "😀", .number 3⟩]
    let i := (Interpreter.create {} {}).1
    let globals := (Interpreter.create {} {}).2
    let entries : List (String × Expr) := [("b", .synthetic (.number 1)),
      ("a", .synthetic (.number 2)), ("b", .synthetic (.number 3))]
    ((st.writeAll ws).object ⟨0⟩).toList = [("\uffff", .number 2), ("😀", .number 3)] ∧
      (st.writeAll ws).text (.object ⟨0⟩) = (st.writeAll ws).text (.object ⟨1⟩) ∧
      (st.writeAll ws).json (.object ⟨0⟩) = (st.writeAll ws).json (.object ⟨1⟩) ∧
      ∃ s vs, i.Ends globals (fun ev => ev.expr (.synthetic (.object entries)) i.globals)
          (.value (.object ⟨0⟩) s) ∧
        (s.store.object ⟨0⟩).toList = [("a", .number 2), ("b", .number 3)] ∧
        s.store.Lists ⟨0⟩ (lastValue (literalWrites ⟨0⟩ entries vs) ⟨0⟩) := by
  intro st ws i globals entries
  have hlast (r : ObjectRef) (hr : r = ⟨0⟩ ∨ r = ⟨1⟩) : lastValue ws r = fun key =>
      if "😀" = key then some (.number 3)
      else if "\uffff" = key then some (.number 2) else none := by
    funext key
    rcases hr with rfl | rfl <;> by_cases h : "😀" = key <;> by_cases h' : "\uffff" = key <;>
      simp [lastValue, ws, h, h']
  have hnumber (key : String) (v : Value) (hv : lastValue ws ⟨0⟩ key = some v) :
      ∃ n, v = .number n := by
    rw [hlast _ (.inl rfl)] at hv
    dsimp only at hv
    split_ifs at hv <;> cases hv <;> exact ⟨_, rfl⟩
  obtain ⟨-, hsame, -⟩ := last_write_wins i st ws
  obtain ⟨-, htext, hjson⟩ := hsame ⟨0⟩ ⟨1⟩ ⟨by decide, by decide⟩ ⟨by decide, by decide⟩
    ((hlast _ (.inl rfl)).trans (hlast _ (.inr rfl)).symm) fun key v hv r _ hreach => by
      obtain ⟨n, rfl⟩ := hnumber key v hv
      rcases hreach.cases_head with hr | ⟨w, hw, -⟩
      · cases hr
      · cases hw
  refine ⟨by decide +kernel, htext, hjson, ?_⟩
  obtain ⟨v, s, hends, hv⟩ := Interpreter.Ends.of_passes i globals
    (fun ev => ev.expr (.synthetic (.object entries)) i.globals)
    (fun v s => decide (v = .object ⟨0⟩ ∧
      (s.store.object ⟨0⟩).toList = [("a", .number 2), ("b", .number 3)])) 5 (by decide +kernel)
  obtain ⟨rfl, hentries⟩ := of_decide_eq_true hv
  obtain ⟨-, vs, t, r, made, -, -, hr, -, hlists⟩ :=
    ((last_write_wins i globals []).2.2 i.globals _ _ _ s).mp hends
  cases hr
  refine ⟨s, vs, hends, hentries, ?_⟩
  have h := hlists []
  rwa [List.append_nil] at h

end TreeWalk
