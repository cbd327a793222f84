/-
# Containers never shrink

No elementary action makes an array shorter or takes a key from an object (`Store.Grown`).  That what
was there stays is a relation that evaluation passes on (`Compatible.growing`), whatever the builtins
of a library do, and so it holds of all that hosts do one after another (`Library.grown_of_steps`).
Arrays become longer by what builtins do, and by nothing else: where no builtin is in reach all of
them have the lengths that they had (`Library.lengths_kept`).
-/
import TreeWalk.Proofs.Intact
import TreeWalk.Proofs.Libraries

namespace TreeWalk

open Relation

namespace Store

/-- Every array has at least the length that it had, and every object the keys. -/
structure Grown (st st' : Store) : Prop where
  size : ∀ r, (st.array r).size ≤ (st'.array r).size
  contains : ∀ r key, (st.object r).contains key → (st'.object r).contains key

lemma position?_isSome_mono {index : Int64} {n m : Nat} (hnm : n ≤ m)
    (h : (position? index n).isSome) : (position? index m).isSome := by
  unfold position? at h ⊢
  split at h
  · rw [if_pos (by omega)]
    rfl
  · cases h

namespace Grown

variable {st st' st'' : Store}

lemma refl (st : Store) : st.Grown st := ⟨fun _ => Nat.le_refl _, fun _ _ h => h⟩

lemma trans (h : st.Grown st') (h' : st'.Grown st'') : st.Grown st'' :=
  ⟨fun r => (h.size r).trans (h'.size r), fun r key hkey => h'.contains r key (h.contains r key hkey)⟩

/-- An element that could be read can be read. -/
lemma element? (h : st.Grown st') {r : ArrayRef} {index : Int64}
    (hi : (st.element? r index).isSome) : (st'.element? r index).isSome := by
  unfold Store.element? at hi ⊢
  rw [Option.isSome_map] at hi ⊢
  exact position?_isSome_mono (h.size r) hi

/-! ### The operations on cells -/

/-- Only arrays and objects are looked at. -/
lemma of_eq (harrays : st'.arrays = st.arrays) (hobjects : st'.objects = st.objects) :
    st.Grown st' := by
  constructor
  · intro r
    rw [array, array, harrays]
  · intro r key h
    rwa [object, hobjects]

lemma newObject (st : Store) (t : Table) : st.Grown (st.newObject t).2 := by
  refine ⟨fun _ => Nat.le_refl _, fun r key h => ?_⟩
  rw [object_newObject]
  split
  · next hr =>
    -- where the new object is there were no keys
    have hempty : st.object (st.newObject t).1 = default := Heap.get_of_size_le (Nat.le_refl _)
    rw [hr, hempty] at h
    cases h
  · exact h

lemma newArray (st : Store) (items : Array Value) : st.Grown (st.newArray items).2 := by
  refine ⟨fun r => ?_, fun _ _ h => h⟩
  rw [array_newArray]
  split
  · next hr =>
    have hempty : st.array (st.newArray items).1 = default := Heap.get_of_size_le (Nat.le_refl _)
    rw [hr, hempty]
    exact Nat.zero_le _
  · exact Nat.le_refl _

lemma setEntry (st : Store) (r : ObjectRef) (key : String) (v : Value) :
    st.Grown (st.setEntry r key v) := by
  refine ⟨fun _ => Nat.le_refl _, fun q key' h => ?_⟩
  rw [object_setEntry]
  split
  · rw [Std.TreeMap.contains_insert, h, Bool.or_true]
  · exact h

lemma pushElement (st : Store) (r : ArrayRef) (v : Value) : st.Grown (st.pushElement r v) := by
  refine ⟨fun q => ?_, fun _ _ h => h⟩
  rw [array_pushElement]
  split
  · rw [Array.size_push]
    exact Nat.le_succ _
  · exact Nat.le_refl _

lemma setElement (st : Store) (r : ArrayRef) (index : Int64) (v : Value) :
    st.Grown (st.setElement r index v) :=
  ⟨fun q => ((st.edits_setElement r index v).size_array nofun q).ge, fun _ _ h => h⟩

end Grown

end Store

namespace Action

variable {α β : Type}

/-- However the action ends, no array has become shorter and no object has lost a key. -/
def Grows (x : Action α) : Prop := ∀ s t, (x s).EndsIn t → s.store.Grown t.store

namespace Grows

variable {x : Action α}

lemma update {f : Store → Store} (hf : ∀ st : Store, st.Grown (f st)) :
    Grows (Action.update f) := by
  rintro s t ⟨⟩
  exact hf s.store

lemma create {f : Store → α × Store} (hf : ∀ st : Store, st.Grown (f st).2) :
    Grows (Action.create f) := by
  rintro s t ⟨⟩
  exact hf s.store

/-- What leaves the store as it is. -/
lemma of_eq (h : ∀ s t, (x s).EndsIn t → t.store = s.store) : x.Grows :=
  fun s t ht => h s t ht ▸ .refl _

lemma bind {f : α → Action β} (hx : x.Grows) (hf : ∀ a, (f a).Grows) : (x >>= f).Grows := by
  intro s t ht
  rcases endsIn_bind ht with ⟨a, u, hu, ht⟩ | ht
  · exact (hx s u (.of_value hu)).trans (hf a u t ht)
  · exact hx s t ht

lemma blame (hx : x.Grows) (span : Span) : (Action.blame span x).Grows :=
  fun s t ht => hx s t (endsIn_blame ht)

lemma tick (limit : Option UInt64) : Grows (Action.tick limit) := by
  refine of_eq fun s t ht => ?_
  cases limit with
  | none =>
    cases ht
    rfl
  | some l =>
    rw [tick_some] at ht
    split at ht <;> cases ht <;> rfl

/-- To grow depends on the stores alone in which the action starts and ends. -/
lemma of_endsIn {y : Action β} (hx : x.Grows) (h : ∀ s t, (y s).EndsIn t →
    ∃ s' t', (x s').EndsIn t' ∧ s'.store = s.store ∧ t'.store = t.store) : y.Grows := by
  intro s t ht
  obtain ⟨s', t', ht', hs, ht⟩ := h s t ht
  exact hs ▸ ht ▸ hx s' t' ht'

lemma attempt (hx : x.Grows) : (Action.attempt x).Grows := by
  refine hx.of_endsIn fun s t ht => ?_
  rw [attempt_apply] at ht
  cases h : x s <;> rw [h] at ht <;> cases ht
  · exact ⟨s, _, .of_value h, rfl, rfl⟩
  · exact ⟨s, _, .of_error h, rfl, rfl⟩

lemma nested (hx : x.Grows) : (Action.nested x).Grows := by
  refine hx.of_endsIn fun s t ht => ?_
  rw [nested_apply] at ht
  cases h : x { s with depth := s.depth + 1 } <;> rw [h] at ht <;> cases ht
  · exact ⟨_, _, .of_value h, rfl, rfl⟩
  · exact ⟨_, _, .of_error h, rfl, rfl⟩

lemma apart (hx : x.Grows) (depth steps : Nat) : (Action.apart depth steps x).Grows := by
  refine hx.of_endsIn fun s t ht => ?_
  unfold Action.apart at ht
  cases h : x { store := s.store, depth, steps } <;> rw [h] at ht <;> cases ht
  · exact ⟨_, _, .of_value h, rfl, rfl⟩
  · exact ⟨_, _, .of_error h, rfl, rfl⟩

end Grows

/-- No elementary action makes a container smaller. -/
theorem Elementary.grows {x : Action α} (h : x.Elementary) : x.Grows := by
  induction h with
  | inspect f =>
    refine .of_eq fun s t ht => ?_
    unfold Action.inspect at ht
    split at ht <;> cases ht <;> rfl
  | newScope _ => exact .create fun _ => .of_eq rfl rfl
  | newObject t => exact .create fun st => .newObject st t
  | newArray items => exact .create fun st => .newArray st items
  | newClosure _ => exact .create fun _ => .of_eq rfl rfl
  | newBuiltin _ => exact .create fun _ => .of_eq rfl rfl
  | define _ _ _ => exact .update fun _ => .of_eq rfl rfl
  | setParent _ _ => exact .update fun _ => .of_eq rfl rfl
  | setEntry r key v => exact .update fun st => .setEntry st r key v
  | pushElement r v => exact .update fun st => .pushElement st r v
  | setElement r index v => exact .update fun st => .setElement st r index v
  | bind _ _ ihx ihf => exact ihx.bind ihf
  | blame _ span ih => exact ih.blame span

end Action

/-- To grow, as a relation that does not look at the second action. -/
def Compatible.growing : Compatible where
  Rel x _ := x.Grows
  elementary h := h.grows
  unfinished _ := nofun
  bind hx hf := hx.bind hf
  blame span hx := hx.blame span
  tick := .tick
  callDepth := .of_eq fun s t ht => by cases ht; rfl
  nested hx := hx.nested

/-- What is scripted grows if all that evaluators do grows. -/
lemma Scripted.grows {α : Type} {task : (Setting → Evaluator) → Action α} (htask : Scripted task)
    {evs : Setting → Evaluator} (h : ∀ σ, Compatible.growing.Related (evs σ) (evs σ)) :
    (task evs).Grows := by
  induction htask with
  | elementary hx => exact hx.grows
  | steps => exact .of_eq fun s t ht => by cases ht; rfl
  | bind _ _ ihx ihf => exact ihx.bind ihf
  | attempt _ ihx => exact ihx.attempt
  | apart depth steps _ ihx => exact ihx.apart depth steps
  | run σ program => exact (h σ).runFrom _ _ program
  | eval σ e c => exact (h σ).expr e c
  | assign σ target v c => exact (h σ).assign target v c
  | exec σ s c => exact (h σ).stmt s c
  | execAll σ c body => exact (h σ).execAll c body
  | execBlock σ c body => exact (h σ).execBlock c body
  | call σ f args => exact (h σ).call f args
  | runClosure σ f c args => exact (h σ).runClosure _ f c args

namespace Library

variable (lib : Library)

lemma execute_grows {evs : Setting → Evaluator}
    (h : ∀ σ, Compatible.growing.Related (evs σ) (evs σ)) (σ : Setting) (f : Value) (c : ScopeRef)
    (args : List Value) : (lib.execute σ evs f c args).Grows := by
  cases f with
  | builtin r => exact (lib.scripted σ r args).grows h
  | function r => exact .bind (Action.Elementary.grows (.read _)) fun f => (h σ).runClosure _ f c args
  | _ => exact Action.Elementary.grows (.refuse _ _)

/-- All parts of the evaluators of a library grow. -/
lemma level_growing (n : Nat) (σ : Setting) :
    Compatible.growing.Related (lib.level n σ) (lib.level n σ) := by
  induction n generalizing σ with
  | zero => exact .of_stuck _
  | succ n ih =>
    exact {
      rounds := Nat.le_refl _
      tick := .tick _
      expr := (ih σ).evalExpr σ
      assign := (ih σ).assignExpr
      stmt := (ih σ).execStmt σ
      invoke := fun f args => Compatible.growing.enter σ.config.maxCallDepth
        fun c => lib.execute_grows ih σ f c args }

variable {lib}

lemma Step.grown {st st' : Store} (h : lib.Step st st') : st.Grown st' := by
  cases h with
  | perform htask h => exact htask.grows (lib.level_growing _) _ _ h

/-- Whatever hosts do, one thing after another, containers do not become smaller. -/
theorem grown_of_steps {st st' : Store} (h : ReflTransGen lib.Step st st') : st.Grown st' := by
  induction h with
  | refl => exact .refl _
  | tail _ hstep ih => exact ih.trans hstep.grown

end Library

/-! ### Where no builtin is in reach -/

namespace Region

variable {R : Region} {σ : Setting}

/-- In a region without builtins whatever is done with a builtin stays inside: there is none. -/
lemma Sound.of_builtin (hnone : ∀ n, ¬ R.allows n) {w : Store} {r : BuiltinRef}
    (hr : R.Has w (.builtin r)) {α : Type} [Placed α] (x : Action α) : R.Sound w x :=
  fun _ hs => absurd (hs.valid.builtin (hr.mono hs.le)) (hnone _)

end Region

namespace Library

open Region

variable (lib : Library) {R : Region} (hnone : ∀ n, ¬ R.allows n)

/-- In a region without builtins it does not matter what builtins do: evaluations stay inside. -/
theorem sounds_level (n : Nat) (σ : Setting) :
    (Law.sounds (R := R) (σ := σ) fun h => absurd h (hnone _)).Obeys fun _ => lib.level n σ := by
  let L : Law R fun _ : Unit => σ := Law.sounds fun h => absurd h (hnone _)
  show L.Obeys fun _ => lib.level n σ
  induction n with
  | zero => exact Law.sounds_level _ 0
  | succ n ih =>
    have hticks (w : Store) : R.Sound w (Action.tick σ.config.stepLimit) := .tick _
    have hloops := L.loops_above (fun _ => lib.level n σ) (fun _ => Law.sounds_unfinished _ _)
      hticks fun _ => lib.rounds_level n σ
    have habove := ih.above hticks hloops
    refine { habove with invoke := fun w f args hf ha => ?_ }
    by_cases hbuiltin : ∃ r, f = .builtin r
    · obtain ⟨r, rfl⟩ := hbuiltin
      exact .of_builtin hnone (hf.has rfl) _
    · show R.Sound w (lib.enter σ (lib.level n) f args)
      rw [lib.enter_eq fun r hr => hbuiltin ⟨r, hr⟩]
      exact habove.invoke hf ha

end Library

/-- However the action ends that starts in the state `s`, the arrays there were have the lengths that
they had. -/
def Action.KeepsLengths {α : Type} (x : Action α) (s : State) : Prop :=
  ∀ t, (x s).EndsIn t → ∀ r, s.store.Has (.array r) →
    (t.store.array r).size = (s.store.array r).size

/-- Evaluations from the state `s` that begin at some nodes keep the lengths of all arrays. -/
structure Evaluator.KeepsLengths (ev : Evaluator) (s : State) (roots : Node → Prop) : Prop where
  expr : ∀ e c, roots (.scope c) → (ev.expr e c).KeepsLengths s
  assign : ∀ target v c, roots (.scope c) → (∀ m, v.node? = some m → roots m) →
    (ev.assign target v c).KeepsLengths s
  stmt : ∀ x c, roots (.scope c) → (ev.stmt x c).KeepsLengths s
  execAll : ∀ c body, roots (.scope c) → (ev.execAll c body).KeepsLengths s
  execBlock : ∀ c body, roots (.scope c) → (ev.execBlock c body).KeepsLengths s
  run : ∀ c program, roots (.scope c) → (ev.runFrom c .nil program).KeepsLengths s
  call : ∀ f args, (∀ v ∈ f :: args, ∀ m, v.node? = some m → roots m) →
    (ev.call f args).KeepsLengths s

namespace Region

lemma Sound.keepsLengths {R : Region} {α : Type} [Placed α] {x : Action α} {s : State}
    (hs : R.base = s.store) (hpush : ¬ R.allows .push) (hx : R.Sound s.store x) :
    x.KeepsLengths s :=
  fun _ ht => ((hx s ⟨le_rfl, hs ▸ R.valid_base⟩).run ht).size hpush

end Region

/-- Evaluations make no array longer unless a builtin is in reach. -/
theorem Library.keepsLengths (lib : Library) (n : Nat) (σ : Setting) (s : State)
    (roots : Node → Prop) (h : ∀ m r, roots m → ¬ s.store.Reaches m (.builtin r)) :
    (lib.level n σ).KeepsLengths s roots := by
  let R : Region := Region.spanned s.store roots (fun _ => False) h
  have hobeys := lib.sounds_level (R := R) (fun _ h => h) n σ
  have hkeeps {α : Type} [Placed α] {x : Action α} (hx : R.Sound s.store x) : x.KeepsLengths s :=
    hx.keepsLengths rfl id
  have hscope {c : ScopeRef} (hc : roots (.scope c)) : R.Inside s.store c := .inl ⟨_, hc, .refl⟩
  have hvalue {v : Value} (hv : ∀ m, v.node? = some m → roots m) : R.Inside s.store v :=
    fun m hm => .inl ⟨m, hv m hm, .refl⟩
  exact {
    expr := fun e c hc => hkeeps (hobeys.expr (hscope hc) e)
    assign := fun target v c hc hv => hkeeps (hobeys.assign (hscope hc) (hvalue hv) target)
    stmt := fun x c hc => hkeeps (hobeys.stmt (hscope hc) x)
    execAll := fun c body hc => hkeeps (hobeys.stmt.execAll (hscope hc) body)
    execBlock := fun c body hc => hkeeps (hobeys.stmt.execBlock (hscope hc) body)
    run := fun c program hc =>
      hkeeps (hobeys.runFrom (hscope hc) (Region.inside_of_node?_eq_none rfl) program)
    call := fun f args hv => hkeeps (hobeys.call (hvalue (hv f List.mem_cons_self))
      fun v hmem => hvalue (hv v (List.mem_cons_of_mem _ hmem))) }

open Library

/-- Containers never shrink.  Let hosts do one thing after another with a store and with interpreters
of any settings and counters, through their interface, with builtins that do the same; whether this
fails or not, no array becomes shorter, no key is lost, and an element that could be read can be read
for ever.  Whatever an evaluator does, be it with an error, leaves all arrays with the lengths that
they had if no builtin can be reached from where it begins.  The evaluators of the model are those of
one such library. -/
theorem containers_never_shrink (lib : Library) :
    (∀ st st', ReflTransGen lib.Step st st' → st.Grown st' ∧
      ∀ r index, (st.element? r index).isSome → (st'.element? r index).isSome) ∧
    (∀ (n : Nat) (σ : Setting) (s : State) (roots : Node → Prop),
      (∀ m r, roots m → ¬ s.store.Reaches m (.builtin r)) →
      (lib.level n σ).KeepsLengths s roots) ∧
    ∀ n σ, natives.level n σ = Evaluator.level σ n :=
  ⟨fun _ _ h => ⟨grown_of_steps h, fun _ _ => (grown_of_steps h).element?⟩, lib.keepsLengths,
    level_natives⟩

/-- A program that fails when it writes behind the last element of an array leaves the length as it
is, and one that pushes to the array makes it longer, after which the first element can still be
read. -/
theorem containers_never_shrink_push :
    let a : Expr := .synthetic (.identifier "a")
    let write (index value : Int64) : Stmt := .ofExpr (.synthetic (.assign
      (.synthetic (.index a (.synthetic (.number index)))) (.synthetic (.number value))))
    let writes : List Stmt := [write 0 5, write 1 6]
    let push : List Stmt := [.ofExpr (.synthetic (.call (.synthetic (.identifier "push"))
      [a, .synthetic (.number 2)]))]
    let i := (Interpreter.create {} {}).1
    let st := ((Interpreter.create {} {}).2.newArray #[.number 1]).2.define i.globals "a"
      (.array ⟨0⟩)
    let st' := i.defineBuiltin st ⟨"push", .push⟩
    (∀ m r, m = .scope i.globals → ¬ st.Reaches m (.builtin r)) ∧
    (∃ e s, i.Ends st (fun ev => ev.runFrom i.globals .nil writes) (.error e s) ∧
      e.fault = .outOfRange 1 1 ∧ (s.store.array ⟨0⟩).size = (st.array ⟨0⟩).size) ∧
    ∃ v s, i.Ends st' (fun ev => ev.runFrom i.globals .nil push) (.value v s) ∧
      ReflTransGen natives.Step st' s.store ∧ (s.store.array ⟨0⟩).size = 2 ∧
      (s.store.element? ⟨0⟩ 0).isSome := by
  intro a write writes push i st st'
  obtain ⟨hgrown, hkeeps, hnatives⟩ := containers_never_shrink natives
  have harray : ((Interpreter.create {} {}).2.newArray #[.number 1]).2.Intact := by
    refine (Interpreter.intact_create Store.intact_empty {}).of_makes
      (Store.makes_newArray _ _) fun m hm => ?_
    cases hm with
    | element hmem hv =>
      obtain rfl := List.mem_singleton.mp (Array.mem_toList_iff.mpr hmem)
      cases hv
  have hst : st.Intact := by
    refine harray.of_edits (Store.edits_define _ _ _ _) fun m hm => ?_
    cases hm
    decide
  have hnone : ∀ m r, m = .scope i.globals → ¬ st.Reaches m (.builtin r) := by
    rintro m r rfl
    exact hst.not_reaches_builtin rfl (by decide) r
  refine ⟨hnone, ?_, ?_⟩
  · obtain ⟨e, s, hends, he⟩ := Interpreter.Ends.of_fails i st
      (fun ev => ev.runFrom i.globals .nil writes) (fun e => decide (e.fault = .outOfRange 1 1)) 9
      (by decide +kernel)
    obtain ⟨n, hn⟩ := hends.2
    have hrun := (hkeeps n i.toSetting (i.start st) (· = .scope i.globals) hnone).run i.globals
      writes rfl
    rw [hnatives] at hrun
    exact ⟨e, s, hends, of_decide_eq_true he, hrun s (.of_error hn) ⟨0⟩ (by decide)⟩
  · obtain ⟨v, s, hends, hsize⟩ := Interpreter.Ends.of_passes i st'
      (fun ev => ev.runFrom i.globals .nil push)
      (fun _ s => decide ((s.store.array ⟨0⟩).size = 2)) 9 (by decide +kernel)
    obtain ⟨n, hn⟩ := hends.2
    have htask : Scripted fun evs => (evs i.toSetting).runFrom i.globals .nil push := .run _ push
    have hstep : natives.Step st' s.store :=
      .perform (s := i.start st') htask (n := n) (.of_value (by rw [hnatives]; exact hn))
    exact ⟨v, s, hends, .single hstep, of_decide_eq_true hsize,
      (hgrown st' s.store (.single hstep)).2 ⟨0⟩ 0 (by decide)⟩

end TreeWalk
