/-
# Statements

One level of the execution of statements.  A statement tells how the list that it stands in goes
on; every list stops at the first statement after which it does not go on with the next one.  Loops
and switches take `leave`, calls take `ret`.
-/
import TreeWalk.Evaluator.Expressions

namespace TreeWalk.Evaluator

variable (self : Evaluator)

/-- Execute statements in order in the scope `c`. -/
def execAll (c : ScopeRef) : List Stmt → Action Flow
  | [] => pure .next
  | s :: rest => do
    match ← self.stmt s c with
    | .next => execAll c rest
    | .leave => return .leave
    | .ret v => return .ret v

/-- A new scope inside the scope `c`. -/
def childScope (c : ScopeRef) : Action ScopeRef := Action.create fun st => st.newScope (some c)

/-- Execute statements in a new scope inside the scope `c`. -/
def execBlock (c : ScopeRef) (body : List Stmt) : Action Flow := do
  self.execAll (← childScope c) body

/-- The value of an expression that may be missing. -/
def evalOption (c : ScopeRef) : Option Expr → Action Value
  | some e => self.expr e c
  | none => pure .nil

/-- Whether a condition holds; one that is missing does. -/
def holds (c : ScopeRef) : Option Expr → Action Bool
  | some e => do return (← self.expr e c).truth
  | none => pure true

/-- Execute the rounds of a loop in its scope `c`, at most `n` of them.  Every round takes a step,
so that a budget also ends a loop without a body. -/
def execRounds (c : ScopeRef) (condition update : Option Expr)
    (body : List Stmt) : Nat → Action Flow
  | 0 => Action.unfinished
  | n + 1 => do
    self.tick
    if ← self.holds c condition then
      match ← self.execBlock c body with
      | .next =>
        let _ ← self.evalOption c update
        execRounds c condition update body n
      | .leave => return .next
      | .ret v => return .ret v
    else
      return .next

/-- Execute a loop in its own scope `c`. -/
def execLoop (c : ScopeRef) (init : Option Stmt)
    (condition update : Option Expr) (body : List Stmt) : Action Flow :=
  match init with
  | some s => do
    match ← self.stmt s c with
    | .next => self.execRounds c condition update body self.rounds
    | .leave => return .leave
    | .ret v => return .ret v
  | none => self.execRounds c condition update body self.rounds

/-- The body of the first case whose test equals the subject.  Tests are evaluated in order and no
further than needed. -/
def firstMatch (c : ScopeRef) (subject : Value) : List Case → Action (Option (List Stmt))
  | [] => pure none
  | ⟨none, _⟩ :: rest => firstMatch c subject rest
  | ⟨some test, body⟩ :: rest => do
    if (← self.expr test c) = subject then return some body
    else firstMatch c subject rest

/-- The body of the first case without a test. -/
def defaultBody (cases : List Case) : Option (List Stmt) :=
  (cases.find? fun k => k.test.isNone).map (·.body)

/-- Execute the body of the selected case of a switch, if there is one. -/
def execCase (c : ScopeRef) : Option (List Stmt) → Action Flow
  | none => pure .next
  | some body => do
    match ← self.execBlock c body with
    | .next => return .next
    | .leave => return .next
    | .ret v => return .ret v

/-- Execute a switch.  The default is taken when no test matches, wherever it stands. -/
def execSwitch (c : ScopeRef) (subject : Expr) (cases : List Case) : Action Flow := do
  let v ← self.expr subject c
  match ← self.firstMatch c v cases with
  | some body => self.execCase c (some body)
  | none => self.execCase c (defaultBody cases)

/-- Execute one of two statements. -/
def execBranch (c : ScopeRef) (condition : Expr) (whenTrue : Stmt) (whenFalse : Option Stmt) :
    Action Flow := do
  if (← self.expr condition c).truth then self.stmt whenTrue c
  else
    match whenFalse with
    | some s => self.stmt s c
    | none => return .next

/-- Execute a statement of the given kind. -/
def execKind (c : ScopeRef) : StmtKind → Action Flow
  | .empty => pure .next
  | .declare name value => do
    let v ← self.evalOption c value
    Action.update fun st => st.define c name v
    return .next
  | .function literal => do
    let _ ← makeFunction c literal
    return .next
  | .ret value => do return .ret (← self.evalOption c value)
  | .block body => self.execBlock c body
  | .expr e => do
    let _ ← self.expr e c
    return .next
  | .loop init condition update body => do
    self.execLoop (← childScope c) init condition update body
  | .leave => pure .leave
  | .branch condition whenTrue whenFalse => self.execBranch c condition whenTrue whenFalse
  | .switch subject cases => self.execSwitch c subject cases

/-- Execute a program in the scope `c`, with the value of its last top-level expression so far.
Such an expression takes the step of its statement, but it alone is blamed for its failures. -/
def runFrom (c : ScopeRef) : Value → List Stmt → Action Value
  | last, [] => pure last
  | last, s :: rest =>
    match s.kind with
    | .expr e => do
      self.tick
      let v ← self.expr e c
      runFrom c v rest
    | _ => do
      match ← self.stmt s c with
      | .next => runFrom c last rest
      | .leave => Action.blame s.span (Action.raise .strayBreak)
      | .ret v => return v

end TreeWalk.Evaluator
