import CommandChain.Script.Tree
import CommandChain.Script.Token
/-!
# The state of an evaluation

An evaluation works on a scope and counts its operations. Whether it ends well, fails, or leaves a
loop or a function, what it did to the scope stays.
-/

namespace CommandChain.Script

/-- The variables of a script, the newest first. -/
abbrev Scope := List (String × Datum)

/-- Gives the newest variable of a name a value; a name that is not there becomes a new
variable. -/
def Scope.set (scope : Scope) (name : String) (d : Datum) : Scope :=
  if scope.any (·.1 == name) then replace scope else (name, d) :: scope
where
  /-- Gives the first variable of the name the value. -/
  replace : Scope → Scope
    | [] => []
    | (other, old) :: rest =>
      if other == name then (name, d) :: rest else (other, old) :: replace rest

/-- What an evaluation changes. -/
structure Machine where
  scope : Scope
  /-- The number of operations so far. -/
  operations : Nat

/-- Why an evaluation does not go on. -/
inductive Exit where
  | failed (f : Failure)
  | left
  | proceeded
  | returned (d : Datum)

def Run (α : Type) := Machine → Except Exit α × Machine

namespace Run

/-- Ends well. -/
protected def pure {α : Type} (a : α) : Run α :=
  fun m => (.ok a, m)

/-- Goes on where an evaluation ends well. -/
protected def bind {α β : Type} (run : Run α) (next : α → Run β) : Run β :=
  fun m => match run m with
    | (.ok a, m) => next a m
    | (.error e, m) => (.error e, m)

instance : Monad Run where
  pure := Run.pure
  bind := Run.bind

/-- Does not go on. -/
def exit {α : Type} (e : Exit) : Run α :=
  fun m => (.error e, m)

def fail {α : Type} (f : Failure) : Run α :=
  exit (.failed f)

/-- Goes on with a result, or fails as it did. -/
def ofExcept {α : Type} : Except Failure α → Run α
  | .ok a => Run.pure a
  | .error f => fail f

/-- Counts an operation, where one more is allowed. -/
def tick (limits : Limits) : Run Unit :=
  fun m =>
    let count := m.operations + 1
    let m := { m with operations := count }
    if limits.operations != 0 && limits.operations < count then
      (.error (.failed .tooManyOperations), m)
    else (.ok (), m)

def lookUp (name : String) : Run Datum :=
  fun m => match m.scope.lookup name with
    | some d => (.ok d, m)
    | none => (.error (.failed (.unknownVariable name)), m)

/-- Makes a new variable. -/
def declare (name : String) (d : Datum) : Run Unit :=
  fun m => (.ok (), { m with scope := (name, d) :: m.scope })

/-- Gives the newest variable of a name a value. -/
def assign (name : String) (d : Datum) : Run Unit :=
  fun m => (.ok (), { m with scope := m.scope.set name d })

/-- Drops the variables that an evaluation makes, however it ends. -/
def inBlock {α : Type} (run : Run α) : Run α :=
  fun m =>
    let (result, after) := run m
    (result, { after with scope := after.scope.drop (after.scope.length - m.scope.length) })

/-- Whether a loop goes on after a run of its body. -/
def goesOn (body : Run Datum) : Run Bool :=
  fun m => match body m with
    | (.ok _, m) | (.error .proceeded, m) => (.ok true, m)
    | (.error .left, m) => (.ok false, m)
    | (.error e, m) => (.error e, m)

/-- Runs the body of a function in a scope of its own. -/
def called (parameters : Scope) (body : Run Datum) : Run Datum :=
  fun m =>
    let (result, after) := body { m with scope := parameters }
    let result := match result with
      | .error (.returned d) => .ok d
      | result => result
    (result, { after with scope := m.scope })

end Run

/-! ## Steps into a datum -/

/-- A step into a datum. -/
inductive Step where
  | property (name : String)
  | index (key : Datum)

/-- The position an index stands for; a negative one counts from the end. -/
def position? (size : Nat) (i : Int64) : Option Nat :=
  let i := i.toInt
  let at0 := if i < 0 then i + size else i
  if 0 ≤ at0 && at0 < size then some at0.toNat else none

/-- What a step into a datum leads to. A name that a map does not have leads to a unit. -/
def Datum.follow (d : Datum) : Step → Except Failure Datum
  | .property name =>
    match d with
    | .map entries => .ok (entryOrUnit entries name)
    | _ => .error (.noProperty name)
  | .index key =>
    match d, key with
    | .array items, .int i =>
      match (position? items.length i).bind (items[·]?) with
      | some item => .ok item
      | none => .error .badIndex
    | .map entries, .text name => .ok (entryOrUnit entries name)
    | .text s, .int i =>
      let cs := s.toList
      match (position? cs.length i).bind (cs[·]?) with
      | some c => .ok (.text (String.ofList [c]))
      | none => .error .badIndex
    | _, _ => .error .badIndex

/-- Changes what some steps into a datum lead to. -/
def Datum.change (f : Datum → Except Failure Datum) : List Step → Datum → Except Failure Datum
  | [], d => f d
  | .property name :: rest, .map entries => do
    let changed ← change f rest (entryOrUnit entries name)
    return .map (Value.insertProperty name changed entries)
  | .property name :: _, _ => .error (.noProperty name)
  | .index (.int i) :: rest, .array items =>
    match position? items.length i with
    | some n => do
      let changed ← change f rest (items.getD n .unit)
      return .array (items.set n changed)
    | none => .error .badIndex
  | .index (.text name) :: rest, .map entries => do
    let changed ← change f rest (entryOrUnit entries name)
    return .map (Value.insertProperty name changed entries)
  | .index _ :: _, _ => .error .badIndex

/-- A datum that keeps within the limits on sizes. -/
def Datum.checked (limits : Limits) (d : Datum) : Except Failure Datum :=
  match d with
  | .text s =>
    if limits.textSize != 0 && limits.textSize < s.utf8ByteSize then .error .textTooLong else .ok d
  | .array items => if arrayLimit < items.length then .error .arrayTooLong else .ok d
  | .map entries => if mapLimit < entries.length then .error .mapTooLarge else .ok d
  | _ => .ok d

/-- The result of an operator, where there is one within the limits. -/
def Operator.evaluate (op : Operator) (limits : Limits) (a b : Datum) : Except Failure Datum :=
  match op.apply a b with
  | some d => d.checked limits
  | none => .error .badOperands

end CommandChain.Script
