import CommandChain.Script.Machine
import CommandChain.Text.Wildcard
/-!
# Evaluating scripts

A script is evaluated on a machine that holds its variables. Every statement, expression, call and
round of a loop is an operation, and their number is limited, as is the nesting of calls. Functions
see their parameters and nothing else.
-/

namespace CommandChain.Script

/-- What stays the same during a call. -/
structure Context where
  functions : List Function
  limits : Limits
  /-- How many calls surround the current one. -/
  level : Nat

/-- The function of a script with a name and number of parameters. -/
def Context.function? (ctx : Context) (name : String) (count : Nat) : Option Function :=
  ctx.functions.find? fun f => f.name == name && f.parameters.length == count

/-- The functions that every script knows and that change none of their arguments. -/
def builtin (name : String) (arguments : List Datum) : Except Failure Datum :=
  match name, arguments with
  | "len", [.text s] => .ok (.int (Int64.ofNat s.length))
  | "len", [.array items] => .ok (.int (Int64.ofNat items.length))
  | "len", [.map entries] => .ok (.int (Int64.ofNat entries.length))
  | "like", [.text s, .text pattern] => .ok (.bool (Text.Wildcard.isMatch pattern s))
  | "push", [.array _, _] => .ok .unit
  | _, _ => .error (.unknownFunction name)

/-- A datum with another one at its end. -/
def push (limits : Limits) (item d : Datum) : Except Failure Datum :=
  match d with
  | .array items => (Datum.array (items ++ [item])).checked limits
  | _ => .error (.unknownFunction "push")

/-- What a loop goes over. -/
inductive Series where
  | items (rest : List Datum)
  /-- The integers from the first to before the second. -/
  | between (first last : Int)

/-- The next element of a series and those behind it. -/
def Series.next? : Series → Option (Datum × Series)
  | .items [] => none
  | .items (d :: rest) => some (d, .items rest)
  | .between first last =>
    if first < last then some (.int (Int64.ofInt first), .between (first + 1) last) else none

mutual
/-- The value of an expression. -/
def evaluate (ctx : Context) : Nat → Expr → Run Datum
  | 0, _ => Run.fail .tooManyOperations
  | fuel + 1, e => do
    Run.tick ctx.limits
    match e with
    | .constant d => pure d
    | .variable name => Run.lookUp name
    | .array items =>
      let data ← evaluateAll ctx fuel items
      Run.ofExcept ((Datum.array data).checked ctx.limits)
    | .map entries =>
      let data ← evaluateAll ctx fuel (entries.map Prod.snd)
      Run.ofExcept ((Datum.ofEntries ((entries.map Prod.fst).zip data)).checked ctx.limits)
    | .negate e =>
      match ← evaluate ctx fuel e with
      | .int i => Run.ofExcept (Operator.subtract.evaluate ctx.limits (.int 0) (.int i))
      | .float x => pure (.float (-x))
      | _ => Run.fail .badOperands
    | .not e => do
      let b ← truth ctx fuel e
      pure (.bool !b)
    | .binary op a b =>
      let x ← evaluate ctx fuel a
      let y ← evaluate ctx fuel b
      Run.ofExcept (op.evaluate ctx.limits x y)
    | .both a b =>
      if ← truth ctx fuel a then
        let second ← truth ctx fuel b
        pure (.bool second)
      else pure (.bool false)
    | .either a b =>
      if ← truth ctx fuel a then pure (.bool true)
      else
        let second ← truth ctx fuel b
        pure (.bool second)
    | .property e name =>
      let d ← evaluate ctx fuel e
      Run.ofExcept (d.follow (.property name))
    | .index e key =>
      let d ← evaluate ctx fuel e
      let k ← evaluate ctx fuel key
      Run.ofExcept (d.follow (.index k))
    | .call name arguments =>
      let ownPush := (ctx.function? name arguments.length).isSome
      match name, arguments with
      | "push", [.variable target, item] =>
        if ownPush then callNamed ctx fuel name arguments
        else pushTo ctx fuel (.variable target) item
      | _, _ => callNamed ctx fuel name arguments
    | .method target name arguments =>
      match name, arguments with
      | "push", [item] => pushTo ctx fuel target item
      | _, _ =>
        let first ← evaluate ctx fuel target
        let rest ← evaluateAll ctx fuel arguments
        Run.ofExcept (builtin name (first :: rest))
    | .block statements value => Run.inBlock (body ctx fuel statements value)
    | .choice condition yes no =>
      if ← truth ctx fuel condition then evaluate ctx fuel yes else evaluate ctx fuel no
def evaluateAll (ctx : Context) : Nat → List Expr → Run (List Datum)
  | 0, _ => Run.fail .tooManyOperations
  | _ + 1, [] => pure []
  | fuel + 1, e :: rest => do
    let d ← evaluate ctx fuel e
    let data ← evaluateAll ctx fuel rest
    pure (d :: data)
/-- The truth value of a condition. -/
def truth (ctx : Context) : Nat → Expr → Run Bool
  | 0, _ => Run.fail .tooManyOperations
  | fuel + 1, e => do
    match ← evaluate ctx fuel e with
    | .bool b => pure b
    | _ => Run.fail .notTruthValue
/-- Calls a function of the script, or else one that every script knows. -/
def callNamed (ctx : Context) : Nat → String → List Expr → Run Datum
  | 0, _, _ => Run.fail .tooManyOperations
  | fuel + 1, name, arguments => do
    let data ← evaluateAll ctx fuel arguments
    match ctx.function? name data.length with
    | some f =>
      if ctx.limits.callLevels ≤ ctx.level then Run.fail .tooManyCalls
      else
        let inner := { ctx with level := ctx.level + 1 }
        let parameters := (f.parameters.zip data).reverse
        let result ← Run.called parameters (body inner fuel f.statements f.value)
        Run.ofExcept (result.checked ctx.limits)
    | none => Run.ofExcept (builtin name data)
/-- Puts the value of an expression at the end of an array, where that is kept in a variable. -/
def pushTo (ctx : Context) : Nat → Expr → Expr → Run Datum
  | 0, _, _ => Run.fail .tooManyOperations
  | fuel + 1, target, item => do
    let d ← evaluate ctx fuel item
    match target.place? with
    | some (root, accessors) =>
      let steps ← follow ctx fuel accessors
      let old ← Run.lookUp root
      let new ← Run.ofExcept (old.change (push ctx.limits d) steps)
      Run.assign root new
      pure .unit
    | none =>
      let old ← evaluate ctx fuel target
      let _ ← Run.ofExcept (push ctx.limits d old)
      pure .unit
/-- The steps that accessors stand for. -/
def follow (ctx : Context) : Nat → List Accessor → Run (List Step)
  | 0, _ => Run.fail .tooManyOperations
  | _ + 1, [] => pure []
  | fuel + 1, .property name :: rest => do
    let steps ← follow ctx fuel rest
    pure (.property name :: steps)
  | fuel + 1, .index key :: rest => do
    let d ← evaluate ctx fuel key
    let steps ← follow ctx fuel rest
    pure (.index d :: steps)
/-- The statements and the value of a body, in the scope as it is. -/
def body (ctx : Context) : Nat → List Statement → Option Expr → Run Datum
  | 0, _, _ => Run.fail .tooManyOperations
  | _ + 1, [], none => pure .unit
  | fuel + 1, [], some e => evaluate ctx fuel e
  | fuel + 1, s :: rest, value => do
    execute ctx fuel s
    body ctx fuel rest value
def execute (ctx : Context) : Nat → Statement → Run Unit
  | 0, _ => Run.fail .tooManyOperations
  | fuel + 1, s => do
    Run.tick ctx.limits
    match s with
    | .declare name value =>
      let d ← optional ctx fuel value
      Run.declare name d
    | .assign target op value =>
      let d ← evaluate ctx fuel value
      match target.place? with
      | none => Run.fail .badOperands
      | some (root, accessors) =>
        let steps ← follow ctx fuel accessors
        let old ← Run.lookUp root
        let combine : Datum → Except Failure Datum := fun current =>
          match op with
          | none => d.checked ctx.limits
          | some op => op.evaluate ctx.limits current d
        let new ← Run.ofExcept (old.change combine steps)
        Run.assign root new
    | .evaluate e =>
      let _ ← evaluate ctx fuel e
      pure ()
    | .repeat condition statements value => loop ctx fuel condition statements value
    | .forItems name items statements value =>
      match ← evaluate ctx fuel items with
      | .array data => forEach ctx fuel name (.items data) statements value
      | _ => Run.fail .notIterable
    | .forRange name first last inclusive statements value =>
      let first ← evaluate ctx fuel first
      let last ← evaluate ctx fuel last
      match first, last with
      | .int a, .int b =>
        let bound := if inclusive then b.toInt + 1 else b.toInt
        forEach ctx fuel name (.between a.toInt bound) statements value
      | _, _ => Run.fail .notIterable
    | .leave => Run.exit .left
    | .proceed => Run.exit .proceeded
    | .return value =>
      let d ← optional ctx fuel value
      Run.exit (.returned d)
    | .throw value =>
      let _ ← optional ctx fuel value
      Run.fail .thrown
/-- The value of an expression, or a unit where there is none. -/
def optional (ctx : Context) : Nat → Option Expr → Run Datum
  | 0, _ => Run.fail .tooManyOperations
  | _ + 1, none => pure .unit
  | fuel + 1, some e => evaluate ctx fuel e
/-- Repeats a body for as long as a condition holds. -/
def loop (ctx : Context) : Nat → Option Expr → List Statement → Option Expr → Run Unit
  | 0, _, _, _ => Run.fail .tooManyOperations
  | fuel + 1, condition, statements, value => do
    Run.tick ctx.limits
    let go ← match condition with
      | none => pure true
      | some e => truth ctx fuel e
    if go then
      if ← Run.goesOn (Run.inBlock (body ctx fuel statements value)) then
        loop ctx fuel condition statements value
      else pure ()
    else pure ()
/-- Repeats a body for each element of a series. -/
def forEach (ctx : Context) : Nat → String → Series → List Statement → Option Expr → Run Unit
  | 0, _, _, _, _ => Run.fail .tooManyOperations
  | fuel + 1, name, series, statements, value => do
    Run.tick ctx.limits
    match series.next? with
    | none => pure ()
    | some (d, rest) =>
      let round : Run Datum := do
        Run.declare name d
        body ctx fuel statements value
      if ← Run.goesOn (Run.inBlock round) then forEach ctx fuel name rest statements value
      else pure ()
end

end CommandChain.Script
