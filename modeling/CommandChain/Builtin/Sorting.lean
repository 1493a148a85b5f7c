import CommandChain.Command
import CommandChain.Value.Comparison
/-!
# Sorting objects

The command keeps all objects and writes them at the end, sorted by some of their properties or by
themselves. The sort is stable, and values without an order count as equal.
-/

namespace CommandChain.Builtin.Sorting

def parameters : List Parameter := [
  { name := "Property", type := .array, position := some 0 },
  { name := "Descending", type := .bool },
  { name := "Unique", type := .bool },
  { name := "InputObject", pipeline := .byValue }]

/-- An object with the values it is sorted by. -/
structure Keyed where
  key : List Value
  value : Value

/-- The values an object is sorted by. -/
def sortKey (properties : List String) (adapter : Adapter) (v : Value) : List Value :=
  if properties.isEmpty then [v]
  else properties.map fun name => (adapter.property? v name).getD .null

/-- The order of two keys: the first difference decides. -/
def compareKeys : List Value → List Value → Ordering
  | x :: xs, y :: ys => ((x.compare? y).getD .eq).then (compareKeys xs ys)
  | _, _ => .eq

/-- Whether an object may stand before another. -/
def comesBefore (descending : Bool) (a b : Keyed) : Bool :=
  let order := compareKeys a.key b.key
  (if descending then order.swap else order) != .gt

/-- Whether a key is loosely equal to an earlier one. -/
def repeats : List Value → List Value → Bool
  | [], [] => true
  | x :: xs, y :: ys => x.looseEq y && repeats xs ys
  | _, _ => false

/-- The objects behind one that stays, without those that repeat the key of the last one that
stays. -/
def dropRepeats (last : Keyed) : List Keyed → List Keyed
  | [] => []
  | a :: rest =>
    if repeats a.key last.key then dropRepeats last rest else a :: dropRepeats a rest

/-- Of neighbours with equal keys only the first. -/
def unique : List Keyed → List Keyed
  | [] => []
  | a :: rest => a :: dropRepeats a rest

/-- The objects in the order in which they are written. -/
def sorted (call : Call) (buffer : List Value) : List Value :=
  let properties := call.textList "Property"
  let keyed := buffer.map fun v => Keyed.mk (sortKey properties call.adapter v) v
  let inOrder := keyed.mergeSort (comesBefore (call.parameters.switch "Descending"))
  let kept := if call.parameters.switch "Unique" then unique inOrder else inOrder
  kept.map Keyed.value

/-- The command. It remembers the objects that arrived. -/
def command : Command where
  name := "Sort-Object"
  parameters := parameters
  Memory := List Value
  fresh := []
  process call buffer := .store (buffer ++ [call.inputObject]) (.done .ok)
  finish call buffer := .store [] (Hook.writeAll (sorted call buffer) .done)
  dispose _ _ := { memory := [], result := .ok none }

end CommandChain.Builtin.Sorting
