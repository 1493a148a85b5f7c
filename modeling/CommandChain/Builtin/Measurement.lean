import CommandChain.Command
/-!
# Measuring objects

The command counts objects, or the values of one of their properties, and computes statistics of
those that are numbers. Null does not count. The summary is written at the end, with null for every
statistic that was not asked for or has no numbers.
-/

namespace CommandChain.Builtin.Measurement

def parameters : List Parameter := [
  { name := "Property", type := .string, position := some 0 },
  { name := "Sum", type := .bool },
  { name := "Average", type := .bool },
  { name := "Maximum", type := .bool },
  { name := "Minimum", type := .bool },
  { name := "InputObject", pipeline := .byValue }]

structure Memory where
  count : Nat := 0
  /-- How many numbers the statistics are made of. -/
  numbers : Nat := 0
  sum : Float := 0
  least : Option Float := none
  greatest : Option Float := none

/-- The lesser of two numbers, the first of equal ones. A NaN gives way to a number. -/
def lesser (x y : Float) : Float :=
  if Decimal.isNaN x then y else if y < x then y else x

/-- The greater of two numbers, the first of equal ones. A NaN gives way to a number. -/
def greater (x y : Float) : Float :=
  if Decimal.isNaN x then y else if x < y then y else x

/-- Takes a number into the statistics. -/
def Memory.record (m : Memory) (x : Float) : Memory :=
  { m with
    numbers := m.numbers + 1
    sum := m.sum + x
    least := some (match m.least with
      | some y => lesser y x
      | none => x)
    greatest := some (match m.greatest with
      | some y => greater y x
      | none => x) }

/-- Whether any statistic is asked for. -/
def wantsStatistics (call : Call) : Bool :=
  ["Sum", "Average", "Maximum", "Minimum"].any call.parameters.switch

/-- The number a value converts to. -/
def number? (call : Call) (v : Value) : Option Float :=
  match call.adapter.convertTo v .float with
  | .ok w => w.asFloat
  | .error _ => none

/-- The result of a call for an object without the property. -/
def propertyNotFound (property : String) : CallResult :=
  .nonTerminating
    { message := "Property '" ++ property ++ "' cannot be found on the input object"
      category := .invalidArgument
      errorId := "PropertyNotFound" }

/-- The result of a call for a value that is no number. -/
def notNumeric (v : Value) : CallResult :=
  .nonTerminating
    { message := "Input \"" ++ v.display ++ "\" is not numeric"
      category := .invalidType
      errorId := "NonNumericInput" }

def measure (call : Call) (m : Memory) (v : Value) : Hook Memory :=
  if v.isNull then .done .ok
  else
    let m := { m with count := m.count + 1 }
    if wantsStatistics call then
      match number? call v with
      | some x => .store (m.record x) (.done .ok)
      | none => .store m (.done (notNumeric v))
    else .store m (.done .ok)

/-- Measures an object or its property. -/
def process (call : Call) (m : Memory) : Hook Memory :=
  match call.parameters.text? "Property" with
  | none => measure call m call.inputObject
  | some property =>
    match call.adapter.property? call.inputObject property with
    | some v => measure call m v
    | none => .done (propertyNotFound property)

/-- The value of a statistic where it is asked for and known. -/
def statistic (call : Call) (name : String) (x : Option Float) : String × Value :=
  (name, if call.parameters.switch name then (x.map Value.float).getD .null else .null)

def summary (call : Call) (m : Memory) : Value :=
  let ofNumbers (x : Float) : Option Float := if m.numbers == 0 then none else some x
  Value.ofProperties [
    ("Count", .int (Int64.ofNat m.count)),
    statistic call "Sum" (ofNumbers m.sum),
    statistic call "Average" (ofNumbers (m.sum / Float.ofNat m.numbers)),
    statistic call "Maximum" m.greatest,
    statistic call "Minimum" m.least,
    ("Property", ((call.parameters.text? "Property").map Value.string).getD .null)]

def command : Command where
  name := "Measure-Object"
  parameters := parameters
  Memory := Memory
  fresh := {}
  process := process
  finish call m := .write (summary call m) .done

end CommandChain.Builtin.Measurement
