import CommandChain.Command
/-!
# Selecting objects and properties

The command reduces objects to some of their properties and passes on a window of them: it skips
some, writes the first ones as they arrive, and keeps the last ones until the end. Once nothing
that could arrive would be written any more, it declares that it needs no further input.
-/

namespace CommandChain.Builtin.Selection

def parameters : List Parameter := [
  { name := "Property", type := .array, position := some 0 },
  { name := "First", type := .int },
  { name := "Last", type := .int },
  { name := "Skip", type := .int },
  { name := "InputObject", pipeline := .byValue }]

structure Memory where
  properties : List String := []
  first : Option Nat := none
  last : Option Nat := none
  skip : Nat := 0
  seen : Nat := 0
  written : Nat := 0
  /-- The latest objects that are kept for the end. -/
  tail : List Value := []

/-- An object with the selected properties, or the object itself where none are selected. A
property that the object does not have is null. -/
def project (properties : List String) (adapter : Adapter) (v : Value) : Value :=
  if properties.isEmpty then v
  else Value.ofProperties (properties.map fun name => (name, (adapter.property? v name).getD .null))

/-- The count bound to a parameter, or the result of a call with a negative one. -/
def count? (call : Call) (parameter : String) : Except CallResult (Option Nat) :=
  match call.parameters.int? parameter with
  | none => .ok none
  | some n =>
    if n < 0 then
      .error (.terminating
        { message := "Cannot validate argument on parameter '" ++ parameter ++ "': "
            ++ Decimal.intText n.toInt ++ " is less than 0"
          category := .invalidArgument
          errorId := "NegativeCount" })
    else .ok (some n.toInt.toNat)

/-- Reads the window. A window without any object needs no input. -/
def begin (call : Call) (m : Memory) : Hook Memory :=
  match count? call "First", count? call "Last", count? call "Skip" with
  | .error result, _, _ | .ok _, .error result, _ | .ok _, .ok _, .error result => .done result
  | .ok first, .ok last, .ok skip =>
    let m := { m with
      properties := call.textList "Property"
      first := first
      last := last
      skip := skip.getD 0 }
    .store m (if first == some 0 && last.isNone then .cutInput (.done .ok) else .done .ok)

/-- The latest objects with one more, of which at most `size` are kept. -/
def keepLast (size : Nat) (tail : List Value) (v : Value) : List Value :=
  if size == 0 then tail
  else (if tail.length == size then tail.drop 1 else tail) ++ [v]

/-- Writes one of the first objects, and cuts the input off behind the last of them. -/
def writeFirst (m : Memory) (first : Nat) (v : Value) : Hook Memory :=
  let m := { m with written := m.written + 1 }
  .store m (.write v fun
    | .ok => if m.written == first && m.last.isNone then .cutInput (.done .ok) else .done .ok
    | refused => .done refused)

/-- Writes an object behind the first ones, or keeps it. -/
def writeRest (m : Memory) (v : Value) : Hook Memory :=
  match m.last with
  | none => .write v .done
  | some size => .store { m with tail := keepLast size m.tail v } (.done .ok)

/-- Passes an object on, keeps it, or drops it. -/
def process (call : Call) (m : Memory) : Hook Memory :=
  let position := m.seen
  let m := { m with seen := m.seen + 1 }
  .store m (
    if position < m.skip then .done .ok
    else
      let v := project m.properties call.adapter call.inputObject
      match m.first with
      | none => writeRest m v
      | some first =>
        if m.written < first then writeFirst m first v
        else if m.last.isNone then .cutInput (.done .ok)
        else writeRest m v)

/-- Writes the objects that were kept. -/
def finish (m : Memory) : Hook Memory :=
  .store { m with tail := [] } (Hook.writeAll m.tail .done)

def command : Command where
  name := "Select-Object"
  parameters := parameters
  Memory := Memory
  fresh := {}
  begin := begin
  process := process
  finish _ := finish

end CommandChain.Builtin.Selection
