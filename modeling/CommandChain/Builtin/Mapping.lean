import CommandChain.Builtin.Scripting
/-!
# Mapping objects

The command runs a script for each object, or reads a member of it, and writes what comes out; the
elements of an array are written one by one, and null is not written. Scripts that run at the begin
and at the end share the scope. Nothing can be written at the begin, so what comes out there waits
for the next call. The scripts are in a given language.
-/

namespace CommandChain.Builtin.Mapping

def parameters : List Parameter := [
  { name := "Process", type := .string, position := some 0 },
  { name := "Begin", type := .string },
  { name := "End", type := .string },
  { name := "MemberName", type := .string },
  { name := "InputObject", pipeline := .byValue }]

structure Memory (language : Script.Language) where
  processBlock : Option (Script.Block language) := none
  finishBlock : Option (Script.Block language) := none
  member : Option String := none
  scope : language.Scope := language.empty
  /-- What came out at the begin and was not written yet. -/
  pending : List Value := []

variable {language : Script.Language}

/-- The result of a call without anything to run. -/
def missingBody : CallResult :=
  .terminating
    { message := "ForEach-Object requires either Process or MemberName"
      category := .invalidArgument
      errorId := "MissingForEachBody" }

/-- The result of a call for an object without the member. -/
def memberNotFound (member : String) : CallResult :=
  .nonTerminating
    { message := "Property '" ++ member ++ "' not found"
      category := .invalidArgument
      errorId := "PropertyNotFound" }

/-- Runs a block: the memory after it, and the value or the result of the call without one. -/
def run (call : Call) (m : Memory language) (block : Script.Block language) (item : Option Value) :
    Memory language × Except CallResult Value :=
  let (result, scope) := evaluateBlock call block m.scope item
  ({ m with scope := scope }, match result with
    | .ok v => .ok v
    | .error f => .error (scriptFailed block f))

/-- Writes what a block gave, unless that is null. -/
def writeResult (v : Value) (next : CallResult → Hook (Memory language)) : Hook (Memory language) :=
  if v.isNull then next .ok else Hook.writeEnumerated v next

/-- Runs the block of the begin and keeps what it gives. -/
def runBegin (call : Call) (m : Memory language) (block : Script.Block language) :
    Hook (Memory language) :=
  match run call m block none with
  | (m, .error result) => .store m (.done result)
  | (m, .ok v) =>
    .store { m with pending := if v.isNull then m.pending else m.pending ++ [v] } (.done .ok)

/-- Compiles the scripts and runs that of the begin. -/
def begin (call : Call) (m : Memory language) : Hook (Memory language) :=
  match compileParameter language call "Process" with
  | .error f => .done (.fault f)
  | .ok processBlock =>
    match compileParameter language call "End" with
    | .error f => .done (.fault f)
    | .ok finishBlock =>
      let m := { m with
        processBlock := processBlock
        finishBlock := finishBlock
        member := call.parameters.text? "MemberName" }
      if m.processBlock.isNone && m.member.isNone then .store m (.done missingBody)
      else match compileParameter language call "Begin" with
        | .error f => .store m (.done (.fault f))
        | .ok none => .store m (.done .ok)
        | .ok (some block) => runBegin call m block

/-- Writes values in order, the elements of arrays one by one, until a write is refused. -/
def writeEach : List Value → (CallResult → Hook (Memory language)) → Hook (Memory language)
  | [], next => next .ok
  | v :: rest, next => Hook.writeEnumerated v fun
    | .ok => writeEach rest next
    | refused => next refused

/-- Writes what is pending, and goes on with the memory if no write was refused. -/
def flush (m : Memory language) (next : Memory language → Hook (Memory language)) :
    Hook (Memory language) :=
  let kept := { m with pending := [] }
  .store kept (writeEach m.pending fun
    | .ok => next kept
    | refused => .done refused)

/-- Runs a block and writes what it gives. -/
def runAndWrite (call : Call) (block : Script.Block language) (item : Option Value)
    (m : Memory language) : Hook (Memory language) :=
  match run call m block item with
  | (m, .error result) => .store m (.done result)
  | (m, .ok v) => .store m (writeResult v .done)

/-- Writes the member of an object. -/
def writeMember (call : Call) (member : String) (v : Value) : Hook (Memory language) :=
  match call.adapter.property? v member with
  | some w => Hook.writeEnumerated w .done
  | none => .done (memberNotFound member)

/-- Maps an object. Reading a member goes before running a script. -/
def process (call : Call) (m : Memory language) : Hook (Memory language) :=
  flush m fun m =>
    let input := call.inputObject
    match m.member, m.processBlock with
    | some member, _ => writeMember call member input
    | none, some block => runAndWrite call block (some input) m
    | none, none => .done .ok

/-- Runs the block of the end. -/
def finish (call : Call) (m : Memory language) : Hook (Memory language) :=
  flush m fun m =>
    match m.finishBlock with
    | some block => runAndWrite call block none m
    | none => .done .ok

/-- The command, with scripts in a language. -/
def command (language : Script.Language) : Command where
  name := "ForEach-Object"
  parameters := parameters
  Memory := Memory language
  fresh := {}
  begin := begin
  process := process
  finish := finish

end CommandChain.Builtin.Mapping
