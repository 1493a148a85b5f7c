import CommandChain.Definition.Basic
import CommandChain.Toml.Reader
import CommandChain.Toml.Writer
import CommandChain.Value.Tables
/-!
# Definitions as documents

A definition is written in JSON or in TOML. Empty parts of a command are left out; the list of
commands is always there. A part that is missing is empty, and only the name of a command has to be
given. In JSON, a null in the place of an optional part stands for none.
-/

namespace CommandChain

namespace CommandDefinition

/-- The names of the parts of a command. -/
def fieldNames : List String :=
  ["name", "positional", "named", "switches", "binding_errors"]

/-- A member of a document, unless it is left out. -/
def member (name : String) (isLeftOut : Bool) (j : Json) : List (String × Json) :=
  if isLeftOut then [] else [(name, j)]

def toJson (c : CommandDefinition) : Json :=
  .object ([("name", .string c.name)]
    ++ member "positional" c.positional.isEmpty (.array (Value.itemsToJson c.positional))
    ++ member "named" c.named.isEmpty (.object (Value.propertiesToJson c.named))
    ++ member "switches" c.switches.isEmpty (.array (c.switches.map .string))
    ++ (c.bindingErrors.map fun action => ("binding_errors", Json.string action.name)).toList)

/-- The values of an array whose elements nest at most `limit` deep. -/
def valuesOfJson? (limit : Nat) : Json → Option (List Value)
  | .array items => Value.itemsOfJson? limit items
  | _ => none

/-- The values of an object whose members nest at most `limit` deep, in the order of their
names. -/
def namedOfJson? (limit : Nat) : Json → Option (List (String × Value))
  | .object members => (Value.membersOfJson? limit members).map Value.bag
  | _ => none

def textsOfJson? : Json → Option (List String)
  | .array items => items.mapM Json.string?
  | _ => none

/-- The choice that a document names, if it is not null. -/
def choiceOfJson? : Json → Option (Option BindingErrorAction)
  | .null => some none
  | j => (j.choice?.bind BindingErrorAction.ofName?).map some

/-- The command in a document, in whose values arrays and objects nest at most `limit` deep. -/
def ofJson? (limit : Nat) (j : Json) : Option CommandDefinition := do
  match ← j.fields? fieldNames with
  | [name, positional, named, switches, bindingErrors] =>
    return {
      name := ← (← name).string?
      positional := ← Json.part [] (valuesOfJson? limit) positional
      named := ← Json.part [] (namedOfJson? limit) named
      switches := ← Json.part [] textsOfJson? switches
      bindingErrors := ← Json.part none choiceOfJson? bindingErrors }
  | _ => none

def valuesOfToml? : Toml → Option (List Value)
  | .array items => some (Value.itemsOfToml items)
  | _ => none

/-- The values of a table, in the order of their names. -/
def namedOfToml? : Toml → Option (List (String × Value))
  | .table entries => some (Value.bag (Value.entriesOfToml entries))
  | _ => none

def textsOfToml? : Toml → Option (List String)
  | .array items => items.mapM Toml.string?
  | _ => none

/-- The choice that a document names. -/
def choiceOfToml? (v : Toml) : Option (Option BindingErrorAction) :=
  (v.choice?.bind BindingErrorAction.ofName?).map some

def ofToml? (v : Toml) : Option CommandDefinition := do
  match ← v.fields? fieldNames with
  | [name, positional, named, switches, bindingErrors] =>
    return {
      name := ← (← name).string?
      positional := ← Toml.part [] valuesOfToml? positional
      named := ← Toml.part [] namedOfToml? named
      switches := ← Toml.part [] textsOfToml? switches
      bindingErrors := ← Toml.part none choiceOfToml? bindingErrors }
  | _ => none

end CommandDefinition

namespace PipelineDefinition

/-- The names of the parts of a definition. -/
def fieldNames : List String :=
  ["input", "commands"]

def toJson (d : PipelineDefinition) : Json :=
  .object ((d.input.map fun values => ("input", Json.array (Value.itemsToJson values))).toList
    ++ [("commands", .array (d.commands.map CommandDefinition.toJson))])

def jsonText (d : PipelineDefinition) : String :=
  d.toJson.text

/-- The TOML text of a definition, unless there is a null in it. -/
def tomlText (d : PipelineDefinition) : Except EngineError String :=
  match Toml.ofJson? d.toJson with
  | some v => .ok v.text
  | none => .error (.serialization "a null cannot be written")

/-- The objects of the host in a document, if it is not null. -/
def inputOfJson? (limit : Nat) : Json → Option (Option (List Value))
  | .null => some none
  | j => (CommandDefinition.valuesOfJson? limit j).map some

def commandsOfJson? (limit : Nat) : Json → Option (List CommandDefinition)
  | .array items => items.mapM (CommandDefinition.ofJson? limit)
  | _ => none

/-- The definition in a document. Its arrays and objects nest no deeper than those of a value,
counted from the document itself. -/
def ofJson? (j : Json) : Option PipelineDefinition := do
  match ← j.fields? fieldNames with
  | [input, commands] =>
    return {
      input := ← Json.part none (inputOfJson? (Value.nestingLimit - 2)) input
      commands := ← Json.part [] (commandsOfJson? (Value.nestingLimit - 4)) commands }
  | _ => none

def commandsOfToml? : Toml → Option (List CommandDefinition)
  | .array items => items.mapM CommandDefinition.ofToml?
  | _ => none

def ofToml? (v : Toml) : Option PipelineDefinition := do
  match ← v.fields? fieldNames with
  | [input, commands] =>
    return {
      input := ← Toml.part none (fun v => (CommandDefinition.valuesOfToml? v).map some) input
      commands := ← Toml.part [] commandsOfToml? commands }
  | _ => none

def parseJson (s : String) : Except EngineError PipelineDefinition :=
  match (Json.read? s).bind ofJson? with
  | some d => .ok d
  | none => .error (.definition "the text is no definition in JSON")

def parseToml (s : String) : Except EngineError PipelineDefinition :=
  match (Toml.read? s).bind ofToml? with
  | some d => .ok d
  | none => .error (.definition "the text is no definition in TOML")

end PipelineDefinition

end CommandChain
