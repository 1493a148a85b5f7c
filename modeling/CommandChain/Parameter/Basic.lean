import CommandChain.Text.Ascii
import CommandChain.Value.Basic
/-!
# Parameters and arguments

A command declares its parameters in a table; whoever builds a chain supplies arguments for them.
-/

namespace CommandChain

/-- How a parameter takes values from the objects that arrive. -/
inductive PipelineInput where
  /-- Not at all. -/
  | none
  /-- The object itself, where its type fits. -/
  | byValue
  /-- The property of the object that has the parameter's name. -/
  | byPropertyName
deriving DecidableEq

/-- The name of a way of taking values. -/
def PipelineInput.name : PipelineInput → String
  | none => "None"
  | byValue => "ByValue"
  | byPropertyName => "ByPropertyName"

structure Parameter where
  name : String
  type : ValueType := .any
  mandatory : Bool := false
  pipeline : PipelineInput := .none
  /-- The place among the arguments given without a name. -/
  position : Option Nat := Option.none
  aliases : List String := []
deriving DecidableEq

namespace Parameter

/-- Whether the parameter takes values from arriving objects. -/
def acceptsInput (p : Parameter) : Bool :=
  p.pipeline != .none

/-- Whether `name` is the name or an alias of the parameter. -/
def isNamed (p : Parameter) (name : String) : Bool :=
  Text.sameName p.name name || p.aliases.any (Text.sameName · name)

/-- Whether the name or an alias of the parameter starts with `start`. -/
def startsWith (p : Parameter) (start : String) : Bool :=
  Text.startsWithName start p.name || p.aliases.any (Text.startsWithName start)

/-- The parameters every command has beside its own. -/
def common : List Parameter := [
  { name := "ErrorAction", type := .string, aliases := ["ea"] },
  { name := "WarningAction", type := .string, aliases := ["wa"] },
  { name := "InformationAction", type := .string, aliases := ["infa"] },
  { name := "Verbose", type := .bool, aliases := ["vb"] },
  { name := "Debug", type := .bool, aliases := ["db"] }]

end Parameter

/-- An argument supplied to a command. -/
inductive Argument where
  /-- With a name; a switch has no value. -/
  | named (name : String) (value : Option Value)
  | positional (value : Value)

/-- Where the value of a parameter came from. -/
inductive BindingSource where
  | named
  | positional
  | pipelineByValue
  | pipelineByPropertyName
deriving DecidableEq

namespace BindingSource

def name : BindingSource → String
  | named => "Named"
  | positional => "Positional"
  | pipelineByValue => "PipelineByValue"
  | pipelineByPropertyName => "PipelineByPropertyName"

def ofName? (s : String) : Option BindingSource :=
  [named, positional, pipelineByValue, pipelineByPropertyName].find? (·.name == s)

/-- Whether a value came from an arriving object. -/
def isPipeline : BindingSource → Bool
  | pipelineByValue | pipelineByPropertyName => true
  | named | positional => false

end BindingSource

/-- A parameter with its value. -/
structure BoundParameter where
  name : String
  value : Value
  source : BindingSource

/-- The parameter values of one call, in the order in which they were bound. -/
structure BoundParameters where
  entries : List BoundParameter

namespace BoundParameters

def empty : BoundParameters := ⟨[]⟩

instance : Inhabited BoundParameters := ⟨empty⟩

/-- Binds a parameter at the end, in the place of an earlier value. -/
def insert (bound : BoundParameters) (name : String) (value : Value) (source : BindingSource) :
    BoundParameters :=
  ⟨bound.entries.filter (!Text.sameName ·.name name) ++ [⟨name, value, source⟩]⟩

/-- The entry of a parameter. -/
def entry? (bound : BoundParameters) (name : String) : Option BoundParameter :=
  bound.entries.find? (Text.sameName ·.name name)

/-- The value of a parameter. -/
def get? (bound : BoundParameters) (name : String) : Option Value :=
  (bound.entry? name).map BoundParameter.value

def contains (bound : BoundParameters) (name : String) : Bool :=
  (bound.entry? name).isSome

/-- Where the value of a parameter came from. -/
def source? (bound : BoundParameters) (name : String) : Option BindingSource :=
  (bound.entry? name).map BoundParameter.source

/-- The value of a parameter bound to a text. -/
def text? (bound : BoundParameters) (name : String) : Option String :=
  (bound.get? name).bind Value.asText

/-- The value of a parameter bound to an integer. -/
def int? (bound : BoundParameters) (name : String) : Option Int64 :=
  (bound.get? name).bind Value.asInt

/-- Whether a parameter is bound to a value that counts as true. -/
def switch (bound : BoundParameters) (name : String) : Bool :=
  (bound.get? name).any Value.isTruthy

/-- The names bound from the arriving object. -/
def fromPipeline (bound : BoundParameters) : List String :=
  (bound.entries.filter (·.source.isPipeline)).map BoundParameter.name

end BoundParameters

end CommandChain
