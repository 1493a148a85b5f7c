import CommandChain.Adapter
import CommandChain.Parameter.Basic
import CommandChain.Text.Blank
/-!
# Binding parameters

Static binding matches the supplied arguments against the declared parameters once, before a
command begins. Object binding then adds, for each object that arrives, the values the object
supplies; nothing of one object reaches the next.

An object binds at most one parameter by value: the first whose type the object has exactly, or
else the first that takes any value, or else the first whose type the object converts to. After
that every parameter bound by property name that is still free takes its property.
-/

namespace CommandChain

/-- Why arguments or an object could not be bound. -/
inductive BindingError where
  | ambiguousParameter (name : String) (candidates : List String)
  | missingMandatoryParameter (parameter : String)
  | missingArgument (parameter : String)
  | typeConversionFailed (parameter value fromType : String) (toType : ValueType)
  | noParameterAcceptsInput
  | parameterNotFound (name : String)
  | positionalParameterNotFound (argument : String)
  | parameterAlreadyBound (parameter : String)
deriving DecidableEq

namespace BindingError

/-- The stable identifier of an error. -/
def errorId : BindingError → String
  | ambiguousParameter .. => "AmbiguousParameter"
  | missingMandatoryParameter _ => "MissingMandatoryParameter"
  | missingArgument _ => "MissingArgument"
  | typeConversionFailed .. => "TypeConversionFailed"
  | noParameterAcceptsInput => "NoParameterAcceptsInput"
  | parameterNotFound _ => "ParameterNotFound"
  | positionalParameterNotFound _ => "PositionalParameterNotFound"
  | parameterAlreadyBound _ => "ParameterAlreadyBound"

def message : BindingError → String
  | ambiguousParameter name candidates =>
    "Parameter name '" ++ name ++ "' is ambiguous. Possible matches: "
      ++ ", ".intercalate candidates
  | missingMandatoryParameter parameter => "Missing mandatory parameter '" ++ parameter ++ "'"
  | missingArgument parameter => "Missing an argument for parameter '" ++ parameter ++ "'"
  | typeConversionFailed parameter value fromType toType =>
    "Cannot bind parameter '" ++ parameter ++ "': cannot convert \"" ++ value ++ "\" of type "
      ++ fromType ++ " to " ++ toType.name
  | noParameterAcceptsInput => "The input object cannot be bound to any parameter of the command"
  | parameterNotFound name =>
    "A parameter cannot be found that matches parameter name '" ++ name ++ "'"
  | positionalParameterNotFound argument =>
    "A positional parameter cannot be found that accepts argument '" ++ argument ++ "'"
  | parameterAlreadyBound parameter =>
    "Parameter '" ++ parameter ++ "' cannot be specified more than once"

end BindingError

/-- The parameters of one command together with the adapter that reads objects for them. -/
structure Binder where
  parameters : List Parameter
  adapter : Adapter

namespace Binder

/-- Whether any parameter takes values from arriving objects. -/
def acceptsInput (binder : Binder) : Bool :=
  binder.parameters.any Parameter.acceptsInput

/-- The value of a parameter, converted to its declared type. -/
def convert (binder : Binder) (p : Parameter) (v : Value) : Except BindingError Value :=
  match binder.adapter.convertTo v p.type with
  | .ok w => .ok w
  | .error e => .error (.typeConversionFailed p.name e.value e.fromType e.toType)

/-- The parameter a supplied name stands for: the first so named, its own parameters before the
common ones, or else the only one whose name or alias starts with it. -/
def resolve (binder : Binder) (name : String) : Except BindingError Parameter :=
  let name := Text.dropDashes name
  let all := binder.parameters ++ Parameter.common
  match all.find? (·.isNamed name) with
  | some p => .ok p
  | none =>
    match all.filter (·.startsWith name) with
    | [] => .error (.parameterNotFound name)
    | [p] => .ok p
    | several => .error (.ambiguousParameter name (several.map Parameter.name))

/-- The value of a named argument; a switch turns a truth value on. -/
def argumentValue (binder : Binder) (p : Parameter) : Option Value → Except BindingError Value
  | some v => binder.convert p v
  | none => if p.type == .bool then .ok (.bool true) else .error (.missingArgument p.name)

/-- Binds the arguments that have names, in order. -/
def bindNames (binder : Binder) : List Argument → BoundParameters →
    Except BindingError BoundParameters
  | [], bound => .ok bound
  | .positional _ :: rest, bound => binder.bindNames rest bound
  | .named name value :: rest, bound =>
    match binder.resolve name with
    | .error e => .error e
    | .ok p =>
      if bound.contains p.name then .error (.parameterAlreadyBound p.name)
      else match binder.argumentValue p value with
        | .error e => .error e
        | .ok v => binder.bindNames rest (bound.insert p.name v .named)

/-- The values of the arguments without names, in order. -/
def positionals : List Argument → List Value
  | [] => []
  | .positional v :: rest => v :: positionals rest
  | .named .. :: rest => positionals rest

/-- Whether the place of one parameter comes no later than that of another. -/
def placedBefore (p q : Parameter) : Bool :=
  p.position.getD 0 ≤ q.position.getD 0

/-- The parameters that arguments without names can still fill, by place and then by
declaration. -/
def slots (binder : Binder) (bound : BoundParameters) : List Parameter :=
  (binder.parameters.filter fun p => p.position.isSome && !bound.contains p.name).mergeSort
    placedBefore

/-- Binds the arguments without names to the free places in turn. -/
def bindPositions (binder : Binder) : List Value → List Parameter → BoundParameters →
    Except BindingError BoundParameters
  | [], _, bound => .ok bound
  | v :: _, [], _ => .error (.positionalParameterNotFound v.display)
  | v :: values, p :: free, bound =>
    match binder.convert p v with
    | .error e => .error e
    | .ok w => binder.bindPositions values free (bound.insert p.name w .positional)

/-- The first mandatory parameter that is not bound, of those that have to be. -/
def missing? (binder : Binder) (bound : BoundParameters) (expectsInput : Bool) : Option Parameter :=
  binder.parameters.find? fun p =>
    p.mandatory && !(expectsInput && p.acceptsInput) && !bound.contains p.name

/-- Static binding. When objects are expected, a mandatory parameter that they can fill is not
required yet. -/
def bindArguments (binder : Binder) (arguments : List Argument) (expectsInput : Bool) :
    Except BindingError BoundParameters := do
  let named ← binder.bindNames arguments .empty
  let bound ← binder.bindPositions (positionals arguments) (binder.slots named) named
  match binder.missing? bound expectsInput with
  | some p => .error (.missingMandatoryParameter p.name)
  | none => .ok bound

/-- The parameters of one way of taking input that are not bound statically. -/
def candidates (binder : Binder) (bound : BoundParameters) (way : PipelineInput) :
    List Parameter :=
  binder.parameters.filter fun p => p.pipeline == way && !bound.contains p.name

/-- The first parameter whose type the object converts to, with the converted object. -/
def firstConvertible? (binder : Binder) (input : Value) : List Parameter →
    Option (Parameter × Value)
  | [] => none
  | p :: rest =>
    match binder.adapter.convertTo input p.type with
    | .ok v => some (p, v)
    | .error _ => binder.firstConvertible? input rest

/-- The parameter that takes the object by value, with the value it takes. -/
def byValue? (binder : Binder) (bound : BoundParameters) (input : Value) :
    Option (Parameter × Value) :=
  let free := binder.candidates bound .byValue
  match free.find? fun p => p.type != .any && input.isExactly p.type with
  | some p => some (p, input)
  | none =>
    match free.find? fun p => p.type == .any with
    | some p => some (p, input)
    | none => binder.firstConvertible? input free

/-- The property for a parameter: that of its name, or else that of its first alias with one. -/
def propertyFor? (binder : Binder) (p : Parameter) (input : Value) : Option Value :=
  match binder.adapter.property? input p.name with
  | some v => some v
  | none => p.aliases.findSome? (binder.adapter.property? input)

/-- Binds parameters to properties of the object, in order. A null property is bound as it is. -/
def bindProperties (binder : Binder) (input : Value) : List Parameter → BoundParameters →
    Except BindingError BoundParameters
  | [], bound => .ok bound
  | p :: rest, bound =>
    if bound.contains p.name then binder.bindProperties input rest bound
    else match binder.propertyFor? p input with
      | none => binder.bindProperties input rest bound
      | some .null =>
        binder.bindProperties input rest (bound.insert p.name .null .pipelineByPropertyName)
      | some v =>
        match binder.convert p v with
        | .error e => .error e
        | .ok w => binder.bindProperties input rest (bound.insert p.name w .pipelineByPropertyName)

/-- Object binding: the static values and, on top of them, those the object supplies. -/
def bindObject (binder : Binder) (bound : BoundParameters) (input : Value) :
    Except BindingError BoundParameters :=
  if !binder.acceptsInput then .error .noParameterAcceptsInput
  else
    let chosen := binder.byValue? bound input
    let start := match chosen with
      | some (p, v) => bound.insert p.name v .pipelineByValue
      | none => bound
    match binder.bindProperties input (binder.candidates bound .byPropertyName) start with
    | .error e => .error e
    | .ok result =>
      if result.entries.length == bound.entries.length then .error .noParameterAcceptsInput
      else match binder.parameters.find? fun p => p.mandatory && !result.contains p.name with
        | some p => .error (.missingMandatoryParameter p.name)
        | none => .ok result

end Binder

end CommandChain
