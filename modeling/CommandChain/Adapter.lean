import CommandChain.Text.Ascii
import CommandChain.Value.Conversion
/-!
# Property access

Objects of different shapes are read through an adapter, which looks a property up by name, lists
the names an object has, and converts values. There is an adapter for each shape: property bags,
rows described by a schema, and native objects. A composite asks its parts in order, and the first
that answers decides. Names are matched up to ASCII case.
-/

namespace CommandChain

/-- The field names of the rows of one type. -/
structure Schema where
  typeName : String
  fields : List String
deriving DecidableEq

/-- The position of the first field of that name. -/
def Schema.fieldIndex? (schema : Schema) (name : String) : Option Nat :=
  schema.fields.findIdx? (Text.sameName · name)

/-- The schemas known by the name of their type. -/
structure SchemaRegistry where
  schemas : List Schema
deriving DecidableEq

namespace SchemaRegistry

/-- The registry without schemas. -/
def empty : SchemaRegistry := ⟨[]⟩

/-- The schema of a type. -/
def get? (registry : SchemaRegistry) (typeName : String) : Option Schema :=
  registry.schemas.find? (Text.sameName ·.typeName typeName)

/-- Puts a schema in the place of any earlier one for its type. -/
def register (registry : SchemaRegistry) (schema : Schema) : SchemaRegistry :=
  ⟨registry.schemas.filter (!Text.sameName ·.typeName schema.typeName) ++ [schema]⟩

/-- The number of types with a schema. -/
def size (registry : SchemaRegistry) : Nat :=
  registry.schemas.length

end SchemaRegistry

/-- Property access and conversion over objects. -/
structure Adapter where
  /-- The value of a property; `none` where the object has no such property. -/
  property? : Value → String → Option Value
  /-- The names of all properties; `none` where the shape of the object is not understood. -/
  propertyNames? : Value → Option (List String)
  /-- The conversion of values to types. -/
  convertTo : Value → ValueType → Except ConversionError Value := Value.convertTo

namespace Adapter

/-- The property of a bag: the exact name, or else the first that agrees up to case. -/
def bagProperty? (properties : List (String × Value)) (name : String) : Option Value :=
  match properties.lookup name with
  | some v => some v
  | none => (properties.find? (Text.sameName ·.1 name)).map Prod.snd

/-- The property of a native object: the exact name, or else the first listed name that agrees up
to case. -/
def nativeProperty? (properties : List (String × Value)) (hidden : List String) (name : String) :
    Option Value :=
  match properties.lookup name with
  | some v => some v
  | none =>
    ((Value.nativeNames properties hidden).find? (Text.sameName · name)).bind fun listed =>
      properties.lookup listed

/-- Reads property bags. -/
def bags : Adapter where
  property?
    | .object properties, name => bagProperty? properties name
    | _, _ => none
  propertyNames?
    | .object properties => some (properties.map Prod.fst)
    | _ => none

/-- Reads rows through their schemas; the fields a row does not reach are null. -/
def rows (registry : SchemaRegistry) : Adapter where
  property?
    | .typed typeName fields, name => do
      let schema ← registry.get? typeName
      let index ← schema.fieldIndex? name
      return fields.getD index .null
    | _, _ => none
  propertyNames?
    | .typed typeName _ => (registry.get? typeName).map Schema.fields
    | _ => none

/-- Reads native objects. -/
def natives : Adapter where
  property?
    | .native _ _ properties hidden, name => nativeProperty? properties hidden name
    | _, _ => none
  propertyNames?
    | .native _ _ properties hidden => some (Value.nativeNames properties hidden)
    | _ => none

/-- Asks each part in order. -/
def composite (parts : List Adapter) : Adapter where
  property? v name := parts.findSome? (·.property? v name)
  propertyNames? v := parts.findSome? (·.propertyNames? v)

/-- Reads bags, rows and native objects, in that order. -/
def standard (registry : SchemaRegistry) : Adapter :=
  composite [bags, rows registry, natives]

instance : Inhabited Adapter := ⟨standard .empty⟩

end Adapter

end CommandChain
