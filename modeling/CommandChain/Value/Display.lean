import CommandChain.Decimal.Layout
import CommandChain.Value.Basic
/-!
# The text of a value

The text in which a value is shown, matched against patterns and converted to a string. Null is
empty; rows and native objects show the name of their type only.
-/

namespace CommandChain.Value

mutual
def display : Value → String
  | .null => ""
  | .bool b => if b then "True" else "False"
  | .int i => Decimal.intText i.toInt
  | .float x => Decimal.plainText x
  | .string s => s
  | .array items => displayItems items
  | .object properties => "@\x7b" ++ displayProperties properties ++ "\x7d"
  | .typed name _ => name
  | .native _ name _ _ => name
/-- The texts of the elements with a blank between them. -/
def displayItems : List Value → String
  | [] => ""
  | [v] => v.display
  | v :: rest => v.display ++ " " ++ displayItems rest
/-- The properties as `name=value` with a semicolon and a blank between them. -/
def displayProperties : List (String × Value) → String
  | [] => ""
  | [(name, v)] => name ++ "=" ++ v.display
  | (name, v) :: rest => name ++ "=" ++ v.display ++ "; " ++ displayProperties rest
end

end CommandChain.Value
