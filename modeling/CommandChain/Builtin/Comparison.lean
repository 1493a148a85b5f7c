import CommandChain.Value.Comparison
/-!
# Comparison operators

The operators with which a filter compares a property with a value.
-/

namespace CommandChain.Builtin

inductive ComparisonOperator where
  | eq
  | ne
  | gt
  | ge
  | lt
  | le
  | like
  | notLike
deriving DecidableEq

namespace ComparisonOperator

def all : List ComparisonOperator :=
  [eq, ne, gt, ge, lt, le, like, notLike]

def name : ComparisonOperator → String
  | eq => "Eq"
  | ne => "Ne"
  | gt => "Gt"
  | ge => "Ge"
  | lt => "Lt"
  | le => "Le"
  | like => "Like"
  | notLike => "NotLike"

/-- The operator a text names, up to ASCII case, surrounding white space and leading dashes. -/
def read? (s : String) : Option ComparisonOperator :=
  all.find? fun op => Text.sameName op.name (Text.dropDashes (Text.trim s))

/-- The wording for a text that names no operator. -/
def readErrorMessage (s : String) : String :=
  "Unknown comparison operator '" ++ s ++ "'"

/-- Whether a comparison holds. Values that have no order are in none of the relations of order. -/
def evaluate (op : ComparisonOperator) (left right : Value) : Bool :=
  match op with
  | eq => left.looseEq right
  | ne => !left.looseEq right
  | gt => left.compare? right == some .gt
  | ge => left.compare? right == some .gt || left.compare? right == some .eq
  | lt => left.compare? right == some .lt
  | le => left.compare? right == some .lt || left.compare? right == some .eq
  | like => left.like right.display
  | notLike => !left.like right.display

end ComparisonOperator

end CommandChain.Builtin
