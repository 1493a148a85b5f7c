import CommandChain.Script.Operator
/-!
# Programs of scripts

A program is a list of functions, statements, and at its end perhaps an expression whose value is
that of the program. Blocks have the same form without functions.
-/

namespace CommandChain.Script

mutual
inductive Expr where
  | constant (d : Datum)
  | variable (name : String)
  | array (items : List Expr)
  | map (entries : List (String × Expr))
  | negate (e : Expr)
  | not (e : Expr)
  | binary (op : Operator) (a b : Expr)
  /-- A conjunction; the second operand is evaluated only where the first is true. -/
  | both (a b : Expr)
  /-- A disjunction; the second operand is evaluated only where the first is false. -/
  | either (a b : Expr)
  | property (e : Expr) (name : String)
  | index (e : Expr) (key : Expr)
  | call (function : String) (arguments : List Expr)
  | method (target : Expr) (function : String) (arguments : List Expr)
  | block (statements : List Statement) (value : Option Expr)
  /-- A choice; a choice without an alternative has an empty block there. -/
  | choice (condition : Expr) (yes no : Expr)
inductive Statement where
  | declare (name : String) (value : Option Expr)
  /-- An assignment, perhaps combined with an operator. -/
  | assign (target : Expr) (op : Option Operator) (value : Expr)
  | evaluate (e : Expr)
  /-- A loop, which without a condition goes on until it is left. -/
  | repeat (condition : Option Expr) (statements : List Statement) (value : Option Expr)
  /-- A loop over the elements of an array. -/
  | forItems (name : String) (items : Expr) (statements : List Statement) (value : Option Expr)
  /-- A loop over the integers between two bounds, the first and perhaps the last of them
  included. -/
  | forRange (name : String) (first last : Expr) (inclusive : Bool) (statements : List Statement)
      (value : Option Expr)
  | leave
  | proceed
  | return (value : Option Expr)
  | throw (value : Option Expr)
end

/-- A step into a datum, as it is written. -/
inductive Accessor where
  | property (name : String)
  | index (key : Expr)

/-- The variable an expression can assign to, and the steps from it. -/
def Expr.place? : Expr → Option (String × List Accessor)
  | .variable name => some (name, [])
  | .property e name => e.place?.map fun (root, steps) => (root, steps ++ [.property name])
  | .index e key => e.place?.map fun (root, steps) => (root, steps ++ [.index key])
  | _ => none

structure Function where
  name : String
  parameters : List String
  statements : List Statement
  value : Option Expr

structure Program where
  functions : List Function
  statements : List Statement
  value : Option Expr

end CommandChain.Script
