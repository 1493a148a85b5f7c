import CommandChain.Script.Token
import CommandChain.Script.Tree
/-!
# The grammar of scripts

Statements are separated by semicolons, which may be left out behind a block. Binary operators
associate to the left; they bind, from the weakest to the strongest: disjunction, conjunction,
equality, order, sums, products. Functions are defined outside of all blocks.

A reader returns what it finds at the start of some tokens and the tokens behind it. Readers take
fuel, of which one unit is spent on every nested call, and the room that is left for nesting, of
which one level is spent on every level of an expression.
-/

namespace CommandChain.Script

/-- Where statements stand. -/
structure Place where
  /-- Outside of all blocks, where functions can be defined. -/
  outermost : Bool
  /-- Within a loop, which can be left. -/
  inLoop : Bool

/-- What is read at the start of a program or block. -/
structure Body where
  functions : List Function
  statements : List Statement
  value : Option Expr

namespace Grammar

/-- A binary operator: one on data, or one that decides whether to evaluate its second operand. -/
inductive Connective where
  | plain (op : Operator)
  | both
  | either

/-- The expression of an operator and its operands. -/
def Connective.build : Connective → Expr → Expr → Expr
  | plain op => .binary op
  | both => .both
  | either => .either

/-- The operator a symbol stands for, and how strongly it binds. -/
def connective? : String → Option (Connective × Nat)
  | "||" => some (.either, 1)
  | "&&" => some (.both, 2)
  | "==" => some (.plain .equal, 3)
  | "!=" => some (.plain .unequal, 3)
  | "<" => some (.plain .less, 4)
  | "<=" => some (.plain .lessOrEqual, 4)
  | ">" => some (.plain .greater, 4)
  | ">=" => some (.plain .greaterOrEqual, 4)
  | "+" => some (.plain .add, 5)
  | "-" => some (.plain .subtract, 5)
  | "*" => some (.plain .multiply, 6)
  | "/" => some (.plain .divide, 6)
  | "%" => some (.plain .remainder, 6)
  | _ => none

/-- The operator an assignment is combined with. -/
def assignment? : String → Option (Option Operator)
  | "=" => some none
  | "+=" => some (some .add)
  | "-=" => some (some .subtract)
  | "*=" => some (some .multiply)
  | "/=" => some (some .divide)
  | "%=" => some (some .remainder)
  | _ => none

/-- One level of nesting less. -/
def deeper : Nat → Except Failure Nat
  | 0 => .error .tooDeep
  | room + 1 => .ok room

/-- The tokens behind a symbol that has to come first. -/
def expect (s : String) : List Token → Except Failure (List Token)
  | .symbol t :: rest => if s == t then .ok rest else .error .unexpectedToken
  | _ => .error .unexpectedToken

/-- Whether a block or the whole text ends here. -/
def atEnd : List Token → Bool
  | [] => true
  | .symbol s :: _ => s == "\x7d"
  | _ => false

/-- Whether a statement that starts here ends with a block. -/
def startsBlock : List Token → Bool
  | .word s :: _ => s == "if" || s == "while" || s == "loop" || s == "for"
  | .symbol s :: _ => s == "\x7b"
  | _ => false

/-- The names of parameters up to the closing parenthesis. -/
def parameters : List Token → Except Failure (List String × List Token)
  | .symbol ")" :: rest => .ok ([], rest)
  | .word name :: .symbol ")" :: rest => .ok ([name], rest)
  | .word name :: .symbol "," :: rest => do
    let (names, rest) ← parameters rest
    return (name :: names, rest)
  | _ => .error .unexpectedToken

mutual
def expression : Nat → Nat → List Token → Except Failure (Expr × List Token)
  | 0, _, _ => .error .tooDeep
  | fuel + 1, room, ts => do
    let room ← deeper room
    let (first, rest) ← operand fuel room ts
    binaries fuel room 1 first rest
/-- The binary operators behind an operand that bind at least as strongly as `level`. -/
def binaries : Nat → Nat → Nat → Expr → List Token → Except Failure (Expr × List Token)
  | 0, _, _, _, _ => .error .tooDeep
  | fuel + 1, room, level, left, ts =>
    match ts with
    | .symbol s :: rest =>
      match connective? s with
      | some (op, strength) =>
        if strength < level then .ok (left, ts)
        else do
          let room ← deeper room
          let (right, rest) ← operand fuel room rest
          let (right, rest) ← binaries fuel room (strength + 1) right rest
          binaries fuel room level (op.build left right) rest
      | none => .ok (left, ts)
    | _ => .ok (left, ts)
/-- An operand with the signs in front of it. -/
def operand : Nat → Nat → List Token → Except Failure (Expr × List Token)
  | 0, _, _ => .error .tooDeep
  | fuel + 1, room, ts =>
    match ts with
    | .symbol "-" :: rest => do
      let room ← deeper room
      let (e, rest) ← operand fuel room rest
      return (.negate e, rest)
    | .symbol "!" :: rest => do
      let room ← deeper room
      let (e, rest) ← operand fuel room rest
      return (.not e, rest)
    | _ => do
      let (e, rest) ← primary fuel room ts
      accesses fuel room e rest
/-- The indexes, properties and method calls behind an operand. -/
def accesses : Nat → Nat → Expr → List Token → Except Failure (Expr × List Token)
  | 0, _, _, _ => .error .tooDeep
  | fuel + 1, room, e, ts =>
    match ts with
    | .symbol "[" :: rest => do
      let room ← deeper room
      let (key, rest) ← expression fuel room rest
      let rest ← expect "]" rest
      accesses fuel room (.index e key) rest
    | .symbol "." :: .word name :: .symbol "(" :: rest => do
      let room ← deeper room
      let (arguments, rest) ← list fuel room ")" rest
      accesses fuel room (.method e name arguments) rest
    | .symbol "." :: .word name :: rest => do
      let room ← deeper room
      accesses fuel room (.property e name) rest
    | _ => .ok (e, ts)
/-- An operand without signs and accesses. -/
def primary : Nat → Nat → List Token → Except Failure (Expr × List Token)
  | 0, _, _ => .error .tooDeep
  | fuel + 1, room, ts =>
    match ts with
    | .int i :: rest => .ok (.constant (.int i), rest)
    | .float x :: rest => .ok (.constant (.float x), rest)
    | .text s :: rest => .ok (.constant (.text s), rest)
    | .word "true" :: rest => .ok (.constant (.bool true), rest)
    | .word "false" :: rest => .ok (.constant (.bool false), rest)
    | .word "if" :: rest => do
      let room ← deeper room
      choice fuel room ⟨false, false⟩ rest
    | .word name :: rest =>
      if Token.keywords.contains name then .error .unexpectedToken
      else match rest with
        | .symbol "(" :: rest => do
          let room ← deeper room
          let (arguments, rest) ← list fuel room ")" rest
          return (.call name arguments, rest)
        | _ => .ok (.variable name, rest)
    | .symbol "(" :: .symbol ")" :: rest => .ok (.constant .unit, rest)
    | .symbol "(" :: rest => do
      let room ← deeper room
      let (e, rest) ← expression fuel room rest
      let rest ← expect ")" rest
      return (e, rest)
    | .symbol "[" :: rest => do
      let room ← deeper room
      let (items, rest) ← list fuel room "]" rest
      return (.array items, rest)
    | .symbol "#\x7b" :: rest => do
      let room ← deeper room
      let (entries, rest) ← entries fuel room [] rest
      return (.map entries, rest)
    | .symbol "\x7b" :: _ => do
      let room ← deeper room
      let (body, rest) ← block fuel room ⟨false, false⟩ ts
      return (.block body.statements body.value, rest)
    | _ => .error .unexpectedToken
/-- Expressions with commas between them, up to a closing symbol. -/
def list : Nat → Nat → String → List Token → Except Failure (List Expr × List Token)
  | 0, _, _, _ => .error .tooDeep
  | fuel + 1, room, closing, ts =>
    match expect closing ts with
    | .ok rest => .ok ([], rest)
    | .error _ => do
      let (e, rest) ← expression fuel room ts
      match rest with
      | .symbol "," :: rest =>
        let (more, rest) ← list fuel room closing rest
        return (e :: more, rest)
      | rest =>
        let rest ← expect closing rest
        return ([e], rest)
/-- The entries of a map up to its closing brace, of which no name may occur twice. -/
def entries : Nat → Nat → List String → List Token →
    Except Failure (List (String × Expr) × List Token)
  | 0, _, _, _ => .error .tooDeep
  | fuel + 1, room, seen, ts =>
    match ts with
    | .symbol "\x7d" :: rest => .ok ([], rest)
    | .word name :: .symbol ":" :: rest | .text name :: .symbol ":" :: rest =>
      if seen.contains name then .error .unexpectedToken
      else do
        let (e, rest) ← expression fuel room rest
        match rest with
        | .symbol "," :: rest =>
          let (more, rest) ← entries fuel room (name :: seen) rest
          return ((name, e) :: more, rest)
        | rest =>
          let rest ← expect "\x7d" rest
          return ([(name, e)], rest)
    | _ => .error .unexpectedToken
/-- A choice behind its first keyword. -/
def choice : Nat → Nat → Place → List Token → Except Failure (Expr × List Token)
  | 0, _, _, _ => .error .tooDeep
  | fuel + 1, room, place, ts => do
    let (condition, rest) ← expression fuel room ts
    let (yes, rest) ← block fuel room place rest
    let yes := Expr.block yes.statements yes.value
    match rest with
    | .word "else" :: .word "if" :: rest =>
      let room ← deeper room
      let (no, rest) ← choice fuel room place rest
      return (.choice condition yes no, rest)
    | .word "else" :: rest =>
      let (no, rest) ← block fuel room place rest
      return (.choice condition yes (.block no.statements no.value), rest)
    | rest => return (.choice condition yes (.block [] none), rest)
def block : Nat → Nat → Place → List Token → Except Failure (Body × List Token)
  | 0, _, _, _ => .error .tooDeep
  | fuel + 1, room, place, ts => do
    let room ← deeper room
    let rest ← expect "\x7b" ts
    let (body, rest) ← statements fuel room { place with outermost := false } rest
    let rest ← expect "\x7d" rest
    return (body, rest)
/-- The statements up to the end of a block or of the whole text. -/
def statements : Nat → Nat → Place → List Token → Except Failure (Body × List Token)
  | 0, _, _, _ => .error .tooDeep
  | fuel + 1, room, place, ts =>
    if atEnd ts then .ok (⟨[], [], none⟩, ts)
    else match ts with
      | .symbol ";" :: rest => statements fuel room place rest
      | .word "fn" :: rest =>
        if place.outermost then do
          let (f, rest) ← function fuel room rest
          let (body, rest) ← statements fuel room place rest
          return ({ body with functions := f :: body.functions }, rest)
        else .error .unexpectedToken
      | _ => do
        let (s, rest) ← statement fuel room place ts
        if atEnd rest then
          match s with
          | .evaluate e => return (⟨[], [], some e⟩, rest)
          | s => return (⟨[], [s], none⟩, rest)
        else
          let rest ← if startsBlock ts then .ok rest else expect ";" rest
          let (body, rest) ← statements fuel room place rest
          return ({ body with statements := s :: body.statements }, rest)
/-- A function behind its keyword. Its body has the room of a whole program. -/
def function : Nat → Nat → List Token → Except Failure (Function × List Token)
  | 0, _, _ => .error .tooDeep
  | fuel + 1, room, ts =>
    match ts with
    | .word name :: .symbol "(" :: rest =>
      if Token.keywords.contains name then .error .unexpectedToken
      else do
        let (names, rest) ← parameters rest
        let (body, rest) ← block fuel room ⟨false, false⟩ rest
        if names.eraseDups.length == names.length then
          return (⟨name, names, body.statements, body.value⟩, rest)
        else .error .unexpectedToken
    | _ => .error .unexpectedToken
/-- A statement without the semicolon behind it. -/
def statement : Nat → Nat → Place → List Token → Except Failure (Statement × List Token)
  | 0, _, _, _ => .error .tooDeep
  | fuel + 1, room, place, ts => do
    let room ← deeper room
    match ts with
    | .word "let" :: .word name :: rest =>
      if Token.keywords.contains name then .error .unexpectedToken
      else match rest with
        | .symbol "=" :: rest =>
          let (e, rest) ← expression fuel room rest
          return (.declare name (some e), rest)
        | rest => return (.declare name none, rest)
    | .word "if" :: rest =>
      let (e, rest) ← choice fuel room place rest
      return (.evaluate e, rest)
    | .symbol "\x7b" :: _ =>
      let (body, rest) ← block fuel room place ts
      return (.evaluate (.block body.statements body.value), rest)
    | .word "while" :: rest =>
      let (e, rest) ← expression fuel room rest
      let (body, rest) ← block fuel room ⟨false, true⟩ rest
      return (.repeat (some e) body.statements body.value, rest)
    | .word "loop" :: rest =>
      let (body, rest) ← block fuel room ⟨false, true⟩ rest
      return (.repeat none body.statements body.value, rest)
    | .word "for" :: .word name :: .word "in" :: rest =>
      let (first, rest) ← expression fuel room rest
      match rest with
      | .symbol ".." :: rest =>
        let (last, rest) ← expression fuel room rest
        let (body, rest) ← block fuel room ⟨false, true⟩ rest
        return (.forRange name first last false body.statements body.value, rest)
      | .symbol "..=" :: rest =>
        let (last, rest) ← expression fuel room rest
        let (body, rest) ← block fuel room ⟨false, true⟩ rest
        return (.forRange name first last true body.statements body.value, rest)
      | rest =>
        let (body, rest) ← block fuel room ⟨false, true⟩ rest
        return (.forItems name first body.statements body.value, rest)
    | .word "break" :: rest =>
      if place.inLoop then return (.leave, rest) else .error .unexpectedToken
    | .word "continue" :: rest =>
      if place.inLoop then return (.proceed, rest) else .error .unexpectedToken
    | .word "return" :: rest =>
      let (e, rest) ← optional fuel room rest
      return (.return e, rest)
    | .word "throw" :: rest =>
      let (e, rest) ← optional fuel room rest
      return (.throw e, rest)
    | _ =>
      let (target, rest) ← expression fuel room ts
      match rest with
      | .symbol s :: more =>
        match assignment? s with
        | some op =>
          if target.place?.isNone then .error .unexpectedToken
          else
            let (e, rest) ← expression fuel room more
            return (.assign target op e, rest)
        | none => return (.evaluate target, rest)
      | _ => return (.evaluate target, rest)
/-- An expression where there is one before the statement ends. -/
def optional : Nat → Nat → List Token → Except Failure (Option Expr × List Token)
  | 0, _, _ => .error .tooDeep
  | fuel + 1, room, ts =>
    match ts with
    | .symbol ";" :: _ => .ok (none, ts)
    | _ =>
      if atEnd ts then .ok (none, ts)
      else do
        let (e, rest) ← expression fuel room ts
        return (some e, rest)
end

/-- Whether two functions cannot be told apart by their name and number of parameters. -/
def collides (f g : Function) : Bool :=
  f.name == g.name && f.parameters.length == g.parameters.length

/-- Whether some functions can all be told apart. -/
def distinct : List Function → Bool
  | [] => true
  | f :: rest => !rest.any (collides f) && distinct rest

end Grammar

/-- The program of a script, given the limits on it. -/
def Program.read (limits : Limits) (source : String) : Except Failure Program := do
  let ts ← Token.read limits source
  let fuel := 16 * ts.length + 16
  let room := if limits.expressionDepth == 0 then fuel else limits.expressionDepth
  let (body, rest) ← Grammar.statements fuel room ⟨true, false⟩ ts
  if rest.isEmpty && Grammar.distinct body.functions then
    return ⟨body.functions, body.statements, body.value⟩
  else .error .unexpectedToken

end CommandChain.Script
