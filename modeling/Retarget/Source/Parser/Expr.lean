/-
# Source.Parser.Expr -- expressions

Binary operators are read by climbing their strengths: an operand is extended as long as the
next operator binds at least as tightly as the strength asked for. A brace after an operand
opens a composite value only where a control header does not claim it.
-/
import Retarget.Source.Parser.Type

namespace Retarget.Source.Parse

/-- The elements of a composite value between braces; `type` is the value's type, if written. -/
def compositeFrom (g : Grammar) (type : Option Node) : Parse Node := do
  let openAt ← expect openBrace
  let value : Parse Node := do
    if ← isAt openBrace then g .elements else g.expr
  let elems ← nested <| commaList closeBrace do
    let x ← value
    if ← atSymbol ":" then
      let _ ← advance
      let y ← value
      return .keyValue (← freshMark x.start y.stop) x y
    return x
  let close ← expect closeBrace
  let start := (type.map Node.start).getD openAt.start
  return .composite (← freshMark start close.stop) type elems

def operand (g : Grammar) : Parse Node := do
  match ← token with
  | .name _ => ident
  | .literal kind text =>
    let l ← advance
    return .literal (← freshMark l.start l.stop) kind text
  | .symbol "(" =>
    let openAt ← advance
    let x ← nested g.expr
    let close ← symbol ")"
    return .paren (← freshMark openAt.start close.stop) x
  | .word "func" =>
    let t ← funcType g
    if ← isAt openBrace then
      let body ← nested (g .block)
      return .funcLit (← freshMark t.start body.stop) t body
    return t
  | t => if startsType t then g .type else refuse

/-- What follows an opened bracket: an index, a slice or type arguments. -/
def bracketFrom (g : Grammar) (x : Node) : Parse Node := do
  let _ ← symbol "["
  if ← atSymbol "]" then refuse
  let part : Parse (Option Node) := do
    if (← atSymbol ":") || (← atSymbol "]") then return none else return some (← g.expr)
  let before := (← get).level
  modify fun s => { s with level := before + 1 }
  let finish : Parse Nat := do
    modify fun s => { s with level := before }
    return (← symbol "]").stop
  let first ← part
  if ← atSymbol ":" then
    let _ ← advance
    let high ← part
    if ← atSymbol ":" then
      let _ ← advance
      let max ← part
      let stop ← finish
      if high.isNone || max.isNone then refuse
      return .slice (← freshMark x.start stop) x first high max
    let stop ← finish
    return .slice (← freshMark x.start stop) x first high none
  let more ← many do
    if ← atSymbol "," then
      let _ ← advance
      if ← atSymbol "]" then return some none
      return some (some (← g .type))
    return none
  let stop ← finish
  applyIndex x stop (first.toList ++ more.filterMap id)

def callFrom (g : Grammar) (x : Node) : Parse Node := do
  let _ ← symbol "("
  let args ← nested <| many do
    if ← atSymbol ")" then return none
    let a ← g.expr
    let dots ← atSymbol "..."
    if dots then let _ ← advance
    if ← atSymbol "," then let _ ← advance
    else if !(← atSymbol ")") then refuse
    if dots && !(← atSymbol ")") then refuse
    return some (a, dots)
  let close ← symbol ")"
  return .call (← freshMark x.start close.stop) x (args.map (·.1)) (args.any (·.2))

/-- Whether a brace after the operand `x` may open a composite value at this level. -/
def opensComposite (level : Int) (x : Node) : Bool :=
  match x with
  | .name .. | .select .. | .index .. | .instantiate .. => 0 ≤ level
  | .arrayType .. | .structType .. | .mapType .. => true
  | _ => false

/-- One extension of the operand `x`: selector, assertion, bracket, call or composite value. -/
def extend (g : Grammar) (x : Node) : Parse (Option Node) := do
  match ← token with
  | .symbol "." =>
    let _ ← advance
    if ← atName then
      let field ← ident
      return some (.select (← freshMark x.start field.stop) x field)
    let _ ← symbol "("
    let t ← do
      if ← isAt (.word "type") then
        let _ ← advance
        pure none
      else pure (some (← g .type))
    let close ← symbol ")"
    return some (.typeAssert (← freshMark x.start close.stop) x t)
  | .symbol "[" => return some (← bracketFrom g x)
  | .symbol "(" => return some (← callFrom g x)
  | .symbol "\x7b" =>
    if opensComposite (← get).level x.unparen then
      match x with
      | .paren .. => refuse
      | _ => return some (← compositeFrom g (some x))
    else return none
  | _ => return none

def extendFrom (g : Grammar) (x : Node) : Nat → Parse Node
  | 0 => refuse
  | limit + 1 => do
    match ← extend g x with
    | none => return x
    | some y => extendFrom g y limit

def primaryFrom (g : Grammar) (x : Node) : Parse Node := do
  extendFrom g x ((← get).rest.length + 1)

/-- An arrow before a channel type makes the type receive only, through all the channel types
it is built of, the last of which must not be a sending one. -/
def receiveChan (start : Nat) : Node → Option Node
  | .chanType m .both elem => some (.chanType { m with start := start } .receive elem)
  | .chanType m .send elem =>
    (receiveChan m.start elem).map fun e => .chanType { m with start := start } .receive e
  | _ => none

def prefixed (g : Grammar) (op : UnaryOp) : Parse Node := do
  let l ← advance
  let x ← g .unary
  return .unary (← freshMark l.start x.stop) op x

def unary (g : Grammar) : Parse Node := do
  match ← token with
  | .symbol "+" => prefixed g .plus
  | .symbol "-" => prefixed g .minus
  | .symbol "!" => prefixed g .not
  | .symbol "^" => prefixed g .complement
  | .symbol "&" => prefixed g .address
  | .symbol "~" => prefixed g .tilde
  | .symbol "<-" =>
    let arrow ← advance
    let x ← g .unary
    match x with
    | .chanType .. =>
      match receiveChan arrow.start x with
      | some t => return t
      | none => refuse
    | _ => return .unary (← freshMark arrow.start x.stop) .receive x
  | .symbol "*" =>
    let star ← advance
    let x ← g .unary
    return .deref (← freshMark star.start x.stop) x
  | _ => primaryFrom g (← operand g)

def operatorAt : Parse (Option BinaryOp) := do
  match ← token with
  | .symbol s => return BinaryOp.ofText? s
  | _ => return none

/-- Extend `x` by operators of at least the given strength. -/
def climb (g : Grammar) (strength : Nat) (x : Node) : Nat → Parse Node
  | 0 => refuse
  | limit + 1 => do
    match ← operatorAt with
    | none => return x
    | some op =>
      if op.precedence < strength then return x
      let _ ← advance
      let y ← g (.binary (op.precedence + 1))
      climb g strength (.binary (← freshMark x.start y.stop) op x y) limit

def climbFrom (g : Grammar) (strength : Nat) (x : Node) : Parse Node := do
  climb g strength x ((← get).rest.length + 1)

def binary (g : Grammar) (strength : Nat) : Parse Node := do
  climbFrom g strength (← g .unary)

end Retarget.Source.Parse
