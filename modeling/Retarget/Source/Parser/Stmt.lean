/-
# Source.Parser.Stmt -- statements and declarations

The header of an `if`, `for` or `switch` is read at a negative level, so that a brace opens
the body. A simple statement in a header becomes a condition only if it is an expression.
-/
import Retarget.Source.Parser.Expr

namespace Retarget.Source.Parse

def header {α : Type} (p : Parse α) : Parse α := atLevel (fun _ => -1) p

def assignOpAt : Parse (Option AssignOp) := do
  match ← token with
  | .symbol s => return AssignOp.ofText? s
  | _ => return none

def listStart (nodes : List Node) : Nat := (nodes.head?.map Node.start).getD 0

def listStop (nodes : List Node) : Nat := (nodes.getLast?.map Node.stop).getD 0

/-! ## Simple statements -/

/-- Where a simple statement stands decides what else it may be. -/
inductive Place where
  | statement | clause | loopHeader
deriving DecidableEq

/-- The start of a loop over a range: its targets and the value ranged over. -/
structure RangeClause where
  targets : List Node
  range : Node

def assignment (g : Grammar) (targets : List Node) (op : AssignOp) : Parse Node := do
  let values ← exprList g
  return .assign (← freshMark (listStart targets) (listStop values)) op targets values

/-- What follows the single expression `x` that starts a statement. -/
def afterExpr (g : Grammar) (place : Place) (x : Node) : Parse Node := do
  match ← token with
  | .symbol ":" =>
    match x, place with
    | .name .., .statement =>
      let _ ← advance
      let s ← g .stmt
      return .labeled (← freshMark x.start s.stop) x s
    | _, _ => refuse
  | .symbol "++" =>
    let l ← advance
    return .step (← freshMark x.start l.stop) true x
  | .symbol "--" =>
    let l ← advance
    return .step (← freshMark x.start l.stop) false x
  | _ => return .exprStmt (← freshMark x.start x.stop) x

def simple (g : Grammar) (place : Place) : Parse (Node ⊕ RangeClause) := do
  let xs ← exprList g
  match ← assignOpAt with
  | some op =>
    let _ ← advance
    if place == .loopHeader && (op == .define || op == .set) && (← isAt (.word "range")) then
      let _ ← advance
      return .inr ⟨xs, ← g.expr⟩
    return .inl (← assignment g xs op)
  | none =>
    match xs with
    | [x] => return .inl (← afterExpr g place x)
    | _ => refuse

def simpleStmt (g : Grammar) (place : Place) : Parse Node := do
  match ← simple g place with
  | .inl s => return s
  | .inr _ => refuse

/-- A header statement used as a condition must be an expression. -/
def condition : Node → Parse Node
  | .exprStmt _ x => return x
  | _ => refuse

def conditionOpt : Option Node → Parse (Option Node)
  | none => return none
  | some s => return some (← condition s)

def atSemicolon : Parse Bool := do
  match ← token with
  | .semicolon _ => return true
  | _ => return false

/-! ## Declarations -/

def valueSpec (g : Grammar) (isConst : Bool) : Parse Node := do
  let first ← ident
  let more ← many do
    if ← atSymbol "," then
      let _ ← advance
      return some (← ident)
    return none
  let names := first :: more
  let values : Parse (List Node) := do
    if ← atSymbol "=" then
      let _ ← advance
      exprList g
    else return []
  let (t, vs) ← do
    if isConst then
      let t ← typeOpt g
      pure (t, ← values)
    else if ← atSymbol "=" then pure (none, ← values)
    else
      let t ← g .type
      pure (some t, ← values)
  endOfStatement
  let stop := if vs.isEmpty then (t.map Node.stop).getD (listStop names) else listStop vs
  return .valueSpec (← freshMark first.start stop) isConst names t vs

/-- Whether an expression can only be a type. -/
def isTypeLike : Node → Bool
  | .arrayType .. | .structType .. | .funcType .. | .interfaceType .. | .mapType ..
  | .chanType .. => true
  | .unary _ .tilde _ => true
  | .binary _ _ x y => isTypeLike x || isTypeLike y
  | .paren _ x => isTypeLike x
  | _ => false

/-- Split an expression that could start a list of type parameters into a name and a type. The
type must be one for certain, unless `force` says that a list has begun. -/
def splitName (force : Bool) : Node → Option (Node × Option Node)
  | x@(.name ..) => some (x, none)
  | .binary m .mul x@(.name ..) y =>
    if force || isTypeLike y then some (x, some (.deref { m with start := y.start } y)) else none
  | .binary m .bitOr x y =>
    match splitName (force || isTypeLike y) x with
    | some (name, some t) => some (name, some (.binary { m with start := t.start } .bitOr t y))
    | _ => none
  | .call _ x@(.name ..) [y] false =>
    if force || isTypeLike y then some (x, some (.paren y.mark y)) else none
  | _ => none

/-- The rest of a declaration of a generic type whose first type parameter has begun. -/
def genericType (g : Grammar) (openAt : Nat) (x : Node) (t : Option Node) :
    Parse (Node × Node) := do
  let first ← match t with
    | some t => pure ⟨some x, some (← unionFrom g t)⟩
    | none => parameterFrom g true x
  separator (.symbol "]")
  let params ← typeParametersFrom g openAt [first]
  if ← atSymbol "=" then let _ ← advance
  return (params, ← g .type)

def typeSpec (g : Grammar) : Parse Node := do
  let x ← ident
  let (params, t) ← do
    if ← atSymbol "[" then
      let openAt ← advance
      if ← atName then
        let y ← ident
        let y ← do
          if ← atSymbol "[" then pure y
          else nested do climbFrom g 1 (← primaryFrom g y)
        let comma ← atSymbol ","
        let closing ← atSymbol "]"
        match splitName comma y with
        | some (p, pt) =>
          if pt.isSome || !closing then
            let (params, t) ← genericType g openAt.start p pt
            pure (some params, t)
          else pure (none, ← arrayTypeFrom g openAt.start (some y))
        | none => pure (none, ← arrayTypeFrom g openAt.start (some y))
      else pure (none, ← arrayTypeFrom g openAt.start none)
    else
      if ← atSymbol "=" then let _ ← advance
      pure (none, ← g .type)
  endOfStatement
  return .typeSpec (← freshMark x.start t.stop) x params t

def declKind? : Token → Option DeclKind
  | .word "var" => some .variable
  | .word "const" => some .constant
  | .word "type" => some .type
  | _ => none

/-- A declaration after its keyword: one specification, or several in parentheses. -/
def specs {α : Type} (spec : Parse α) : Parse (List α × Option Nat) := do
  if ← atSymbol "(" then
    let _ ← advance
    let list ← many do
      if ← atSymbol ")" then return none
      return some (← spec)
    let close ← symbol ")"
    endOfStatement
    return (list, some close.stop)
  return ([← spec], none)

def declaration (g : Grammar) (kind : DeclKind) : Parse Node := do
  let keyword ← advance
  let (list, close) ← specs <| match kind with
    | .variable => valueSpec g false
    | .constant => valueSpec g true
    | .type => typeSpec g
  return .decl (← freshMark keyword.start (close.getD (listStop list))) kind list

/-! ## Control statements -/

def stmtList (g : Grammar) : Parse (List Node) := many do
  let t ← token
  if t == .word "case" || t == .word "default" || t == closeBrace || t == .finish then return none
  return some (← g .stmt)

def block (g : Grammar) : Parse Node := do
  let openAt ← expect openBrace
  let stmts ← stmtList g
  let close ← expect closeBrace
  return .block (← freshMark openAt.start close.stop) stmts

/-- The optional first statement and the condition of an `if`. -/
def ifHeader (g : Grammar) : Parse (Option Node × Node) := header do
  if ← isAt openBrace then refuse
  let first ← do
    if ← atSemicolon then pure none else pure (some (← simpleStmt g .clause))
  if ← isAt openBrace then
    match first with
    | some s => return (none, ← condition s)
    | none => refuse
  if !(← atSemicolon) then refuse
  let _ ← advance
  if ← isAt openBrace then refuse
  let cond ← condition (← simpleStmt g .clause)
  return (first, cond)

def ifStmt (g : Grammar) : Parse Node := do
  let keyword ← expect (.word "if")
  let (init, cond) ← ifHeader g
  let body ← g .block
  if ← isAt (.word "else") then
    let _ ← advance
    let orElse ← do
      if ← isAt (.word "if") then g .ifStmt
      else
        let b ← g .block
        endOfStatement
        pure b
    return .ifStmt (← freshMark keyword.start orElse.stop) init cond body (some orElse)
  endOfStatement
  return .ifStmt (← freshMark keyword.start body.stop) init cond body none

def caseClause (g : Grammar) : Parse (Option Node) := do
  let start ← position
  let values ← do
    if ← isAt (.word "case") then
      let _ ← advance
      pure (some (← exprList g))
    else if ← isAt (.word "default") then
      let _ ← advance
      pure (some [])
    else pure none
  match values with
  | none => return none
  | some values =>
    let colon ← symbol ":"
    let body ← stmtList g
    let stop := if body.isEmpty then colon.stop else listStop body
    return some (.caseClause (← freshMark start stop) values body)

/-- A switch on the type of a value is not part of the language. -/
def isTypeGuard : Node → Bool
  | .exprStmt _ (.typeAssert _ _ none) => true
  | .assign _ .define [_] [.typeAssert _ _ none] => true
  | _ => false

def switchStmt (g : Grammar) : Parse Node := do
  let keyword ← expect (.word "switch")
  let (init, tag) ← do
    if ← isAt openBrace then pure (none, none)
    else header do
      let first ← do
        if ← atSemicolon then pure none else pure (some (← simpleStmt g .clause))
      if ← atSemicolon then
        let _ ← advance
        if ← isAt openBrace then return (first, none)
        return (first, some (← simpleStmt g .clause))
      return (none, first)
  if tag.any isTypeGuard then refuse
  let openAt ← expect openBrace
  let clauses ← many (caseClause g)
  let close ← expect closeBrace
  endOfStatement
  let body := Node.block (← freshMark openAt.start close.stop) clauses
  return .switchStmt (← freshMark keyword.start close.stop) init (← conditionOpt tag) body

/-- The header of a loop: three optional statements, or a range. -/
def forHeader (g : Grammar) : Parse ((Option Node × Option Node × Option Node) ⊕ RangeClause) := do
  if ← isAt openBrace then return .inl (none, none, none)
  header do
    if ← isAt (.word "range") then
      let _ ← advance
      return .inr ⟨[], ← g.expr⟩
    let first ← do
      if ← atSemicolon then pure none
      else
        match ← simple g .loopHeader with
        | .inl s => pure (some s)
        | .inr clause => return .inr clause
    if !(← atSemicolon) then return .inl (none, first, none)
    let _ ← advance
    let cond ← do
      if ← atSemicolon then pure none else pure (some (← simpleStmt g .clause))
    if !(← atSemicolon) then refuse
    let _ ← advance
    let post ← do
      if ← isAt openBrace then pure none else pure (some (← simpleStmt g .clause))
    return .inl (first, cond, post)

def forStmt (g : Grammar) : Parse Node := do
  let keyword ← expect (.word "for")
  let head ← forHeader g
  let body ← g .block
  endOfStatement
  let m ← freshMark keyword.start body.stop
  match head with
  | .inl (init, cond, post) => return .forStmt m init (← conditionOpt cond) post body
  | .inr ⟨targets, range⟩ =>
    match targets with
    | [] => return .rangeStmt m none none range body
    | [key] => return .rangeStmt m (some key) none range body
    | [key, value] => return .rangeStmt m (some key) (some value) range body
    | _ => refuse

def branchStmt (kind : BranchKind) : Parse Node := do
  let keyword ← advance
  let label ← do
    let named ← atName
    if kind == .jump || (named && (kind == .exit || kind == .next)) then pure (some (← ident))
    else pure none
  endOfStatement
  return .branch (← freshMark keyword.start ((label.map Node.stop).getD keyword.stop)) kind label

def returnStmt (g : Grammar) : Parse Node := do
  let keyword ← advance
  let results ← do
    if (← atSemicolon) || (← isAt closeBrace) then pure [] else exprList g
  endOfStatement
  let stop := if results.isEmpty then keyword.stop else listStop results
  return .ret (← freshMark keyword.start stop) results

/-- Whether a statement may start with this token as an expression. -/
def startsExpr : Token → Bool
  | .name _ | .literal _ _ => true
  | .symbol s => ["(", "[", "+", "-", "*", "&", "^", "<-", "!"].contains s
  | .word w => ["func", "struct", "map", "chan", "interface"].contains w
  | _ => false

def isLabeled : Node → Bool
  | .labeled .. => true
  | _ => false

def stmt (g : Grammar) : Parse Node := do
  let t ← token
  match declKind? t with
  | some kind =>
    let d ← declaration g kind
    return .declStmt (← freshMark d.start d.stop) d
  | none =>
    if startsExpr t then
      let s ← simpleStmt g .statement
      if !isLabeled s then endOfStatement
      return s
    match t with
    | .word "return" => returnStmt g
    | .word "break" => branchStmt .exit
    | .word "continue" => branchStmt .next
    | .word "goto" => branchStmt .jump
    | .word "fallthrough" => branchStmt .fall
    | .word "if" => g .ifStmt
    | .word "switch" => switchStmt g
    | .word "for" => forStmt g
    | .semicolon implied =>
      let l ← advance
      return .empty (← freshMark l.start (if implied then l.start else l.stop))
    | .symbol "\x7b" =>
      let b ← g .block
      endOfStatement
      return b
    | .symbol "\x7d" =>
      let start ← position
      return .empty (← freshMark start start)
    | _ => refuse

end Retarget.Source.Parse
