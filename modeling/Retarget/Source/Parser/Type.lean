/-
# Source.Parser.Type -- type expressions, parameter and field lists

A parameter list either names all its parameters or none. Names that share a type form one
field, and a lone name in an unnamed list is a type. Dots may stand only before the type of the
last parameter of a function.
-/
import Retarget.Source.Parser.Basic

namespace Retarget.Source.Parse

def startsType : Token → Bool
  | .name _ => true
  | .symbol s => ["[", "*", "(", "<-"].contains s
  | .word w => ["struct", "func", "interface", "map", "chan"].contains w
  | _ => false

def typeOpt (g : Grammar) : Parse (Option Node) := do
  if startsType (← token) then return some (← g .type) else return none

/-- An index with one argument or an instantiation with several. -/
def applyIndex (x : Node) (stop : Nat) : List Node → Parse Node
  | [] => refuse
  | [i] => return .index (← freshMark x.start stop) x i
  | args => return .instantiate (← freshMark x.start stop) x args

def qualifiedFrom (x : Node) : Parse Node := do
  if ← atSymbol "." then
    let _ ← advance
    let field ← ident
    return .select (← freshMark x.start field.stop) x field
  return x

def typeArguments (g : Grammar) (x : Node) : Parse Node := do
  let _ ← symbol "["
  let args ← nested (commaList (.symbol "]") (g .type))
  let close ← symbol "]"
  applyIndex x close.stop args

/-- A possibly qualified, possibly instantiated type name that begins with `x`. -/
def typeNameFrom (g : Grammar) (x : Node) : Parse Node := do
  let x ← qualifiedFrom x
  if ← atSymbol "[" then typeArguments g x else return x

/-- The rest of an array type whose bracket has been opened at `start`. -/
def arrayTypeFrom (g : Grammar) (start : Nat) (length : Option Node) : Parse Node := do
  let length ← match length with
    | some n => pure (some n)
    | none => nested do
      if ← atSymbol "..." then
        let dots ← advance
        return some (.variadic (← freshMark dots.start dots.stop) none)
      if ← atSymbol "]" then return none
      return some (← g.expr)
  let _ ← symbol "]"
  let elem ← g .type
  return .arrayType (← freshMark start elem.stop) length elem

/-! ## Parameters -/

/-- A parameter as written: a name, a type, or both. -/
structure Written where
  name : Option Node
  type : Option Node
deriving Inhabited

/-- After a name, either an array type or type arguments that make the name a type. -/
def bracketAfterName (g : Grammar) (x : Node) : Parse Written := do
  let openAt ← symbol "["
  let (args, trailing) ← nested do
    if ← atSymbol "]" then return ([], false)
    let first ← g.expr
    let more ← many do
      if ← atSymbol "," then
        let _ ← advance
        if ← atSymbol "]" then return some none
        return some (some (← g.expr))
      return none
    return (first :: more.filterMap id, more.any Option.isNone)
  let close ← symbol "]"
  match args with
  | [] =>
    let elem ← g .type
    return ⟨some x, some (.arrayType (← freshMark openAt.start elem.stop) none elem)⟩
  | [length] =>
    match ← typeOpt g with
    | some elem =>
      if trailing then refuse
      return ⟨some x, some (.arrayType (← freshMark openAt.start elem.stop) (some length) elem)⟩
    | none => return ⟨none, some (← applyIndex x close.stop args)⟩
  | _ => return ⟨none, some (← applyIndex x close.stop args)⟩

def dotsType (g : Grammar) : Parse Node := do
  let dots ← symbol "..."
  let elem ← g .type
  return .variadic (← freshMark dots.start elem.stop) (some elem)

/-- One term of a type set. -/
def typeTerm (g : Grammar) : Parse Node := do
  if ← atSymbol "~" then
    let tilde ← advance
    let x ← g .type
    return .unary (← freshMark tilde.start x.stop) .tilde x
  g .type

/-- The rest of a union of types that begins with `x`. -/
def unionFrom (g : Grammar) (x : Node) : Parse Node := do
  let terms ← many do
    if ← atSymbol "|" then
      let _ ← advance
      return some (← typeTerm g)
    return none
  terms.foldlM (fun x y => return .binary (← freshMark x.start y.stop) .bitOr x y) x

/-- Extend the type of a parameter to a union, where sets of types are allowed. -/
def widened (g : Grammar) (sets : Bool) (w : Written) : Parse Written := do
  match w.type with
  | some t => if sets then return { w with type := some (← unionFrom g t) } else return w
  | none => return w

/-- The rest of a parameter that begins with the name `x`. -/
def parameterFrom (g : Grammar) (sets : Bool) (x : Node) : Parse Written := do
  match ← token with
  | .symbol "[" => widened g sets (← bracketAfterName g x)
  | .symbol "..." => return ⟨some x, some (← dotsType g)⟩
  | .symbol "." => widened g sets ⟨none, some (← typeNameFrom g x)⟩
  | .symbol "~" =>
    if sets then return ⟨some x, some (← unionFrom g (← typeTerm g))⟩ else return ⟨some x, none⟩
  | .symbol "|" =>
    if sets then return ⟨none, some (← unionFrom g x)⟩ else return ⟨some x, none⟩
  | t => if startsType t then widened g sets ⟨some x, some (← g .type)⟩ else return ⟨some x, none⟩

/-- One parameter; `sets` allows unions of types, as in a list of type parameters. -/
def parameter (g : Grammar) (sets : Bool) : Parse Written := do
  match ← token with
  | .name _ => parameterFrom g sets (← ident)
  | .symbol "..." => return ⟨none, some (← dotsType g)⟩
  | .symbol "~" => if sets then return ⟨none, some (← unionFrom g (← typeTerm g))⟩ else refuse
  | t => if startsType t then widened g sets ⟨none, some (← g .type)⟩ else refuse

/-- Give every parameter the next type written at or after it. -/
def spreadTypes : List Written → Option (List (Node × Node))
  | [] => some []
  | w :: ws => do
    let rest ← spreadTypes ws
    let x ← w.name
    let t ← match w.type with
      | some t => some t
      | none => rest.head?.map (·.2)
    return (x, t) :: rest

/-- Group neighbours that share a type. -/
def groupNames : List (Node × Node) → List (List Node × Node)
  | [] => []
  | (x, t) :: rest =>
    match groupNames rest with
    | [] => [([x], t)]
    | (xs, u) :: groups =>
      if t.id == u.id then (x :: xs, u) :: groups else ([x], t) :: (xs, u) :: groups

/-- What a list of parameters is for. -/
inductive Role where
  | inputs | results | types
deriving DecidableEq

/-- Whether dots stand at most before the last type, and only if `dots` allows them there. -/
def dotsInPlace (dots : Bool) : List Node → Bool
  | [] => true
  | [t] => dots || !t.isVariadic
  | t :: ts => !t.isVariadic && dotsInPlace dots ts

def parameterFields (role : Role) (written : List Written) : Parse (List Node) := do
  if written.any fun w => w.name.isSome && w.type.isSome then
    match spreadTypes written with
    | none => refuse
    | some pairs =>
      if !dotsInPlace (role == .inputs) (pairs.map (·.2)) then refuse
      (groupNames pairs).mapM fun (names, t) => do
        let first := (names.head?.map Node.start).getD t.start
        return .field (← freshMark first t.stop) names t none
  else
    let types := written.filterMap fun w => w.type.or w.name
    if role == .types || !dotsInPlace (role == .inputs) types then refuse
    types.mapM fun t => return .field (← freshMark t.start t.stop) [] t none

def parameterList (g : Grammar) (role : Role) : Parse Node := do
  let openAt ← symbol "("
  let written ← commaList (.symbol ")") (parameter g false)
  let fields ← parameterFields role written
  let close ← symbol ")"
  return .fieldList (← freshMark openAt.start close.stop) fields

def parameters (g : Grammar) : Parse Node := parameterList g .inputs

/-- The rest of a list of type parameters that was opened at `openAt` and begins with
`written`. It must not be empty. -/
def typeParametersFrom (g : Grammar) (openAt : Nat) (written : List Written) : Parse Node := do
  let written := written ++ (← commaList (.symbol "]") (parameter g true))
  let fields ← parameterFields .types written
  let close ← symbol "]"
  return .fieldList (← freshMark openAt close.stop) fields

/-- An optional list of type parameters. -/
def typeParameters (g : Grammar) : Parse (Option Node) := do
  if ← atSymbol "[" then return some (← typeParametersFrom g (← advance).start [])
  return none

def results (g : Grammar) : Parse (Option Node) := do
  if ← atSymbol "(" then return some (← parameterList g .results)
  match ← typeOpt g with
  | none => return none
  | some t =>
    let field := Node.field (← freshMark t.start t.stop) [] t none
    return some (.fieldList (← freshMark t.start t.stop) [field])

def signatureStop (params : Node) (results : Option Node) : Nat :=
  (results.map Node.stop).getD params.stop

def funcType (g : Grammar) : Parse Node := do
  let start ← expect (.word "func")
  let params ← parameters g
  let results ← results g
  return .funcType (← freshMark start.start (signatureStop params results)) none params results

/-! ## Structures and interfaces -/

def structField (g : Grammar) : Parse Node := do
  let (names, type) ← do
    if ← atSymbol "*" then
      let star ← advance
      let x ← typeNameFrom g (← ident)
      pure (([] : List Node), Node.deref (← freshMark star.start x.stop) x)
    else
      let x ← ident
      match ← token with
      | .symbol "." => pure ([], ← typeNameFrom g x)
      | .literal .string _ | .semicolon _ | .symbol "\x7d" => pure ([], x)
      | .symbol "[" =>
        let w ← bracketAfterName g x
        match w.type with
        | some t => pure (w.name.toList, t)
        | none => refuse
      | _ =>
        let more ← many do
          if ← atSymbol "," then
            let _ ← advance
            return some (← ident)
          return none
        pure (x :: more, ← g .type)
  let tag ← match ← token with
    | .literal .string text =>
      let l ← advance
      pure (some (Node.literal (← freshMark l.start l.stop) .string text))
    | _ => pure none
  endOfStatement
  let first := (names.head?.map Node.start).getD type.start
  return .field (← freshMark first ((tag.map Node.stop).getD type.stop)) names type tag

def structType (g : Grammar) : Parse Node := do
  let start ← expect (.word "struct")
  let openAt ← expect openBrace
  let fields ← many do
    if (← atName) || (← atSymbol "*") then return some (← structField g) else return none
  let close ← expect closeBrace
  return .structType (← freshMark start.start close.stop)
    (.fieldList (← freshMark openAt.start close.stop) fields)

/-- A type embedded by name with arguments, the first of which may be any expression. A name
that is followed by something else there would be a type parameter, and methods have none. -/
def embeddedInstance (g : Grammar) (x : Node) : Parse Node := do
  let _ ← symbol "["
  let first ← nested g.expr
  separator (.symbol "]")
  let more ← nested (commaList (.symbol "]") (g .type))
  let close ← symbol "]"
  applyIndex x close.stop (first :: more)

def interfaceElement (g : Grammar) : Parse (Option Node) := do
  let embedded (t : Node) : Parse (Option Node) := do
    let t ← unionFrom g t
    endOfStatement
    return some (.field (← freshMark t.start t.stop) [] t none)
  if ← atName then
    let x ← ident
    if ← atSymbol "(" then
      let params ← parameters g
      let results ← results g
      let stop := signatureStop params results
      let t := Node.funcType (← freshMark params.start stop) none params results
      endOfStatement
      return some (.field (← freshMark x.start stop) [x] t none)
    if ← atSymbol "[" then embedded (← embeddedInstance g x)
    else embedded (← typeNameFrom g x)
  else if (← atSymbol "~") || startsType (← token) then embedded (← typeTerm g)
  else return none

def interfaceType (g : Grammar) : Parse Node := do
  let start ← expect (.word "interface")
  let openAt ← expect openBrace
  let elements ← many (interfaceElement g)
  let close ← expect closeBrace
  return .interfaceType (← freshMark start.start close.stop)
    (.fieldList (← freshMark openAt.start close.stop) elements)

/-! ## All types -/

def chanType (g : Grammar) : Parse Node := do
  let start ← position
  let direction ← do
    if ← isAt (.word "chan") then
      let _ ← advance
      if ← atSymbol "<-" then
        let _ ← advance
        pure Direction.send
      else pure Direction.both
    else
      let _ ← symbol "<-"
      let _ ← expect (.word "chan")
      pure Direction.receive
  let elem ← g .type
  return .chanType (← freshMark start elem.stop) direction elem

def mapType (g : Grammar) : Parse Node := do
  let start ← expect (.word "map")
  let _ ← symbol "["
  let key ← g .type
  let _ ← symbol "]"
  let value ← g .type
  return .mapType (← freshMark start.start value.stop) key value

def type (g : Grammar) : Parse Node := do
  match ← token with
  | .name _ => typeNameFrom g (← ident)
  | .symbol "[" => arrayTypeFrom g (← advance).start none
  | .symbol "*" =>
    let star ← advance
    let x ← g .type
    return .deref (← freshMark star.start x.stop) x
  | .symbol "(" =>
    let openAt ← advance
    let x ← g .type
    let close ← symbol ")"
    return .paren (← freshMark openAt.start close.stop) x
  | .word "struct" => structType g
  | .word "func" => funcType g
  | .word "interface" => interfaceType g
  | .word "map" => mapType g
  | .word "chan" | .symbol "<-" => chanType g
  | _ => refuse

end Retarget.Source.Parse
