/-
# Emission.Line -- the text of one node

A node is written by the best rule for its operation that has a template for the target;
where no rule, template or operand fits, its source is printed. Declarations and assignments
take the text of the node that feeds them. What has been said of each node is kept, and the
first word on a node stands.
-/
import Retarget.Kernel.CText
import Retarget.Operation.Lowering
import Retarget.Rule.Catalog

namespace Retarget

open Retarget.Source (Node NodeId)
open Retarget.Kernel (cType declare)
open Retarget.Text (contains trimEnd startsWith dropStart readDecimal)

/-- Where the text of a node came from. -/
inductive Resolution where
  | byRule (id : String)
  | byFallback
deriving Repr, DecidableEq, Inhabited

namespace Resolution

def state : Resolution → String
  | byRule _ => "rule"
  | byFallback => "fallback"

def ruleId : Resolution → String
  | byRule id => id
  | byFallback => ""

end Resolution

/-- What the emission of one kernel works with. -/
structure Emitter where
  unit : SourceUnit
  kernel : KernelFn
  graph : OperationGraph
  rules : Database
  target : Architecture
  /-- Whether include lines are written. -/
  headers : Bool := true
  /-- Whether the body is wrapped in a function. -/
  signature : Bool := true
  /-- The categories searched for an operation, in order. -/
  categories : List String := [Database.vectorCategory]

/-- What has been said so far. -/
structure EmitState where
  resolutions : List (OpId × Resolution) := []
  headers : List String := []
  log : List LogEntry := []
deriving Inhabited

abbrev Emit := StateM EmitState

namespace Emitter

variable (e : Emitter)

/-! ## Records -/

/-- Record how a node was resolved; the first record stands. -/
def resolve (id : OpId) (r : Resolution) : Emit Unit :=
  modify fun s =>
    if (s.resolutions.lookup id).isSome then s
    else { s with resolutions := s.resolutions ++ [(id, r)] }

/-- Resolve a node like the one that feeds it. -/
def inherit (id source : OpId) : Emit Unit := do
  match (← get).resolutions.lookup source with
  | some r => resolve id r
  | none => pure ()

def note (text : String) : Emit Unit :=
  modify fun s => { s with log := s.log ++ [.debug ("codegen: " ++ text)] }

/-! ## Source text -/

/-- The source of a node without what ends a statement. -/
def print (n : Node) : String := trimEnd [';', ' ', '\n'] (e.unit.print n)

def printOpt (n : Option Node) : String := (n.map e.print).getD ""

/-- The syntax a node of the graph stands for. -/
def syntaxOf (n : OpNode) : Option Node := n.stmt.bind e.unit.node?

def fallback (n : OpNode) : Emit String := do
  resolve n.id .byFallback
  return e.printOpt (e.syntaxOf n)

/-! ## Operands -/

/-- The position an operand edge names. -/
def argIndex? (edge : OpEdge) : Option Int :=
  if edge.kind == .data && startsWith edge.label "arg_" then
    (readDecimal (dropStart edge.label "arg_")).value?
  else none

def holeOf (i : Int) : String := "input_" ++ toString i

/-- The operands as the source spells them. -/
def sourceBindings (n : OpNode) : Bindings :=
  match e.syntaxOf n with
  | none => []
  | some x =>
    if !x.isExpr then []
    else match e.unit.scope.strip x with
      | .call _ _ args _ =>
        args.zipIdx.foldl (fun b (arg, i) =>
          b.put (inputName i) (e.target.replaceCasts (e.print arg))) []
      | .binary _ _ x y =>
        [(inputName 0, e.print x), (inputName 1, e.print y)]
      | _ => []

/-- A comparison, or a declaration that holds the result of one. -/
def isComparison (n : OpNode) : Bool :=
  contains n.operation "cmp" ||
    (n.isDefine && (e.graph.input? n.id Lowering.initLabel).any fun source =>
      contains source.operation "cmp")

/-- On a target with predicates, a comparison that is combined bit by bit becomes a mask. -/
def asMask (operation : String) (source : OpNode) (value : String) : String :=
  if e.target.name == Architecture.sve.name && contains operation "and" && e.isComparison source
  then "svsel_s8(" ++ value ++ ", svdup_s8(0xFF), svdup_s8(0x00))"
  else value

/-- The best rule for an operation. -/
def rule? (operation : String) : Option Rule := e.rules.match? operation e.categories

/-- The text of a node. Operands that are statements are named by their variable, all others
are written in place; `depth` bounds the nesting of operands. -/
def apply : Nat → OpNode → Emit String
  | 0, n => e.fallback n
  | depth + 1, n =>
    match e.rule? n.operation with
    | none => e.fallback n
    | some rule =>
      match rule.template? e.target.name with
      | none => do
        note ("rule " ++ rule.id ++ " has no " ++ e.target.name ++ " template")
        e.fallback n
      | some template => do
        let bound ← (e.graph.edgesTo n.id).foldlM (fun (b : Bindings) edge =>
          match argIndex? edge, e.graph.node? edge.source with
          | some i, some source => do
            let value ← if source.isStatement then pure source.variableName
              else apply depth source
            return if value == "" then b
              else b.put (holeOf i) (e.asMask n.operation source value)
          | _, _ => pure b) (e.sourceBindings n)
        let bound := if e.target.isPredicated then bound.put "predicate" e.target.predicate
          else bound
        match template.render bound with
        | (_, some err) => do
          note ("rule " ++ rule.id ++ " for node " ++ toString n.id ++ ": " ++ err.message)
          e.fallback n
        | (code, none) => do
          resolve n.id (.byRule rule.id)
          modify fun s => { s with headers := s.headers ++ template.headers }
          return code

/-- The text of a node of the graph; operands never nest deeper than there are nodes. -/
def applyNode (n : OpNode) : Emit String := e.apply (e.graph.slots.length + 1) n

/-! ## Declarations -/

/-- The declared type as written, and whether the variable is constant. -/
def spelledType (n : OpNode) : String × Bool :=
  match e.syntaxOf n with
  | some (.declStmt _ (.decl _ _ (.valueSpec _ isConst _ type _ :: _))) =>
    match type with
    | some t => (cType t, isConst)
    | none => (CPrinter.inferred (e.kernel.declaredType n.variableName), isConst)
  | some (.assign _ _ _ (value :: _)) =>
    (CPrinter.inferred (e.unit.typeOf e.kernel value), false)
  | _ => ("auto", false)

/-- The value a declaration is written with. -/
def initializer? (n : OpNode) : Option Node :=
  match e.syntaxOf n with
  | some (.declStmt _ (.decl _ _ (.valueSpec _ _ _ _ [value] :: _))) => some value
  | some (.assign _ _ _ [value]) => some value
  | _ => none

/-- A type read off the generated value. -/
def inferType (spelled value : String) : String :=
  let asSpelled :=
    if e.target.isSourceVectorType spelled && e.target.byteVector != "" then e.target.byteVector
    else spelled
  if e.target.name == Architecture.sve.name then
    if contains value "svbool" || contains value "svptrue" || contains value "svcmp" then
      "svbool_t"
    else e.target.byteVector
  else if e.target.name == Architecture.neon.name && contains value "vaddq" then
    e.target.floatVector
  else asSpelled

/-- The type of the value that the rule for a node computes. -/
def returnType (n : OpNode) : String :=
  (((e.rule? n.operation).bind (·.template? e.target.name)).map (·.returnType)).getD ""

def declaration (type name : String) (isConst : Bool) (value : String) : String :=
  let decl := declare type name
  let decl := if isConst && !contains type "const" then "const " ++ decl else decl
  if value == "" then decl else decl ++ " = " ++ value

/-- A declaration: its type is that of the rule, else read off the value, else as spelled. -/
def define (n : OpNode) : Emit String := do
  let (spelled, isConst) := e.spelledType n
  match e.graph.input? n.id Lowering.initLabel with
  | some source => do
    let value ← e.applyNode source
    inherit n.id source.id
    let hinted := e.returnType source
    let type :=
      if hinted != "" then hinted
      else if spelled == "auto" || e.target.isSourceVectorType spelled then
        e.inferType spelled value
      else spelled
    return declaration type n.variableName isConst value
  | none => do
    resolve n.id .byFallback
    return declaration spelled n.variableName isConst (e.printOpt (e.initializer? n))

/-! ## Headers of control statements -/

/-- Replace the first occurrence of a text. -/
def replaceFirst (old new : List Char) : List Char → List Char
  | [] => []
  | c :: cs =>
    if old.isPrefixOf (c :: cs) then new ++ (c :: cs).drop old.length
    else c :: replaceFirst old new cs

/-- The header of a counted loop; a marked one advances by the number of lanes. -/
def loopHeader (n : OpNode) (init cond post : Option Node) : String :=
  let header := "for (" ++ e.printOpt init ++ "; " ++ e.printOpt cond ++ "; " ++
    e.printOpt post ++ ") \x7b"
  if n.isVectorized && e.target.autoVectorize then
    "// Vector Loop (" ++ e.target.name ++ ")\n" ++
      String.ofList (replaceFirst ['+', '+'] (" += " ++ e.target.lanes32).toList header.toList)
  else header

def firstLine (s : String) : String := String.ofList (s.toList.takeWhile (· != '\n'))

/-- The line that opens a block. -/
def control (n : OpNode) : Emit String :=
  match e.syntaxOf n with
  | some (.ifStmt _ _ cond _ _) => pure ("if (" ++ e.print cond ++ ") \x7b")
  | some (.forStmt _ none (some cond) none _) => pure ("while (" ++ e.print cond ++ ") \x7b")
  | some (.forStmt _ init cond post _) => pure (e.loopHeader n init cond post)
  | some (.rangeStmt m key value x body) =>
    pure (firstLine (e.unit.print (.rangeStmt m key value x body)))
  | _ => if n.name == Lowering.elseName then pure "else \x7b" else e.fallback n

/-! ## Statements -/

/-- The line of a statement. -/
def statement (n : OpNode) : Emit String :=
  if n.isDefine then e.define n
  else if n.kind == .control then e.control n
  else if n.operation == Lowering.assignOperation then
    match e.graph.input? n.id Lowering.initLabel with
    | some source => do
      let value ← e.applyNode source
      inherit n.id source.id
      return n.variableName ++ " = " ++ value
    | none => e.fallback n
  else e.applyNode n

end Emitter

end Retarget
