/-
# Operation.Lowering -- the operation graph of a kernel

Statements become nodes in source order, headers of control statements open a block and a
closing node ends it. Vector calls and floating-point operators below a statement become nodes
of their own, in pre-order. Then data edges are drawn: from an initialiser to the declaration
it feeds, from operands to calls and operators, and along the flow dependences between the
statements that have a node.

`lower` gives the nodes as a plain list, whose positions are their numbers; `wiring` gives the
edges into one node.
-/
import Retarget.Architecture
import Retarget.Operation.Order
import Retarget.PropertyGraph.Build
import Retarget.PropertyGraph.Query

namespace Retarget

open Retarget.Source (Node NodeId)
open Retarget.Text (join)

namespace Lowering

/-! ## Names -/

def blockEndName : String := "\x7d"
def vectorName : String := "SIMD_Op"
def scalarName : String := "ScalarOp"
def declName : String := "DeclStmt"
def elseName : String := "ElseStmt"

/-- The operation name of a node that stores a value which has a node of its own. -/
def assignOperation : String := "assign"

/-- The label of the edge from an initialiser to its declaration. -/
def initLabel : String := "init"

/-! ## Nodes -/

/-- A node to be, the syntax it stands for, and whether it lies in a counted loop. -/
structure Draft where
  node : OpNode
  origin : Option Node := none
  /-- Further syntax that means the same node. -/
  covers : List NodeId := []
  counted : Bool
deriving Inhabited

variable (u : SourceUnit) (k : KernelFn) (counted : Bool)

def draft (kind : OpKind) (name : String) (isStatement : Bool) (origin : Option Node)
    (props : List (PropKey × String)) (covers : List NodeId) : Draft where
  node :=
    { kind := kind, name := name, isStatement := isStatement, stmt := origin.map (·.id)
      props := props.map fun (key, value) => (key.text, value) }
  origin := origin
  covers := covers
  counted := counted

def blockEnd : Draft := draft counted .blockEnd blockEndName true none [] []

def header (origin : Option Node) (className : String) : Draft :=
  draft counted .control className true origin [(.className, className)] []

/-- An operand node for a vector call or a floating-point operator. -/
def operandDraft? (n : Node) : Option Draft :=
  match n with
  | .call _ callee args _ =>
    if !u.scope.converts callee args &&
        Text.contains (Kernel.nameOfCallee callee) Kernel.vectorMark then
      some (draft counted .vectorIntrinsic vectorName false (some n)
        [(.operation, Kernel.calleeName n), (.className, n.className)] [])
    else none
  | .binary _ op _ _ =>
    if u.isFloat k n then
      some (draft counted .statement scalarName false (some n)
        [(.operation, op.text), (.className, n.className)] [])
    else none
  | _ => none

/-- The operand nodes below a piece of syntax, in pre-order; function literals are opaque. -/
def operands (n : Node) : List Draft := n.outsideLiterals.filterMap (operandDraft? u k counted)

def optOperands (n : Option Node) : List Draft := n.toList.flatMap (operands u k counted)

def genericDraft (n : Node) : Draft :=
  draft counted .statement n.className true (some n) [(.className, n.className)] []

def generic (n : Node) : List Draft := genericDraft counted n :: operands u k counted n

/-- A declaration of one variable. -/
def define (origin : Node) (var : String) (init : Option Node) (covers : List NodeId) :
    List Draft :=
  let props :=
    [(PropKey.operation, OpNode.defineOperation), (.declared, var), (.className, origin.className)]
  let vector := init.any u.scope.isVectorCall
  draft counted (if vector then .vectorIntrinsic else .statement)
    (if vector then vectorName else declName) true (some origin) props covers ::
    optOperands u k counted init

/-- The specification of a declaration of exactly one variable or constant. -/
def singleSpec? : Node → Option (NodeId × String × Option Node)
  | .decl _ .type _ => none
  | .decl _ _ [.valueSpec m _ [name] _ values] =>
    if 1 < values.length then none else some (m.id, name.name?.getD "", values.head?)
  | _ => none

/-- Whether an expression becomes a node of its own. -/
def producesNode (n : Node) : Bool :=
  match u.scope.strip n with
  | .call m callee args spread => u.scope.isVectorCall (.call m callee args spread)
  | .binary m op x y => u.isFloat k (.binary m op x y)
  | _ => false

def assign (n : Node) : List Draft :=
  match n with
  | .assign _ .define [.name _ var] [value] => define u k counted n var (some value) []
  | .assign _ .set [.name _ var] [value] =>
    if producesNode u k value then
      draft counted .statement n.className true (some n)
        [(.className, n.className), (.operation, assignOperation), (.declared, var)] [] ::
        operands u k counted value
    else generic u k counted n
  | _ => generic u k counted n

/-- A statement that is one call is represented by the call. -/
def exprStmt (n x : Node) : List Draft :=
  match u.scope.strip x with
  | .call m callee args spread =>
    let call := Node.call m callee args spread
    let node :=
      if u.scope.isVectorCall call then
        draft counted .vectorIntrinsic vectorName true (some call)
          [(.operation, Kernel.calleeName call), (.className, call.className)] [n.id, x.id]
      else
        draft counted .statement call.className true (some call)
          [(.className, call.className)] [n.id, x.id]
    node :: args.flatMap (operands u k counted)
  | _ => generic u k counted n

def declStmt (n decl : Node) : List Draft :=
  match singleSpec? decl with
  | some (spec, var, init) => define u k counted n var init [spec]
  | none => generic u k counted n

mutual

/-- The nodes of a statement in the order in which they are numbered. -/
def lower (counted : Bool) (n : Node) : List Draft :=
  match n with
  | .empty _ => []
  | .block _ stmts => lowerAll counted stmts ++ [blockEnd counted]
  | .labeled _ _ stmt => lower counted stmt
  | .ifStmt _ init cond body orElse =>
    lowerOpt counted init ++ header counted (some n) n.className :: operands u k counted cond ++
      lower counted body ++ lowerElse counted orElse
  | .forStmt _ init cond _ body =>
    header counted (some n) n.className :: optOperands u k counted init ++
      optOperands u k counted cond ++ lower (counted || n.className == "ForStmt") body
  | .rangeStmt _ _ _ x body =>
    header counted (some n) n.className :: operands u k counted x ++ lower counted body
  | .declStmt _ decl => declStmt u k counted n decl
  | .assign .. => assign u k counted n
  | .exprStmt _ x => exprStmt u k counted n x
  | _ => generic u k counted n

def lowerOpt (counted : Bool) : Option Node → List Draft
  | none => []
  | some n => lower counted n

/-- A chained condition nests in a block of its own. -/
def lowerElse (counted : Bool) : Option Node → List Draft
  | none => []
  | some n =>
    header counted none elseName :: lower counted n ++
      match n with
      | .ifStmt .. => [blockEnd counted]
      | _ => []

def lowerAll (counted : Bool) : List Node → List Draft
  | [] => []
  | n :: ns => lower counted n ++ lowerAll counted ns

end

/-- The unconnected graph of a list of nodes. -/
def graphOf (name : String) (drafts : List Draft) : OperationGraph :=
  drafts.foldl (fun g d => (g.addNode d.node).1) (OperationGraph.new name)

/-! ## Edges -/

/-- The number of the node that stands for a piece of syntax; the later of two wins. -/
def nodeTable (drafts : List Draft) : List (NodeId × OpId) :=
  (drafts.zipIdx.flatMap fun (d, i) =>
    (d.origin.toList.map (·.id) ++ d.covers).map fun s => (s, (i : OpId))).reverse

/-- The last declaration of a variable before `id`, else the first after it. -/
def nearestDefine? (g : OperationGraph) (var : String) (id : OpId) : Option OpId :=
  let defines := ((g.definitionsOf var).filter (·.isDefine)).map (·.id)
  match (defines.filter (· < id)).getLast? with
  | some before => some before
  | none => defines.head?

/-- The value a declaration or an assignment stores. -/
def initializer? (d : Draft) : Option Node :=
  if d.node.operation != OpNode.defineOperation && d.node.operation != assignOperation then none
  else match d.origin with
    | some (.declStmt _ decl) => (singleSpec? decl).bind fun (_, _, init) => init
    | some (.assign _ _ _ values) => values.head?
    | _ => none

/-- Where an operand comes from: its own node or, for a variable, its declaration. -/
def operandSource? (table : List (NodeId × OpId)) (g : OperationGraph) (id : OpId) (arg : Node) :
    Option OpId :=
  let arg := u.scope.strip arg
  match table.lookup arg.id with
  | some source => some source
  | none => arg.name?.bind fun var => nearestDefine? g var id

/-- The operands of a call or operator. -/
def operandsOf (n : Node) : List Node :=
  if n.isExpr then
    match u.scope.strip n with
    | .call _ _ args _ => args
    | .binary _ _ x y => [x, y]
    | _ => []
  else []

/-- The edges into one node, as sources and labels in the order they are drawn. -/
def wiring (cpg : PropertyGraph) (table : List (NodeId × OpId)) (g : OperationGraph) (id : OpId)
    (d : Draft) : List (OpId × String) :=
  match d.origin with
  | none => []
  | some n =>
    let init := (initializer? d).bind fun v => table.lookup (u.scope.strip v).id
    let args := (operandsOf u n).zipIdx.filterMap fun (arg, i) =>
      (operandSource? u table g id arg).map (·, argLabel i)
    let flow := (cpg.incomingFlow n.id).filterMap fun dep =>
      (table.lookup dep.source).map (·, dep.var)
    init.toList.map (·, initLabel) ++ args ++ flow

/-- Draw a data edge unless it joins a node to itself or is there already. -/
def link (g : OperationGraph) (source target : OpId) (label : String) : OperationGraph :=
  if source == target || g.hasEdge source target label then g
  else (g.addEdge source target .data label).toOption.getD g

def connect (cpg : PropertyGraph) (drafts : List Draft) (g : OperationGraph) : OperationGraph :=
  let table := nodeTable drafts
  drafts.zipIdx.foldl (fun g' (d, i) =>
    (wiring u cpg table g i d).foldl (fun g' (source, label) => link g' source i label) g') g

/-! ## Marks -/

/-- Counted loops, and the assignments and operators in them. -/
def isMarked (d : Draft) : Bool :=
  match d.node.kind with
  | .control => d.node.className == "ForStmt"
  | .statement =>
    d.counted && (d.node.className == "AssignStmt" || d.node.className == "BinaryExpr")
  | _ => false

def markedIds (drafts : List Draft) : List OpId :=
  (drafts.zipIdx.filter fun (d, _) => isMarked d).map fun (_, i) => (i : OpId)

def mark (g : OperationGraph) (ids : List OpId) : OperationGraph :=
  ids.foldl (fun g id => g.update id (·.setProp PropKey.vectorize.text "true")) g

end Lowering

/-! ## Conversion -/

/-- The outcome of lowering one kernel. -/
structure Conversion where
  function : String
  source : String
  target : String
  graph : OperationGraph
  successful : Bool
  errors : List String := []
  nodes : Nat := 0
  edges : Nat := 0
  messages : List String := []
deriving Inhabited

/-- The messages of a conversion also go to the log. -/
def conversionLog (messages : List String) : List LogEntry :=
  messages.map fun m => LogEntry.debug ("convert: " ++ m)

namespace Lowering

/-- The nodes of a kernel's body. -/
def draftsOf (u : SourceUnit) (k : KernelFn) : List Draft :=
  k.body.toList.flatMap (lower u k false)

/-- The graph for a target, and what is said on the way. -/
def convertBody (u : SourceUnit) (cpg : PropertyGraph) (k : KernelFn)
    (target : Option Architecture) : OperationGraph × List String :=
  let drafts := draftsOf u k
  let bare := graphOf k.name drafts
  let wired := connect u cpg drafts bare
  let told :=
    ["built " ++ toString bare.numNodes ++ " nodes for " ++ k.name,
      "wired " ++ toString wired.edges.length ++ " data edges"]
  match target with
  | some t =>
    if t.autoVectorize then
      let ids := markedIds drafts
      (mark wired ids, told ++
        ["marked " ++ toString ids.length ++ " nodes for " ++ t.name ++ " vectorization"])
    else (wired, told)
  | none => (wired, told)

end Lowering

/-- Lower a kernel on its way from one architecture to another, either of which may be left
open. The property graph is built for the kernel when it is not yet. -/
def convert (u : SourceUnit) (cpg : PropertyGraph) (k : KernelFn)
    (source target : Option Architecture) : Logged (Conversion × PropertyGraph) :=
  let named (a : Option Architecture) := (a.map (·.name)).getD ""
  if !k.hasBody then
    let messages := [k.name ++ " has no body"]
    ⟨({ function := k.name, source := named source, target := named target
        graph := OperationGraph.new k.name, successful := true, messages := messages }, cpg),
      conversionLog messages⟩
  else do
    let cpg ← cpg.build u k
    let (graph, messages) := Lowering.convertBody u cpg k target
    let defects := graph.defects
    ⟨({ function := k.name, source := named source, target := named target, graph := graph
        successful := defects.isEmpty
        errors := if defects.isEmpty then [] else [join "\n" (defects.map (·.message))]
        nodes := graph.numNodes, edges := graph.edges.length, messages := messages }, cpg),
      conversionLog messages⟩

end Retarget
