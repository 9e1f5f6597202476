/-
# Archive -- results as rows of tables

Seven tables hold what analyses found: the functions, the nodes and edges of their property
graphs, their dependences, the nodes and edges of their operation graphs, and the generated
code. Functions are numbered from one in the order they were written, and every other row
names its function by that number.
-/
import Retarget.Analysis.Run
import Retarget.Tally
import Retarget.Text.Bytes

namespace Retarget

open Retarget.Source (NodeId)
open Retarget.Text (join addNew shorten)

namespace Archive

structure FunctionRow where
  id : Nat
  file : String
  name : String
  params : Nat
  result : String
  successful : Bool
  errors : String
  complexity : Int
  ruleApplied : Nat
  fallbacks : Nat
deriving Repr, DecidableEq, Inhabited

structure NodeRow where
  function : Nat
  node : Slot
  kind : String
  /-- The text of the statement; nothing for a node without one. -/
  stmt : Option String
  line : Int
deriving Repr, DecidableEq, Inhabited

structure EdgeRow where
  function : Nat
  source : Slot
  target : Slot
  kind : String
deriving Repr, DecidableEq, Inhabited

structure DependenceRow where
  function : Nat
  /-- A statement that is no node is written as -1. -/
  source : Int
  sink : Int
  kind : String
  /-- The variable, or the branch of a control dependence. -/
  var : String
deriving Repr, DecidableEq, Inhabited

structure OperationRow where
  function : Nat
  node : OpId
  kind : String
  name : String
  operation : String
  declared : String
  isStatement : Bool
  vectorize : Bool
deriving Repr, DecidableEq, Inhabited

structure OperationEdgeRow where
  function : Nat
  source : OpId
  target : OpId
  kind : String
  label : String
deriving Repr, DecidableEq, Inhabited

structure CodeRow where
  function : Nat
  target : String
  code : String
deriving Repr, DecidableEq, Inhabited

end Archive

open Archive

structure Archive where
  functions : List FunctionRow := []
  nodes : List NodeRow := []
  edges : List EdgeRow := []
  dependences : List DependenceRow := []
  operations : List OperationRow := []
  operationEdges : List OperationEdgeRow := []
  code : List CodeRow := []
deriving Repr, DecidableEq, Inhabited

namespace Archive

/-! ## Rows of one result -/

/-- The most bytes of a statement that are kept. -/
def stmtLimit : Nat := 200

section Rows

variable (a : Analyzer) (id : Nat) (r : AnalysisResult)

def functionRow (file : String) : FunctionRow :=
  let k := (a.unit.kernel? r.kernel).getD default
  { id := id, file := file, name := r.function, params := k.params.length, result := k.result
    successful := r.successful, errors := join "\n" r.errors, complexity := r.stats.complexity
    ruleApplied := r.stats.ruleApplied, fallbacks := r.stats.fallbacks }

/-- The nodes of a kernel's part of the property graph. -/
def ownNodes : List (Slot × GraphNode) :=
  (a.graph.kernelSlots r.kernel).filterMap fun s => (a.graph.node? s).map (s, ·)

def nodeRow (s : Slot) (n : GraphNode) : NodeRow :=
  { function := id, node := s, kind := n.kind.name
    stmt := n.stmt.map fun stmt => shorten stmtLimit (a.unit.printId stmt)
    line := ((n.stmt.bind a.unit.node?).map fun t => (a.unit.place t).1).getD 0 }

def edgeRows (s : Slot) (n : GraphNode) : List EdgeRow :=
  n.succs.map fun e => { function := id, source := s, target := e.other, kind := e.kind.name }

/-- The node a statement is written as. -/
def nodeNumber (stmt : NodeId) : Int :=
  match a.graph.slotOf? stmt with
  | some s => s
  | none => -1

def branchName (branch : Bool) : String := if branch then "T" else "F"

/-- The data dependences from a statement, then what it controls. -/
def dependenceRows (stmt : NodeId) : List DependenceRow :=
  ((a.graph.outgoing stmt).map fun d =>
    { function := id, source := nodeNumber a d.source, sink := nodeNumber a d.sink
      kind := d.kind.name, var := d.var }) ++
  ((a.graph.dependents stmt).map fun d =>
    { function := id, source := nodeNumber a d.controller, sink := nodeNumber a d.dependent
      kind := "control", var := branchName d.branch })

def operationRow (n : OpNode) : OperationRow :=
  { function := id, node := n.id, kind := n.kind.name, name := n.name, operation := n.operation
    declared := n.variableName, isStatement := n.isStatement, vectorize := n.isVectorized }

def operationEdgeRow (e : OpEdge) : OperationEdgeRow :=
  { function := id, source := e.source, target := e.target, kind := e.kind.name
    label := e.label }

end Rows

/-! ## Writing -/

/-- Write one result. A kernel whose graph was not built has no nodes there. -/
def writeResult (file : String) (a : Analyzer) (t : Archive) (r : AnalysisResult) : Archive :=
  let id := t.functions.length + 1
  let own := ownNodes a r
  let graph := (r.conversion.map (·.graph)).getD (OperationGraph.new r.function)
  { functions := t.functions ++ [functionRow a id r file]
    nodes := t.nodes ++ own.map fun (s, n) => nodeRow a id s n
    edges := t.edges ++ own.flatMap fun (s, n) => edgeRows id s n
    dependences := t.dependences ++
      (a.graph.statements r.kernel).flatMap (dependenceRows a id)
    operations := t.operations ++ graph.nodes.map (operationRow id)
    operationEdges := t.operationEdges ++ graph.edges.map (operationEdgeRow id)
    code := t.code ++
      if r.code == "" then [] else [{ function := id, target := r.target.name, code := r.code }] }

/-- Write the results of one file. -/
def write (t : Archive) (file : String) (a : Analyzer) (rs : List AnalysisResult) :
    Logged Archive :=
  ⟨rs.foldl (writeResult file a) t,
    [.info ("store: wrote " ++ toString rs.length ++ " functions of " ++ file)]⟩

/-! ## Reading -/

variable (t : Archive)

/-- The number of generated texts for each target. -/
def byTarget : List (String × Nat) :=
  (addNew [] (t.code.map (·.target))).map fun name => (name, t.code.countP (·.target == name))

def successful : Nat := t.functions.countP (·.successful)

def ruleApplied : Nat := total (t.functions.map (·.ruleApplied))

def fallbacks : Nat := total (t.functions.map (·.fallbacks))

def functionName? (id : Nat) : Option String := (t.functions.find? (·.id == id)).map (·.name)

/-- The code of the function of that name which was written last. -/
def generated? (name target : String) : Option String :=
  ((t.code.filter fun row => row.target == target && t.functionName? row.function == some name)
    |>.getLast?).map (·.code)

/-! ## Cells -/

/-- One value of a row. -/
inductive Cell where
  | null
  | integer (value : Int)
  | text (value : String)
deriving Repr, DecidableEq, Inhabited

namespace Cell

def natural (n : Nat) : Cell := .integer n

def truth (b : Bool) : Cell := .integer (if b then 1 else 0)

def optional : Option String → Cell
  | some value => .text value
  | none => .null

end Cell

/-- The columns of the tables. -/
def schema : List (String × List String) := [
  ("functions", ["id", "file", "name", "params", "result", "successful", "errors", "complexity",
    "rule_applied", "fallbacks"]),
  ("icfg_nodes", ["function_id", "node_id", "kind", "stmt", "line"]),
  ("icfg_edges", ["function_id", "source", "target", "kind"]),
  ("dependencies", ["function_id", "source", "sink", "kind", "var"]),
  ("aod_nodes", ["function_id", "node_id", "type", "name", "op_name", "var_name", "statement",
    "vectorize"]),
  ("aod_edges", ["function_id", "source", "target", "type", "label"]),
  ("generated", ["function_id", "target", "code"])]

/-- The rows of a table in the order they were written. -/
def rows : String → List (List Cell)
  | "functions" => t.functions.map fun r =>
    [.natural r.id, .text r.file, .text r.name, .natural r.params, .text r.result,
      .truth r.successful, .text r.errors, .integer r.complexity, .natural r.ruleApplied,
      .natural r.fallbacks]
  | "icfg_nodes" => t.nodes.map fun r =>
    [.natural r.function, .natural r.node, .text r.kind, .optional r.stmt, .integer r.line]
  | "icfg_edges" => t.edges.map fun r =>
    [.natural r.function, .natural r.source, .natural r.target, .text r.kind]
  | "dependencies" => t.dependences.map fun r =>
    [.natural r.function, .integer r.source, .integer r.sink, .text r.kind, .text r.var]
  | "aod_nodes" => t.operations.map fun r =>
    [.natural r.function, .integer r.node, .text r.kind, .text r.name, .text r.operation,
      .text r.declared, .truth r.isStatement, .truth r.vectorize]
  | "aod_edges" => t.operationEdges.map fun r =>
    [.natural r.function, .integer r.source, .integer r.target, .text r.kind, .text r.label]
  | "generated" => t.code.map fun r => [.natural r.function, .text r.target, .text r.code]
  | _ => []

end Archive

end Retarget
