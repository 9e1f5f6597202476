/-
# PropertyGraph.Basic -- control flow across the kernels of a unit

The graph lives in an arena: a node's slot is its identity and is never used again, and a
removed node stays behind as an empty slot. Each built kernel owns an entry, an exit and one
node for every node of its flow graph; a linked call adds the nodes that carry arguments,
result and return. Every edge is stored at both of its ends.
-/
import Retarget.Flow.Build
import Retarget.Flow.Dependence

namespace Retarget

open Retarget.Source (NodeId)

inductive NodeKind where
  | entry | exit | statement | callSite | returnSite | formalIn | formalOut | actualIn | actualOut
deriving DecidableEq, Repr, Inhabited

def NodeKind.name : NodeKind → String
  | entry => "Entry"
  | exit => "Exit"
  | statement => "Statement"
  | callSite => "CallSite"
  | returnSite => "ReturnSite"
  | formalIn => "FormalIn"
  | formalOut => "FormalOut"
  | actualIn => "ActualIn"
  | actualOut => "ActualOut"

inductive EdgeKind where
  | within | call | ret | paramIn | paramOut | taken | skipped | between
deriving DecidableEq, Repr, Inhabited

namespace EdgeKind

def all : List EdgeKind := [within, call, ret, paramIn, paramOut, taken, skipped, between]

def name : EdgeKind → String
  | within => "Intraprocedural"
  | call => "Call"
  | ret => "Return"
  | paramIn => "ParamIn"
  | paramOut => "ParamOut"
  | taken => "True"
  | skipped => "False"
  | between => "Unconditional"

def ofName? (s : String) : Option EdgeKind := all.find? (·.name == s)

/-- The kind of an edge between blocks. -/
def ofLabel : BranchLabel → EdgeKind
  | .always => between
  | .taken => taken
  | .skipped => skipped

end EdgeKind

/-- A position in the arena. -/
abbrev Slot := Nat

structure Edge where
  other : Slot
  kind : EdgeKind
deriving DecidableEq, Repr, Inhabited

structure GraphNode where
  /-- The slot the node was made for. -/
  id : Slot := 0
  kind : NodeKind
  kernel : KernelId
  /-- The syntax the node stands for. -/
  stmt : Option NodeId := none
  /-- The kernel a linked call invokes. -/
  target : Option KernelId := none
  /-- The position of a parameter or argument. -/
  param : Option Nat := none
  calls : List NodeId := []
  succs : List Edge := []
  preds : List Edge := []
  removed : Bool := false
deriving Repr, Inhabited

/-- A direct call found in a node. -/
structure CallRecord where
  site : Slot
  call : NodeId
  args : List NodeId
  caller : KernelId
  /-- Nothing when the callee is not declared in the unit. -/
  target : Option KernelId
  linked : Bool := false
  returnSite : Option Slot := none
  /-- The nodes made when the call was linked. -/
  created : List Slot := []
deriving Repr, Inhabited

/-- What is known of one built kernel. -/
structure BuiltKernel where
  kernel : KernelId
  graph : FlowGraph
  entry : Slot
  exit : Slot
  slots : List Slot
  stmts : List NodeId
  facts : FlowFacts

structure PropertyGraph where
  /-- Cap on the passes of every fixed-point computation. -/
  cap : Nat
  nodes : Array GraphNode := #[]
  built : List BuiltKernel := []
  /-- The slot of each node of a flow graph. -/
  index : List (NodeId × Slot) := []
  /-- Enclosing statements and the nodes that stand for them. -/
  aliases : List (NodeId × NodeId) := []
  calls : List CallRecord := []

namespace PropertyGraph

def defaultCap : Nat := 100

/-- An empty graph; a cap that is not positive means the default. -/
def new (cap : Int := 0) : PropertyGraph := { cap := if 0 < cap then cap.toNat else defaultCap }

variable (g : PropertyGraph)

def node? (s : Slot) : Option GraphNode := g.nodes[s]?

def builtKernel? (k : KernelId) : Option BuiltKernel := g.built.find? (·.kernel == k)

def isBuilt (k : KernelId) : Bool := (g.builtKernel? k).isSome

/-- The live nodes. -/
def numNodes : Nat := (g.nodes.toList.filter (!·.removed)).length

/-! ## Nodes and edges -/

def addNode (n : GraphNode) : PropertyGraph × Slot :=
  ({ g with nodes := g.nodes.push { n with id := g.nodes.size } }, g.nodes.size)

/-- Add nodes, numbered from the end of the arena on. -/
def addNodes (fresh : List GraphNode) : PropertyGraph :=
  let numbered := (fresh.zipIdx g.nodes.size).map fun (n, i) => { n with id := i }
  { g with nodes := g.nodes ++ numbered.toArray }

def addEdge (source target : Slot) (kind : EdgeKind) : PropertyGraph :=
  let nodes := g.nodes.modify source fun n => { n with succs := n.succs ++ [⟨target, kind⟩] }
  { g with
    nodes := nodes.modify target fun n => { n with preds := n.preds ++ [⟨source, kind⟩] } }

def addEdges (edges : List (Slot × Slot × EdgeKind)) : PropertyGraph :=
  edges.foldl (fun g (source, target, kind) => g.addEdge source target kind) g

/-- Note or clear the kernel that the call at a slot invokes. -/
def setTarget (s : Slot) (target : Option KernelId) : PropertyGraph :=
  { g with nodes := g.nodes.modify s fun n => { n with target := target } }

def dropEdges (edges : List Edge) (s : Slot) : List Edge := edges.filter (·.other != s)

/-- Empty a slot and strip every edge that touches it. -/
def removeNode (s : Slot) : PropertyGraph :=
  match g.node? s with
  | none => g
  | some n =>
    let nodes := n.succs.foldl (fun nodes e =>
      nodes.modify e.other fun m => { m with preds := dropEdges m.preds s }) g.nodes
    let nodes := n.preds.foldl (fun nodes e =>
      nodes.modify e.other fun m => { m with succs := dropEdges m.succs s }) nodes
    { g with nodes := nodes.modify s fun m => { m with succs := [], preds := [], removed := true } }

def removeNodes (slots : List Slot) : PropertyGraph := slots.foldl removeNode g

/-! ## Statements -/

/-- The node of a flow graph that stands for a statement. -/
def canonical (stmt : NodeId) : NodeId :=
  if (g.index.lookup stmt).isSome then stmt else (g.aliases.lookup stmt).getD stmt

/-- The slot of a statement; enclosing statements resolve to the node that carries them. -/
def slotOf? (stmt : NodeId) : Option Slot := g.index.lookup (g.canonical stmt)

/-- What is known of the kernel a statement belongs to. -/
def infoOf? (stmt : NodeId) : Option BuiltKernel := do
  let n ← g.node? (← g.slotOf? stmt)
  g.builtKernel? n.kernel

end PropertyGraph

end Retarget
