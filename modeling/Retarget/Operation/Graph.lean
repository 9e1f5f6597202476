/-
# Operation.Graph -- nodes and labelled edges of one kernel

A node's slot is its number, and a removed node leaves its slot empty. Edges keep the order in
which they were added. The name index holds one node for a name, the last added; when that
node goes, the name means nothing, although an earlier node may bear it.
-/
import Retarget.Operation.Basic
import Retarget.Text.Quoted

namespace Retarget

open Retarget.Text (quoted)

structure OperationGraph where
  name : String
  slots : List (Option OpNode) := []
  edges : List OpEdge := []
  index : List (String × OpId) := []
deriving Repr, Inhabited

/-- Why an edge is refused. -/
inductive OpGraphError where
  | unknownNode (source target : OpId)
deriving Repr, DecidableEq, Inhabited

def OpGraphError.message : OpGraphError → String
  | unknownNode source target =>
    "aod: edge " ++ toString source ++ " -> " ++ toString target ++ ": unknown node"

namespace OperationGraph

def new (name : String) : OperationGraph := { name := name }

variable (g : OperationGraph)

/-! ## Nodes -/

def node? (id : OpId) : Option OpNode :=
  if id < 0 then none else (g.slots[id.toNat]?).join

/-- The live nodes by number. -/
def nodes : List OpNode := g.slots.filterMap (·)

def numNodes : Nat := g.nodes.length

/-- Add a node under the next number; a named node takes over its name. -/
def addNode (n : OpNode) : OperationGraph × OpId :=
  let id : OpId := g.slots.length
  ({ g with
    slots := g.slots ++ [some { n with id := id }]
    index := if n.name == "" then g.index else (n.name, id) :: g.index.filter (·.1 != n.name) },
    id)

/-- Change the node in a slot. -/
def update (id : OpId) (f : OpNode → OpNode) : OperationGraph :=
  if id < 0 then g else { g with slots := g.slots.modify id.toNat (·.map f) }

def nodeByName? (name : String) : Option OpNode := do g.node? (← g.index.lookup name)

/-- Empty a slot together with every edge that touches it. -/
def removeNode (id : OpId) : OperationGraph × Bool :=
  match g.node? id with
  | none => (g, false)
  | some n =>
    ({ g with
      slots := g.slots.set id.toNat none
      edges := g.edges.filter fun e => e.source != id && e.target != id
      index := if g.index.lookup n.name == some id then g.index.filter (·.1 != n.name)
        else g.index }, true)

/-! ## Edges -/

/-- Join two live nodes. An edge from a node to itself is dropped. -/
def addEdge (source target : OpId) (kind : OpEdgeKind) (label : String) :
    Except OpGraphError OperationGraph :=
  if (g.node? source).isNone || (g.node? target).isNone then .error (.unknownNode source target)
  else if source == target then .ok g
  else .ok { g with edges := g.edges ++ [⟨source, target, kind, label⟩] }

/-- Remove every edge from one node to another, and tell whether there was one. -/
def removeEdge (source target : OpId) : OperationGraph × Bool :=
  let joins (e : OpEdge) := e.source == source && e.target == target
  ({ g with edges := g.edges.filter (!joins ·) }, g.edges.any joins)

def hasEdge (source target : OpId) (label : String) : Bool :=
  g.edges.any fun e => e.source == source && e.target == target && e.label == label

def edgesFrom (id : OpId) : List OpEdge := g.edges.filter (·.source == id)

def edgesTo (id : OpId) : List OpEdge := g.edges.filter (·.target == id)

/-- The node the first data edge with this label comes from. -/
def input? (id : OpId) (label : String) : Option OpNode := do
  let e ← g.edges.find? fun e => e.target == id && e.kind == .data && e.label == label
  g.node? e.source

/-! ## Selections -/

/-- The nodes that declare or store a variable. -/
def definitionsOf (var : String) : List OpNode :=
  g.nodes.filter fun n => n.variableName == var && (n.isDefine || n.kind == .store)

/-- The nodes a data edge brings a variable to, in the order of the edges. -/
def usesOf (var : String) : List OpNode :=
  let targets := (g.edges.filter fun e => e.kind == .data && e.label == var).map (·.target)
  targets.eraseDups.filterMap g.node?

def statements : List OpNode := g.nodes.filter (·.isStatement)

def vectorNodes : List OpNode := g.nodes.filter (·.kind.isVector)

/-- Vector operations and the nodes marked to become some. -/
def vectorizableNodes : List OpNode := g.nodes.filter fun n => n.kind.isVector || n.isVectorized

def entryNodes : List OpNode := g.nodes.filter fun n => (g.edgesTo n.id).isEmpty

def exitNodes : List OpNode := g.nodes.filter fun n => (g.edgesFrom n.id).isEmpty

/-! ## Well-formedness -/

inductive Defect where
  | misnumbered (name : String) (id : OpId) (slot : Nat)
  | unnamed (slot : Nat)
  | dangling (source target : OpId)
  | selfLoop (source target : OpId)
deriving Repr, DecidableEq, Inhabited

def Defect.message : Defect → String
  | misnumbered name id slot =>
    "node " ++ quoted name ++ " has id " ++ toString id ++ " in slot " ++ toString slot
  | unnamed slot => "node " ++ toString slot ++ " has no name"
  | dangling source target =>
    "edge " ++ toString source ++ " -> " ++ toString target ++ " is dangling"
  | selfLoop source target =>
    "edge " ++ toString source ++ " -> " ++ toString target ++ " is a self loop"

def slotDefects (slot : Nat) : Option OpNode → List Defect
  | none => []
  | some n =>
    (if n.id != slot then [.misnumbered n.name n.id slot] else []) ++
      (if n.name == "" then [.unnamed slot] else [])

def edgeDefects (e : OpEdge) : List Defect :=
  (if (g.node? e.source).isNone || (g.node? e.target).isNone then
    [.dangling e.source e.target] else []) ++
    (if e.source == e.target then [.selfLoop e.source e.target] else [])

/-- What is wrong with a graph: first its nodes, then its edges. -/
def defects : List Defect :=
  (g.slots.zipIdx.flatMap fun (n, i) => slotDefects i n) ++ g.edges.flatMap g.edgeDefects

end OperationGraph

end Retarget
