/-
# Operation.Order -- reachability, order, dominance and the longest chain

Everything here reads the graph as a plain relation between numbers: parallel edges count once
and an edge from a node to itself not at all. Edges name slots, while a node may have been
given a number other than its slot; both numbers then take part.
-/
import Retarget.Operation.Graph
import Retarget.Reach

namespace Retarget

/-! ## Relations on a finite set of nodes -/

/-- Nodes and the pairs related, as the algorithms below read them. -/
structure Digraph where
  nodes : List OpId
  arcs : List (OpId × OpId)
deriving Repr, Inhabited

namespace Digraph

variable (d : Digraph)

def next (x : OpId) : List OpId :=
  ((d.arcs.filter (·.1 == x)).map (·.2)).eraseDups

/-- The nodes that can be reached from `x` by a path of any length. -/
def reachable (x : OpId) : List OpId := explore d.next d.nodes.length [x]

def hasPath (x y : OpId) : Bool := (d.reachable x).contains y

/-- Whether `x` lies on a cycle. -/
def onCycle (x : OpId) : Bool := (d.next x).any fun y => d.hasPath y x

def isCyclic : Bool := d.nodes.any d.onCycle

/-- The other nodes of every cycle through `x`, with `x` itself. -/
def component (x : OpId) : List OpId :=
  d.nodes.filter fun y => d.hasPath x y && d.hasPath y x

/-- The sets of two or more nodes that reach each other, by their smallest member. -/
def cycles : List (List OpId) :=
  (d.nodes.map d.component).eraseDups.filter fun c => 1 < c.length

/-- Depth-first search that puts a node before everything it leads to. `order` holds what has
been put, and `depth` bounds the length of the path followed. -/
def putFirst : Nat → List OpId → OpId → List OpId
  | 0, order, _ => order
  | depth + 1, order, x =>
    if order.contains x then order
    else x :: ((d.next x).mergeSort (fun a b => b ≤ a)).foldl (putFirst depth) order

/-- An order in which every arc points forward; nothing for a cyclic relation. -/
def order? : Option (List OpId) :=
  if d.isCyclic then none
  else some ((d.nodes.mergeSort fun a b => b ≤ a).foldl (d.putFirst d.nodes.length) [])

/-! ## Dominance -/

/-- The nodes reachable from `root` without passing through `x`. -/
def reachableAvoiding (root x : OpId) : List OpId :=
  if root == x then []
  else explore (fun y => (d.next y).filter (· != x)) d.nodes.length [root]

/-- Whether every path from `root` to a reachable `y` passes through `x`. -/
def separates (root x y : OpId) : Bool := !(d.reachableAvoiding root x).contains y

/-- The dominators of `y` other than itself. -/
def strictDominators (root y : OpId) : List OpId :=
  (d.reachable root).filter fun x => x != y && d.separates root x y

/-- The strict dominator that all others dominate in turn. -/
def immediateDominator? (root y : OpId) : Option OpId :=
  let above := d.strictDominators root y
  above.find? fun x => above.all fun z => z == x || d.separates root z x

/-! ## Longest chains -/

/-- The lengths of the longest chains ending at each node, read along an order in which arcs
point forward. -/
def chainLengths (order : List OpId) : List (OpId × Nat) :=
  order.foldl (fun lengths x =>
    let before := (d.arcs.filter (·.2 == x)).map fun a => (lengths.lookup a.1).getD 0
    (x, before.foldl max 0 + 1) :: lengths) []

/-- The number of nodes on the longest chain; nothing when there is a cycle. -/
def longestChain? : Option Nat :=
  d.order?.map fun order => ((d.chainLengths order).map (·.2)).foldl max 0

end Digraph

/-! ## Operation graphs -/

namespace OperationGraph

variable (g : OperationGraph)

/-- The live edges that `keep` accepts, as pairs of slots. -/
def arcs (keep : OpEdge → Bool) : List (OpId × OpId) :=
  (g.edges.filter fun e => keep e && e.source != e.target &&
    (g.node? e.source).isSome && (g.node? e.target).isSome).map fun e => (e.source, e.target)

/-- The numbers of the live nodes and the ends of the edges that `keep` accepts, ascending. -/
def digraph (keep : OpEdge → Bool) : Digraph :=
  let arcs := g.arcs keep
  let ends := arcs.flatMap fun (x, y) => [x, y]
  { nodes := (g.nodes.map (·.id) ++ ends).eraseDups.mergeSort fun a b => a ≤ b
    arcs := arcs }

def wholeDigraph : Digraph := g.digraph fun _ => true

/-- The nodes in an order in which every edge points forward. -/
def topologicalOrder? : Option (List OpNode) :=
  g.wholeDigraph.order?.map (·.filterMap g.node?)

def isCyclic : Bool := g.wholeDigraph.isCyclic

/-- The sets of nodes that reach each other, by the number of the first in each. -/
def cycles : List (List OpNode) :=
  (g.wholeDigraph.cycles.map (·.filterMap g.node?)).mergeSort fun a b =>
    (a.head?.map (·.id)).getD 0 ≤ (b.head?.map (·.id)).getD 0

def hasPath (source target : OpId) : Bool :=
  (g.node? source).isSome && (g.node? target).isSome && g.wholeDigraph.hasPath source target

/-- The immediate dominator of every node reachable from a live root, which has none itself. -/
def dominators? (root : OpId) : Option (List (OpId × Option OpId)) :=
  match g.node? root with
  | none => none
  | some _ =>
    let d := g.wholeDigraph
    let below := (g.nodes.map (·.id)).filter fun x => x != root && d.hasPath root x
    some ((root, none) :: below.map fun x => (x, d.immediateDominator? root x))

/-- Climb from `y` towards the root in search of `x`. A number that is not in the tree stands
below zero. -/
def climbsTo (tree : List (OpId × Option OpId)) (x : OpId) : Nat → OpId → Bool
  | 0, _ => false
  | steps + 1, y =>
    y == x || match tree.lookup y with
      | some (some up) => climbsTo tree x steps up
      | some none => false
      | none => climbsTo tree x steps 0

/-- Whether `x` dominates `y` in a tree of immediate dominators. -/
def dominates (tree : List (OpId × Option OpId)) (x y : OpId) : Bool :=
  (tree.lookup y).isSome && climbsTo tree x (2 * tree.length + 2) y

/-- The number of nodes on the longest chain of data edges; zero when they form a cycle. -/
def criticalPath : Nat := ((g.digraph (·.kind == .data)).longestChain?).getD 0

/-! ## Counts -/

structure Stats where
  nodes : Nat
  edges : Nat
  statements : Nat
  vector : Nat
  control : Nat
  data : Nat
  calls : Nat
  blockEnds : Nat
  vectorized : Nat
  byKind : List (OpEdgeKind × Nat)
  criticalPath : Nat
deriving Repr, Inhabited

/-- How a node is counted. -/
inductive Role where
  | vector | control | call | blockEnd | data | none
deriving DecidableEq, Repr, Inhabited

def roleOf (k : OpKind) : Role :=
  if k.isVector then .vector
  else if k.isControl then .control
  else if k == .call then .call
  else if k == .blockEnd then .blockEnd
  else if k.isData then .data
  else .none

def stats : Stats :=
  let count (r : Role) := (g.nodes.filter fun n => roleOf n.kind == r).length
  { nodes := g.numNodes
    edges := g.edges.length
    statements := g.statements.length
    vector := count .vector
    control := count .control
    data := count .data
    calls := count .call
    blockEnds := count .blockEnd
    vectorized := (g.nodes.filter (·.isVectorized)).length
    byKind := OpEdgeKind.all.filterMap fun k =>
      let n := (g.edges.filter (·.kind == k)).length
      if n == 0 then none else some (k, n)
    criticalPath := g.criticalPath }

end OperationGraph

end Retarget
