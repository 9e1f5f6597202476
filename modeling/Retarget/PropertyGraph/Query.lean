/-
# PropertyGraph.Query -- questions about statements, blocks and paths

Statements are named by the numbers of their nodes; an enclosing statement is answered for by
the node that stands for it. A statement of a kernel that is not built has nothing to tell.
-/
import Retarget.PropertyGraph.Basic

namespace Retarget

open Retarget.Source (NodeId)

namespace PropertyGraph

variable (g : PropertyGraph)

/-! ## Kernels -/

/-- Entry, exit and statement nodes of a kernel. -/
def kernelSlots (k : KernelId) : List Slot := ((g.builtKernel? k).map (·.slots)).getD []

def entry? (k : KernelId) : Option Slot := (g.builtKernel? k).map (·.entry)

def exit? (k : KernelId) : Option Slot := (g.builtKernel? k).map (·.exit)

def statements (k : KernelId) : List NodeId := ((g.builtKernel? k).map (·.stmts)).getD []

def edgesOf (kinds : List EdgeKind) (edges : List Edge) : List Slot :=
  (edges.filter fun e => kinds.isEmpty || kinds.contains e.kind).map (·.other)

/-- Successors along the given kinds of edges; no kinds mean all. -/
def successors (s : Slot) (kinds : List EdgeKind) : List Slot :=
  edgesOf kinds (((g.node? s).map (·.succs)).getD [])

def predecessors (s : Slot) (kinds : List EdgeKind) : List Slot :=
  edgesOf kinds (((g.node? s).map (·.preds)).getD [])

/-- The calls made from a kernel, in source order. -/
def callsFrom (k : KernelId) : List CallRecord := g.calls.filter (·.caller == k)

/-- The calls into a kernel from built ones. -/
def callsInto (k : KernelId) : List CallRecord := g.calls.filter (·.target == some k)

/-- The kernels of the unit each caller invokes directly, in call order, each once. -/
def callGraph (u : SourceUnit) : List (String × List String) :=
  g.calls.foldl (fun graph call =>
    match u.kernel? call.caller, call.target.bind u.kernel? with
    | some caller, some callee =>
      match graph.lookup caller.name with
      | none => graph ++ [(caller.name, [callee.name])]
      | some names =>
        if names.contains callee.name then graph
        else graph.map fun (n, l) => if n == caller.name then (n, l ++ [callee.name]) else (n, l)
    | _, _ => graph) []

/-! ## Definitions and dependences -/

/-- The statements whose definition of `var` may hold before `stmt`. -/
def definitions (stmt : NodeId) (var : String) : List NodeId :=
  match g.infoOf? stmt with
  | none => []
  | some b => originsOf b.graph (b.facts.factsBefore (g.canonical stmt)) var

def variablesAt (stmt : NodeId) : List String × List String :=
  match g.infoOf? stmt with
  | none => ([], [])
  | some b => (b.facts.access.defs (g.canonical stmt), b.facts.access.uses (g.canonical stmt))

/-- The record of the dependences `stmt` takes part in, if there are any. -/
def depRecord? (stmt : NodeId) : Option DepRecord := do
  let b ← g.infoOf? stmt
  b.facts.deps.lookup (g.canonical stmt)

/-- Every data dependence that `stmt` is the source or the sink of. -/
def dataDepsOf (stmt : NodeId) : List DataDep := ((g.depRecord? stmt).getD {}).data

/-- Every control dependence that `stmt` takes part in. -/
def controlDepsAt (stmt : NodeId) : List ControlDep := ((g.depRecord? stmt).getD {}).control

/-- A statement has a dependence record if it takes part in some dependence. -/
def hasDeps (stmt : NodeId) : Bool := (g.depRecord? stmt).isSome

/-- The statements that read the value of `var` defined at `stmt`. -/
def readers (stmt : NodeId) (var : String) : List NodeId :=
  let n := g.canonical stmt
  ((g.dataDepsOf n).filter fun d => d.kind == .flow && d.source == n && d.var == var).map (·.sink)

def incomingFlow (stmt : NodeId) : List DataDep :=
  let n := g.canonical stmt
  (g.dataDepsOf n).filter fun d => d.kind == .flow && d.sink == n

/-- The branches that decide whether `stmt` runs. -/
def controllers (stmt : NodeId) : List ControlDep :=
  (g.controlDepsAt stmt).filter (·.dependent == g.canonical stmt)

/-- The statements whose execution `cond` decides. -/
def dependents (cond : NodeId) : List ControlDep :=
  (g.controlDepsAt cond).filter (·.controller == g.canonical cond)

/-! ## Blocks -/

/-- Whether block `a` post-dominates block `b`; a block that does not exist never does. -/
def postDominates (k : KernelId) (a b : Nat) : Bool :=
  match g.builtKernel? k with
  | none => false
  | some info =>
    a < info.graph.size && b < info.graph.size && (info.facts.postDoms.getD b []).has a

/-- The post-dominators of every block, in ascending order. -/
def postDominators (k : KernelId) : List (List Nat) :=
  ((g.builtKernel? k).map fun b => b.facts.postDoms.map (BlockSet.toList b.graph.size)).getD []

/-! ## Paths -/

/-- The sinks of flow dependences from `n`, on `var` alone unless it is empty. -/
def flowSinks (var : String) (n : NodeId) : List NodeId :=
  ((g.dataDepsOf n).filter fun d =>
    d.kind == .flow && d.source == n && (var == "" || d.var == var)).map (·.sink)

/-- Whether a value defined at `source` can reach `sink` along flow dependences. -/
def hasDataPath (source sink : NodeId) (var : String) : Bool :=
  let next := g.flowSinks var
  let met := explore next (g.index.length + 1) [g.canonical source]
  met.any fun n => (next n).contains (g.canonical sink)

def succSlots (s : Slot) : List Slot := g.successors s []

/-- Whether `target` can be reached from `source` by at least one edge of any kind. -/
def reaches (source target : Slot) : Bool :=
  (explore g.succSlots g.nodes.size [source]).any fun s => (g.succSlots s).contains target

def hasControlPath (source sink : NodeId) : Bool :=
  match g.slotOf? source, g.slotOf? sink with
  | some a, some b => g.reaches a b
  | _, _ => false

/-- The simple paths from `s` to `target` with at most `budget + 1` nodes, depth first in the
order of the successor lists. `path` holds the nodes before `s`, the latest first. -/
def pathsFrom (target : Slot) : Nat → List Slot → Slot → List (List Slot)
  | budget, path, s =>
    if s == target then [(s :: path).reverse]
    else match budget with
      | 0 => []
      | budget + 1 => (g.succSlots s).flatMap fun t =>
        if (s :: path).contains t then [] else pathsFrom target budget (s :: path) t

/-- The simple paths with at most `limit` nodes. -/
def nodePaths (source target : Slot) (limit : Int) : List (List Slot) :=
  if limit ≤ 0 || (g.node? source).isNone || (g.node? target).isNone then []
  else g.pathsFrom target (limit.toNat - 1) [] source

def allPaths (source sink : NodeId) (limit : Int) : List (List Slot) :=
  match g.slotOf? source, g.slotOf? sink with
  | some a, some b => g.nodePaths a b limit
  | _, _ => []

end PropertyGraph

end Retarget
