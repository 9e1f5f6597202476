/-
# Flow.Dependence -- data and control dependences between nodes

A flow dependence leads from a write to a read of the value, an anti dependence from a read to
a later write, an output dependence from a write to a later write. A node depends on a branch if
it can be reached from one arm before the branch is decided for good, that is without passing
a block that post-dominates the branching one.

Every dependence is entered in the record of both of its ends, or once where they coincide.
-/
import Retarget.Flow.Dataflow
import Retarget.Flow.PostDominance
import Retarget.Reach

namespace Retarget

open Retarget.Source (NodeId)

inductive DepKind where
  | flow | anti | output
deriving DecidableEq, Repr, Inhabited

def DepKind.name : DepKind → String
  | flow => "flow"
  | anti => "anti"
  | output => "output"

structure DataDep where
  source : NodeId
  sink : NodeId
  var : String
  kind : DepKind
deriving DecidableEq, Repr, Inhabited

structure ControlDep where
  controller : NodeId
  dependent : NodeId
  branch : Bool
deriving DecidableEq, Repr, Inhabited

/-! ## Records -/

/-- The dependences a node takes part in, as source or as sink. -/
structure DepRecord where
  data : List DataDep := []
  control : List ControlDep := []
deriving Repr, Inhabited

/-- The record of every node that takes part in a dependence, made when the first is found. -/
abbrev DepTable := List (NodeId × DepRecord)

namespace DepTable

/-- Change the record of a node, an empty one if it has none. -/
def update (n : NodeId) (change : DepRecord → DepRecord) : DepTable → DepTable
  | [] => [(n, change {})]
  | (m, r) :: rest =>
    if m == n then (m, change r) :: rest else (m, r) :: update n change rest

/-- Change the records of both ends, that of one end only where they coincide. -/
def enter (t : DepTable) (source sink : NodeId) (change : DepRecord → DepRecord) : DepTable :=
  let t := t.update source change
  if sink == source then t else t.update sink change

def addData (t : DepTable) (d : DataDep) : DepTable :=
  t.enter d.source d.sink fun r => { r with data := r.data ++ [d] }

def addControl (t : DepTable) (d : ControlDep) : DepTable :=
  t.enter d.controller d.dependent fun r => { r with control := r.control ++ [d] }

/-- The record of a node, empty if it has none. -/
def record (t : DepTable) (n : NodeId) : DepRecord := (t.lookup n).getD {}

end DepTable

/-- Everything the analyses say about one flow graph. -/
structure FlowFacts where
  access : Access
  /-- Definitions that may hold just before each node. -/
  defsBefore : List (NodeId × Facts)
  passes : Nat
  converged : Bool
  usesConverged : Bool
  usesPasses : Nat
  postDoms : List BlockSet
  deps : DepTable

namespace FlowFacts

variable (f : FlowFacts)

def factsBefore (n : NodeId) : Facts := (f.defsBefore.lookup n).getD []

/-- The value a variable had on entry may still hold before `n`. -/
def isIncoming (n : NodeId) (var : String) : Bool := (f.factsBefore n).contains ⟨var, none⟩

end FlowFacts

/-- The nodes in graph order from which a fact about `var` stems. -/
def originsOf (g : FlowGraph) (facts : Facts) (var : String) : List NodeId :=
  g.statements.filter fun d => facts.contains ⟨var, some d⟩

/-- The dependences of which `n` is the sink. -/
def depsInto (g : FlowGraph) (access : Access) (defs uses : Facts) (n : NodeId) : List DataDep :=
  let flow := (access.uses n).flatMap fun v =>
    (originsOf g defs v).map fun d => ⟨d, n, v, .flow⟩
  let overwrite := (access.defs n).flatMap fun v =>
    ((originsOf g uses v).filter (· != n)).map (fun u => ⟨u, n, v, .anti⟩) ++
      (originsOf g defs v).map fun d => ⟨d, n, v, .output⟩
  flow ++ overwrite

def dataDeps (g : FlowGraph) (access : Access) (defsBefore usesBefore : List (NodeId × Facts)) :
    List DataDep :=
  g.statements.flatMap fun n =>
    depsInto g access ((defsBefore.lookup n).getD []) ((usesBefore.lookup n).getD []) n

/-- The blocks reached from the arm `start` of block `b` without passing one of `b`'s
post-dominators, nearest first. -/
def controlledBlocks (g : FlowGraph) (postDoms : List BlockSet) (b start : Nat) : List Nat :=
  let undecided := fun x => !(postDoms.getD b []).has x
  explore (fun x => (g.succs x).filter undecided) g.size ([start].filter undecided)

def controlDepsOf (g : FlowGraph) (postDoms : List BlockSet) (b : Nat) : List ControlDep :=
  match (g.block? b).bind (·.terminator?) with
  | none => []
  | some cond => (g.labeledSuccs b).flatMap fun (arm, label) =>
    (controlledBlocks g postDoms b arm).flatMap fun x =>
      (g.nodes x).map fun n => ⟨cond, n, label == .taken⟩

def controlDeps (g : FlowGraph) (postDoms : List BlockSet) : List ControlDep :=
  (List.range g.size).flatMap (controlDepsOf g postDoms)

/-- Run every analysis with the given cap on passes. -/
def analyzeFlow (g : FlowGraph) (access : Access) (params : List String) (cap : Nat) : FlowFacts :=
  let defs := reachingDefs access params
  let uses := reachingUses access
  let solved := defs.solve g cap
  let solvedUses := uses.solve g cap
  let defsBefore := defs.before g solved.outs
  let postDoms := g.postDominators cap
  { access := access
    defsBefore := defsBefore
    passes := solved.passes
    converged := solved.converged
    usesConverged := solvedUses.converged
    usesPasses := solvedUses.passes
    postDoms := postDoms
    deps := (controlDeps g postDoms).foldl DepTable.addControl
      ((dataDeps g access defsBefore (uses.before g solvedUses.outs)).foldl DepTable.addData []) }

end Retarget
