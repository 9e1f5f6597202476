/-
# Flow.Dataflow -- forward may-analyses over a flow graph

A fact says that a variable has a value from some origin: a node of the graph, or the entry of
the kernel. A forward analysis carries a set of facts through each block and joins what the
predecessors deliver. It is solved by passes over all blocks in order, in place, until a pass
changes nothing or a cap on the number of passes is reached; the number of passes is part of
the answer.
-/
import Retarget.Flow.Graph

namespace Retarget

open Retarget.Source (NodeId)

/-- A variable and the origin of its value; no origin means the entry of the kernel. -/
structure Fact where
  var : String
  origin : Option NodeId
deriving DecidableEq, Repr, Inhabited

/-- A finite set of facts, without repetition. -/
abbrev Facts := List Fact

namespace Facts

def join (a b : Facts) : Facts := b.foldl (fun acc f => if acc.contains f then acc else f :: acc) a

def isSubset (a b : Facts) : Bool := a.all b.contains

def same (a b : Facts) : Bool := isSubset a b && isSubset b a

def without (facts : Facts) (var : String) : Facts := facts.filter (·.var != var)

end Facts

/-- What each node writes and reads. -/
structure Access where
  defs : NodeId → List String
  uses : NodeId → List String

/-- A forward analysis: the facts on entry and the effect of one node. -/
structure ForwardAnalysis where
  onEntry : Facts
  transfer : NodeId → Facts → Facts

namespace ForwardAnalysis

variable (a : ForwardAnalysis) (g : FlowGraph)

/-- What flows into block `i` when `outs` flows out of the blocks. -/
def inflow (outs : List Facts) (i : Nat) : Facts :=
  (g.preds i).foldl (fun acc p => Facts.join acc (outs.getD p []))
    (if i == g.entry then a.onEntry else [])

def through (nodes : List NodeId) (facts : Facts) : Facts :=
  nodes.foldl (fun st n => a.transfer n st) facts

/-- Recompute one block in place; the flag tells whether anything changed so far. -/
def visitBlock (state : List Facts × Bool) (i : Nat) : List Facts × Bool :=
  let next := a.through (g.nodes i) (a.inflow g state.1 i)
  if Facts.same next (state.1.getD i []) then state else (state.1.set i next, true)

/-- One pass over all blocks in order. -/
def pass (outs : List Facts) : List Facts × Bool :=
  (List.range g.size).foldl (a.visitBlock g) (outs, false)

/-- The outcome of the passes. -/
structure Outcome where
  outs : List Facts
  passes : Nat
  converged : Bool
deriving Repr, Inhabited

/-- At most `cap` further passes, after `done` passes. -/
def iterate : Nat → Nat → List Facts → Outcome
  | 0, done, outs => ⟨outs, done, false⟩
  | cap + 1, done, outs =>
    match a.pass g outs with
    | (outs, true) => iterate cap (done + 1) outs
    | (outs, false) => ⟨outs, done + 1, true⟩

def solve (cap : Nat) : Outcome := a.iterate g cap 0 (List.replicate g.size [])

/-- The facts before each node of a block that starts with `facts`. -/
def beforeEach (facts : Facts) : List NodeId → List (NodeId × Facts)
  | [] => []
  | n :: rest => (n, facts) :: beforeEach (a.transfer n facts) rest

/-- The facts before every node of the graph, in block order. -/
def before (outs : List Facts) : List (NodeId × Facts) :=
  (List.range g.size).flatMap fun i => a.beforeEach (a.inflow g outs i) (g.nodes i)

end ForwardAnalysis

/-! ## The two analyses -/

/-- Definitions that may still hold: a node replaces whatever was known of what it writes. -/
def reachingDefs (access : Access) (params : List String) : ForwardAnalysis where
  onEntry := Facts.join [] (params.map fun p => ⟨p, none⟩)
  transfer n facts :=
    (access.defs n).foldl (fun st v => ⟨v, some n⟩ :: Facts.without st v) facts

/-- Reads that no write has followed yet: a node adds its reads and then removes what it
writes. -/
def reachingUses (access : Access) : ForwardAnalysis where
  onEntry := []
  transfer n facts :=
    let read := (access.uses n).foldl (fun st v => Facts.join st [⟨v, some n⟩]) facts
    (access.defs n).foldl Facts.without read

end Retarget
