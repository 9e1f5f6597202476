/-
# Flow.Graph -- flow graphs of kernels

Blocks hold the numbers of the nodes executed one after the other. A block has either one
successor, or two with the labels true and false; then its last node decides between them. The
last block is the exit: it is empty and has no successor.

Nothing here looks at the syntax: the analyses are stated for any graph of this shape.
-/
import Retarget.Source.Node

namespace Retarget

open Retarget.Source (NodeId)

/-- Which way control leaves a block. -/
inductive BranchLabel where
  | always | taken | skipped
deriving DecidableEq, Repr, Inhabited

def BranchLabel.text : BranchLabel → String
  | always => ""
  | taken => "T"
  | skipped => "F"

/-- The role of a block in the statement it was made for. -/
inductive BlockKind where
  | body | ifThen | ifDone | ifElse | forBody | forDone | forLoop | forPost | rangeLoop
  | rangeBody | rangeDone | switchDone | switchCaseBody | switchNextCase | label | unreachable
  | exit
deriving DecidableEq, Repr, Inhabited

def BlockKind.name : BlockKind → String
  | body => "Body"
  | ifThen => "IfThen"
  | ifDone => "IfDone"
  | ifElse => "IfElse"
  | forBody => "ForBody"
  | forDone => "ForDone"
  | forLoop => "ForLoop"
  | forPost => "ForPost"
  | rangeLoop => "RangeLoop"
  | rangeBody => "RangeBody"
  | rangeDone => "RangeDone"
  | switchDone => "SwitchDone"
  | switchCaseBody => "SwitchCaseBody"
  | switchNextCase => "SwitchNextCase"
  | label => "Label"
  | unreachable => "Unreachable"
  | exit => "Exit"

structure Block where
  kind : BlockKind
  nodes : List NodeId
  succs : List (Nat × BranchLabel)
  /-- The statement whose condition ends the block. -/
  branch : Option NodeId
deriving Repr, Inhabited

namespace Block

/-- The condition that decides between two successors. -/
def terminator? (b : Block) : Option NodeId :=
  if b.succs.length == 2 then b.nodes.getLast? else none

end Block

structure FlowGraph where
  blocks : List Block
deriving Repr, Inhabited

namespace FlowGraph

variable (g : FlowGraph)

def size : Nat := g.blocks.length

def entry (_g : FlowGraph) : Nat := 0

def exit : Nat := g.size - 1

def block? (i : Nat) : Option Block := g.blocks[i]?

def nodes (i : Nat) : List NodeId := ((g.block? i).map (·.nodes)).getD []

def labeledSuccs (i : Nat) : List (Nat × BranchLabel) := ((g.block? i).map (·.succs)).getD []

def succs (i : Nat) : List Nat := (g.labeledSuccs i).map (·.1)

/-- The blocks that lead to `i`, once for every edge, in block order. -/
def preds (i : Nat) : List Nat :=
  (List.range g.size).flatMap fun j => ((g.succs j).filter (· == i)).map fun _ => j

/-- Every node of every block, in block order. -/
def statements : List NodeId := g.blocks.flatMap (·.nodes)

/-- The block that holds a node. -/
def blockOf? (n : NodeId) : Option Nat := g.blocks.findIdx? fun b => b.nodes.contains n

end FlowGraph

end Retarget
