/-
# Flow.PostDominance -- blocks that every way out passes through

A block post-dominates another if every path from there to the exit goes through it. The sets
shrink from full ones until nothing changes: a block's set is itself and what its successors'
sets have in common. A set is a row of words, one bit for each block.
-/
import Retarget.Flow.Graph

namespace Retarget

/-- Membership of each block: block `i` is bit `i % 64` of word `i / 64`. -/
abbrev BlockSet := List UInt64

namespace BlockSet

def none (n : Nat) : BlockSet := List.replicate ((n + 63) / 64) 0

/-- The place of a block in its word. -/
def bit (i : Nat) : UInt64 := 1 <<< (UInt64.ofNat i % 64)

def insert (s : BlockSet) (i : Nat) : BlockSet := s.modify (i / 64) (· ||| bit i)

def all (n : Nat) : BlockSet := (List.range n).foldl insert (none n)

def has (s : BlockSet) (i : Nat) : Bool := s.getD (i / 64) 0 &&& bit i != 0

def inter (a b : BlockSet) : BlockSet := List.zipWith (· &&& ·) a b

/-- The members below `n` in ascending order. -/
def toList (n : Nat) (s : BlockSet) : List Nat := (List.range n).filter s.has

end BlockSet

namespace FlowGraph

variable (g : FlowGraph)

/-- What the successors' sets have in common, and the block itself. -/
def postDomStep (sets : List BlockSet) (i : Nat) : BlockSet :=
  let common := match g.succs i with
    | [] => BlockSet.none g.size
    | s :: rest => rest.foldl (fun acc t => acc.inter (sets.getD t [])) (sets.getD s [])
  common.insert i

def postDomVisit (state : List BlockSet × Bool) (i : Nat) : List BlockSet × Bool :=
  if i == g.exit then state
  else
    let next := g.postDomStep state.1 i
    if next == state.1.getD i [] then state else (state.1.set i next, true)

/-- One pass over the blocks from the last to the first. -/
def postDomPass (sets : List BlockSet) : List BlockSet × Bool :=
  (List.range g.size).reverse.foldl g.postDomVisit (sets, false)

def postDomIterate : Nat → List BlockSet → List BlockSet
  | 0, sets => sets
  | cap + 1, sets =>
    match g.postDomPass sets with
    | (sets, true) => postDomIterate cap sets
    | (sets, false) => sets

/-- The post-dominators of every block, after at most `cap` passes. -/
def postDominators (cap : Nat) : List BlockSet :=
  g.postDomIterate cap <| (List.range g.size).map fun i =>
    if i == g.exit then (BlockSet.none g.size).insert i else BlockSet.all g.size

end FlowGraph

end Retarget
