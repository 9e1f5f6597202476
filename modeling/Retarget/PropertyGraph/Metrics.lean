/-
# PropertyGraph.Metrics -- complexity, loops, dead values, repeated work, side effects
-/
import Retarget.Kernel.CText
import Retarget.PropertyGraph.Query
import Retarget.Tally

namespace Retarget

open Retarget.Source (Node NodeId BinaryOp)
open Retarget.Text (contains addNew)

namespace FlowGraph

variable (g : FlowGraph)

def edgeCount : Nat := total (g.blocks.map (·.succs.length))

/-- Edges less blocks plus two. -/
def complexity : Int := (g.edgeCount : Int) - g.size + 2

/-- How far a depth-first walk has come with a block. -/
inductive Visit where
  | unvisited | open_ | done
deriving DecidableEq, Repr, Inhabited

/-- A block on the walk's stack and the successors it has still to try. -/
structure Frame where
  block : Nat
  rest : List Nat
deriving Repr, Inhabited

structure Walk where
  stack : List Frame
  visits : List Visit
  /-- Blocks met again while still open. -/
  headers : List Nat
deriving Repr, Inhabited

/-- One move: close the top block, pass over a successor, or open it. -/
def walkStep (w : Walk) : Walk :=
  match w.stack with
  | [] => w
  | ⟨b, []⟩ :: below => { w with stack := below, visits := w.visits.set b .done }
  | ⟨b, s :: rest⟩ :: below =>
    let here := ⟨b, rest⟩ :: below
    match w.visits.getD s .done with
    | .open_ => { w with stack := here, headers := s :: w.headers }
    | .unvisited =>
      { w with stack := ⟨s, g.succs s⟩ :: here, visits := w.visits.set s .open_ }
    | .done => { w with stack := here }

def walkSteps : Nat → Walk → Walk
  | 0, w => w
  | n + 1, w => walkSteps n (g.walkStep w)

/-- The blocks that a back edge of a depth-first walk leads to, in ascending order. Every block
is opened and closed once and every edge tried once, which bounds the number of moves. -/
def loopHeaders : List Nat :=
  let moves := 2 * g.size + g.edgeCount
  let start : Walk :=
    { stack := [⟨g.entry, g.succs g.entry⟩]
      visits := (List.replicate g.size Visit.unvisited).set g.entry .open_
      headers := [] }
  let w := g.walkSteps moves start
  (List.range g.size).filter w.headers.contains

end FlowGraph

namespace PropertyGraph

variable (g : PropertyGraph)

/-- Definitions whose value nobody reads. -/
def deadDefinitions (k : KernelId) : List (NodeId × String) :=
  match g.builtKernel? k with
  | none => []
  | some b => b.stmts.flatMap fun n =>
    ((b.facts.access.defs n).filter fun v => (g.readers n v).isEmpty).map fun v => (n, v)

end PropertyGraph

/-! ## Repeated expressions -/

def isArithmetic : BinaryOp → Bool
  | .add | .sub | .mul | .div | .rem | .bitAnd | .bitOr | .bitXor | .shl | .shr => true
  | _ => false

def countText (counts : List (String × Nat)) (text : String) : List (String × Nat) :=
  if (counts.lookup text).isSome then
    counts.map fun (t, n) => if t == text then (t, n + 1) else (t, n)
  else counts ++ [(text, 1)]

namespace SourceUnit

variable (u : SourceUnit)

/-- The arithmetic expressions that occur more than once in a kernel, by their text. -/
def commonExpressions (k : KernelFn) : List (String × Nat) :=
  let nodes := (k.body.map Node.preorder).getD []
  let texts := nodes.filterMap fun n =>
    match n with
    | .binary _ op _ _ => if isArithmetic op then some (u.print n) else none
    | _ => none
  (texts.foldl countText []).filter (1 < ·.2)

/-! ## Side effects -/

/-- A store to anything but a plain variable. -/
def storeEffect (target : Node) : List String :=
  match target with
  | .name .. => []
  | _ => ["writes " ++ u.print target]

/-- Calls to functions that are not kernels of the unit. -/
def outsideEffect (name : String) : List String :=
  if contains name Kernel.vectorMark then
    if contains name "store" || contains name "stream" then ["vector store " ++ name] else []
  else ["calls unknown " ++ name]

/-- The effects of the nodes of a body. A kernel already in `visited` is not judged again; the
answer includes the kernels visited so far. `judge` gives the effects of another kernel. -/
def nodeEffects (judge : KernelFn → List KernelId → List String × List KernelId)
    (state : List String × List KernelId) (n : Node) : List String × List KernelId :=
  let (effects, visited) := state
  match n with
  | .assign _ _ targets _ => (effects ++ targets.flatMap u.storeEffect, visited)
  | .step _ _ x => (effects ++ u.storeEffect x, visited)
  | .call _ callee args _ =>
    if u.scope.converts callee args then state
    else
      let name := Kernel.nameOfCallee callee
      match u.named? name with
      | some k =>
        if visited.contains k.id then state
        else
          let (inner, visited) := judge k (k.id :: visited)
          (if inner.isEmpty then effects else effects ++ ["calls impure " ++ name], visited)
      | none => (effects ++ outsideEffect name, visited)
  | _ => state

/-- The effects of a kernel besides its result, each once; `depth` bounds the chain of calls,
which no longer chain than the number of kernels can exceed. -/
def effectsFrom : Nat → KernelFn → List KernelId → List String × List KernelId
  | 0, _, visited => ([], visited)
  | depth + 1, k, visited =>
    match k.body with
    | none => (["external function " ++ k.name], visited)
    | some b =>
      let (effects, visited) := b.preorder.foldl (u.nodeEffects (effectsFrom depth)) ([], visited)
      (addNew [] effects, visited)

def sideEffects (k : KernelFn) : List String :=
  (u.effectsFrom (u.kernels.length + 1) k [k.id]).1

def isPure (k : KernelFn) : Bool := k.hasBody && (u.sideEffects k).isEmpty

end SourceUnit

end Retarget
