/-
# PropertyGraph.Trace -- where a value comes from and where it goes

A backward trace lists the definitions that may produce a value, then those that feed them; a
forward trace lists the readers of a value, then the readers of what they define. Both cross
calls: backward from a parameter to the arguments passed for it, forward from an argument to
the readers of the parameter. A pair of statement and variable is followed once.
-/
import Retarget.PropertyGraph.Query
import Retarget.PropertyGraph.Build
import Retarget.Kernel.CText

namespace Retarget

open Retarget.Source (NodeId)

structure TraceStep where
  kernel : KernelId
  stmt : NodeId
  var : String
  /-- The budget left when the step was reached. -/
  depth : Nat
  /-- The call crossed to get here. -/
  via : Option NodeId := none
deriving DecidableEq, Repr, Inhabited

/-- The pairs followed so far and the steps found, in order. -/
structure Tracing where
  seen : List (NodeId × String) := []
  steps : List TraceStep := []
deriving Repr, Inhabited

namespace Tracing

def mark (t : Tracing) (stmt : NodeId) (var : String) : Tracing :=
  { t with seen := (stmt, var) :: t.seen }

def add (t : Tracing) (s : TraceStep) : Tracing := { t with steps := t.steps ++ [s] }

end Tracing

namespace PropertyGraph

variable (g : PropertyGraph) (u : SourceUnit)

/-- The variables mentioned in a node. -/
def refsOf (n : NodeId) : List String := ((u.node? n).map u.scope.refs).getD []

/-! ## Backward -/

/-- Follow `follow` through every use of the definition `d` of `var`. -/
def throughDefinition (follow : Tracing → NodeId → String → Tracing) (b : BuiltKernel)
    (var : String) (depth : Nat) (t : Tracing) (d : NodeId) : Tracing :=
  (b.facts.access.uses d).foldl (fun t v => follow t d v)
    (t.add { kernel := b.kernel, stmt := d, var := var, depth := depth })

/-- Follow `follow` through the argument that a call passes for parameter `p`. -/
def throughArgument (follow : Tracing → NodeId → String → Tracing) (p : Param) (depth : Nat)
    (t : Tracing) (call : CallRecord) : Tracing :=
  match call.args[p.index]?, (g.node? call.site).bind (·.stmt) with
  | some arg, some site =>
    (refsOf u arg).foldl (fun t v => follow t site v)
      (t.add { kernel := call.caller, stmt := site, var := u.printId arg, depth := depth,
               via := some call.call })
  | _, _ => t

/-- The first argument is one more than the depth still allowed. -/
def backward : Nat → Tracing → NodeId → String → Tracing
  | 0, t, _, _ => t
  | depth + 1, t, stmt, var =>
    if t.seen.contains (stmt, var) then t
    else
      let t := t.mark stmt var
      match g.infoOf? stmt with
      | none => t
      | some b =>
        let follow := backward depth
        let facts := b.facts.factsBefore stmt
        let t := (originsOf b.graph facts var).foldl (throughDefinition follow b var depth) t
        if !b.facts.isIncoming stmt var then t
        else match (u.kernel? b.kernel).bind (·.param? var) with
          | none => t
          | some p => (g.callsInto b.kernel).foldl (g.throughArgument u follow p depth) t

def budgetOf (depth : Int) : Nat := (depth + 1).toNat

def traceBackward (stmt : NodeId) (var : String) (depth : Int) : List TraceStep :=
  (g.backward u (budgetOf depth) {} (g.canonical stmt) var).steps

/-! ## Forward -/

/-- Record the reader `n` of parameter `p` unless a definition inside the kernel reaches it. -/
def readsParam (b : BuiltKernel) (p : String) (t : Tracing) (n : NodeId) : Bool :=
  !t.seen.contains (n, p) && (b.facts.access.uses n).contains p &&
    (originsOf b.graph (b.facts.factsBefore n) p).isEmpty

/-- The positions at which a call passes a value built from `var`. -/
def argumentsWith (var : String) (args : List NodeId) : List Nat :=
  (args.zipIdx.filter fun (a, _) => (refsOf u a).contains var).map (·.2)

/-- Go on from a statement that reads `var`: through what it defines, and into the kernels it
passes the value to. -/
def fromReader (follow : Tracing → NodeId → String → Tracing)
    (enter : Tracing → BuiltKernel → String → NodeId → Tracing)
    (t : Tracing) (n : NodeId) (var : String) : Tracing :=
  let defs := ((g.infoOf? n).map fun b => b.facts.access.defs n).getD []
  let t := defs.foldl (fun t v => follow t n v) t
  let calls := (((g.slotOf? n).bind g.node?).map (·.calls)).getD []
  calls.foldl (fun t call =>
    match u.node? call with
    | none => t
    | some c =>
      match u.callee? c with
      | none => t
      | some callee =>
        match g.builtKernel? callee.id with
        | none => t
        | some b => (argumentsWith u var (SourceUnit.callArgs c)).foldl (fun t i =>
            match callee.params[i]? with
            | some p => enter t b p.name call
            | none => t) t) t

mutual

/-- Follow the value of `var` defined at `stmt` to its readers; the first argument is one more
than the depth still allowed. -/
def forward : Nat → Tracing → NodeId → String → Tracing
  | 0, t, _, _ => t
  | depth + 1, t, stmt, var =>
    if t.seen.contains (stmt, var) then t
    else
      let t := t.mark stmt var
      match g.infoOf? stmt with
      | none => t
      | some b => (g.readers stmt var).foldl (fun t n =>
          g.fromReader u (forward depth) (enterKernel depth)
            (t.add { kernel := b.kernel, stmt := n, var := var, depth := depth }) n var) t

/-- Record the statements of a kernel that read parameter `p` as it came in. -/
def enterKernel : Nat → Tracing → BuiltKernel → String → NodeId → Tracing
  | 0, t, _, _, _ => t
  | depth + 1, t, b, p, via => b.stmts.foldl (fun t n =>
      if readsParam b p t n then
        g.fromReader u (forward depth) (enterKernel depth) ((t.mark n p).add
          { kernel := b.kernel, stmt := n, var := p, depth := depth, via := some via }) n p
      else t) t

end

def traceForward (stmt : NodeId) (var : String) (depth : Int) : List TraceStep :=
  (g.forward u (budgetOf depth) {} (g.canonical stmt) var).steps

end PropertyGraph

end Retarget
