/-
# Analysis.Trace -- one variable of a kernel

The values of a variable are traced back from its last use and forward from its first
definition, across calls; between the two, the paths of limited length are counted.
-/
import Retarget.Analysis.Report
import Retarget.PropertyGraph.Trace

namespace Retarget

open Retarget.Source (NodeId)
open Retarget.Text (splitAt)

structure VariableTrace where
  function : String
  var : String
  /-- What feeds the last statement that reads the variable. -/
  sources : List TraceStep := []
  /-- What reads the first statement that defines it. -/
  sinks : List TraceStep := []
  /-- The number of paths from the first definition to the last use. -/
  paths : Nat := 0
  maxDepth : Int
deriving Repr, Inhabited

inductive TraceError where
  | noBody (function : String)
  | unused (function var : String)
deriving Repr, DecidableEq, Inhabited

def TraceError.message : TraceError → String
  | noBody function => function ++ " has no body"
  | unused function var => function ++ " does not use " ++ var

namespace Analyzer

variable (a : Analyzer)

/-- The first statement that defines a variable and the last that reads it. -/
def endsOf (k : KernelFn) (var : String) : Option NodeId × Option NodeId :=
  let stmts := a.graph.statements k.id
  (stmts.find? fun s => (a.graph.variablesAt s).1.contains var,
    (stmts.filter fun s => (a.graph.variablesAt s).2.contains var).getLast?)

/-- Trace a variable in the graph as it is built. -/
def traceBuilt (k : KernelFn) (var : String) : Except TraceError VariableTrace :=
  let ends := a.endsOf k var
  if ends.1.isNone && ends.2.isNone then .error (.unused k.name var)
  else
    let back (s : NodeId) := a.graph.traceBackward a.unit s var a.settings.traceDepth
    let forth (s : NodeId) := a.graph.traceForward a.unit s var a.settings.traceDepth
    .ok {
      function := k.name, var := var, maxDepth := a.settings.maxPathDepth
      sources := (ends.2.map back).getD []
      sinks := (ends.1.map forth).getD []
      paths := match ends with
        | (some first, some last) =>
          (a.graph.allPaths first last a.settings.maxPathDepth).length
        | _ => 0 }

/-- Trace a variable of a kernel, whose graph is built if it is not yet. -/
def trace (k : KernelFn) (var : String) : Logged (Analyzer × Except TraceError VariableTrace) :=
  if !k.hasBody then pure (a, .error (.noBody k.name))
  else do
    let g ← a.graph.build a.unit k
    let a := { a with graph := g }
    return (a, a.traceBuilt k var)

/-- The first line of the statement a step reached. -/
def stepLine (s : TraceStep) : String :=
  let text := ((splitAt '\n' (a.unit.printId s.stmt)).head?).getD ""
  ((a.unit.kernel? s.kernel).map (·.name)).getD "" ++ ": " ++ text ++
    if s.via.isSome then " (passes " ++ s.var ++ ")" else ""

end Analyzer

namespace Report

def trace (a : Analyzer) (t : VariableTrace) : String :=
  heading "data trace for" (": " ++ t.function ++ "." ++ t.var) ++
    listing "sources" (t.sources.map a.stepLine) ++ listing "sinks" (t.sinks.map a.stepLine) ++
    "Paths from first definition to last use: " ++ toString t.paths ++ " (at most " ++
    toString t.maxDepth ++ " nodes)\n"

end Report

end Retarget
