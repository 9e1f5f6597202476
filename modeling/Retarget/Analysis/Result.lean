/-
# Analysis.Result -- what is found out about one kernel

The outcome of analysing a kernel: its operation graph, its target code, its loops, the calls
that become vector code, and the counts and suggestions drawn from them.
-/
import Retarget.Analysis.Footprint
import Retarget.Emission.Generate
import Retarget.Inline.Plan
import Retarget.Loop.Vector
import Retarget.PropertyGraph.Query
import Retarget.Tally

namespace Retarget

/-- The counts of one kernel. -/
structure AnalysisStats where
  nodes : Nat := 0
  edges : Nat := 0
  vectorNodes : Nat := 0
  ruleApplied : Nat := 0
  fallbacks : Nat := 0
  complexity : Int := 0
  memoryBytes : Nat := 0
  loops : Nat := 0
  vectorizableLoops : Nat := 0
  inlinableCalls : Nat := 0
  deadDefinitions : Nat := 0
  commonExpressions : Nat := 0
  flowDeps : Nat := 0
  antiDeps : Nat := 0
  outputDeps : Nat := 0
  controlDeps : Nat := 0
deriving Repr, DecidableEq, Inhabited

namespace AnalysisStats

variable (s : AnalysisStats)

def dependences : Nat := s.flowDeps + s.antiDeps + s.outputDeps + s.controlDeps

/-- What the counts call for. -/
def suggestions (target : Architecture) : List String :=
  let advice (n : Nat) (before after : String) :=
    if 0 < n then [before ++ toString n ++ after] else []
  advice s.vectorizableLoops "Consider vectorizing " " loops" ++
    advice s.inlinableCalls "Inline " " calls as vector operations" ++
    advice s.deadDefinitions "Remove " " unused definitions" ++
    advice s.commonExpressions "Eliminate " " common subexpressions" ++
    advice s.fallbacks "Add rules for "
      (" statements copied unchanged to " ++ target.name)

end AnalysisStats

/-- A loop with its vector code, or why there is none. Code is only sought for a loop that can
be vectorized. -/
structure AnalysedLoop where
  pattern : LoopPattern
  code : String := ""
  error : Option LoopError := none
deriving Inhabited

namespace AnalysedLoop

def ofPattern (u : SourceUnit) (target : Architecture) (p : LoopPattern) : AnalysedLoop :=
  if p.isVectorizable then
    match p.generate u target.name with
    | .ok code => { pattern := p, code := code }
    | .error e => { pattern := p, error := some e }
  else { pattern := p }

end AnalysedLoop

/-- The outcome of analysing one kernel. It was successful unless there are errors. -/
structure AnalysisResult where
  kernel : KernelId
  function : String
  source : Architecture
  target : Architecture
  errors : List String := []
  conversion : Option Conversion := none
  emission : Option Emission := none
  loops : List AnalysedLoop := []
  inlined : List Inlined := []
  stats : AnalysisStats := {}
  suggestions : List String := []
deriving Inhabited

namespace AnalysisResult

variable (r : AnalysisResult)

def successful : Bool := r.errors.isEmpty

/-- The target code; empty when there is none. -/
def code : String := (r.emission.map (·.code)).getD ""

end AnalysisResult

/-- The data dependences a statement is the source of. -/
def PropertyGraph.outgoing (g : PropertyGraph) (stmt : Source.NodeId) : List DataDep :=
  (g.dataDepsOf stmt).filter (·.source == stmt)

/-- The counts that come from the graphs of a kernel. -/
def AnalysisStats.ofKernel (u : SourceUnit) (g : PropertyGraph) (k : KernelFn) : AnalysisStats :=
  let stmts := g.statements k.id
  let data := stmts.flatMap g.outgoing
  let count (kind : DepKind) := (data.filter (·.kind == kind)).length
  { complexity := ((u.flowGraph? k).map (·.complexity)).getD 0
    memoryBytes := k.footprint
    deadDefinitions := (g.deadDefinitions k.id).length
    commonExpressions := (u.commonExpressions k).length
    flowDeps := count .flow
    antiDeps := count .anti
    outputDeps := count .output
    controlDeps := total (stmts.map fun n => (g.controllers n).length) }

end Retarget
