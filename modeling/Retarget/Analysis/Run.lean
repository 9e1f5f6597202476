/-
# Analysis.Run -- the whole way from a unit to its results

An analyzer holds a unit with its property graph and what is known of its kernels. Kernels are
analysed in order, and each sees the unit as the expansions before it left it. A kernel that
cannot be analysed fails alone; a run that was called off before it began analyses nothing.
-/
import Retarget.Analysis.Result
import Retarget.Settings

namespace Retarget

open Retarget.Text (join)

/-- The message of a run that was called off. -/
def cancelledMessage : String := "context canceled"

/-- Why an analysis does not start or does not end. -/
inductive AnalysisError where
  | settings (faults : List Settings.Fault)
  | rules (cause : LoadError)
  | cancelled
deriving Repr, DecidableEq, Inhabited

def AnalysisError.message : AnalysisError → String
  | settings faults => Settings.Fault.messages faults
  | rules cause => cause.message
  | cancelled => cancelledMessage

structure Analyzer where
  settings : Settings
  source : Architecture
  target : Architecture
  graph : PropertyGraph
  /-- The unit, the rules and the kernels looked at. -/
  inliner : Inliner

/-- The circumstances of a run: whether it was called off, and how long a kernel is said to
take. -/
structure Circumstances where
  cancelled : Bool := false
  elapsed : String := "0s"
deriving Inhabited

namespace Analyzer

/-- Prepare the analysis of a unit. -/
def new (u : SourceUnit) (s : Settings) (w : Workspace) : Logged (Except AnalysisError Analyzer) :=
  match s.faults, s.architectures with
  | [], .ok (source, target) => do
    match ← s.database w with
    | .error e => return .error (.rules e)
    | .ok db =>
      return .ok {
        settings := s, source := source, target := target
        graph := PropertyGraph.new, inliner := { unit := u, rules := db } }
  | [], .error e => pure (.error (.settings [e]))
  | faults, _ => pure (.error (.settings faults))

variable (a : Analyzer)

def unit : SourceUnit := a.inliner.unit

def rules : Database := a.inliner.rules

/-- Build the property graph of the unit. A run that was called off stops at its first
kernel. -/
def buildUnit (c : Circumstances) : Logged (Except AnalysisError Analyzer) :=
  if c.cancelled && !a.unit.kernels.isEmpty then pure (.error .cancelled)
  else do
    let g ← a.graph.buildUnit a.unit
    return .ok { a with graph := g }

/-! ## One kernel -/

/-- The result of a kernel before anything is known. -/
def blank (k : KernelFn) : AnalysisResult :=
  { kernel := k.id, function := k.name, source := a.source, target := a.target }

def emitter (k : KernelFn) (g : OperationGraph) : Emitter :=
  { unit := a.unit, kernel := k, graph := g, rules := a.rules, target := a.target
    headers := a.settings.headers }

def loops (k : KernelFn) : List AnalysedLoop :=
  if a.settings.loops then
    (LoopPattern.ofKernel a.unit k).map (AnalysedLoop.ofPattern a.unit a.target)
  else []

/-- The result with its counts and suggestions. -/
def concluded (r : AnalysisResult) (c : Conversion) (e : Emission) : AnalysisResult :=
  let k := (a.unit.kernel? r.kernel).getD default
  let stats := { AnalysisStats.ofKernel a.unit a.graph k with
    nodes := c.nodes
    edges := c.edges
    vectorNodes := c.graph.vectorNodes.length
    ruleApplied := e.ruleApplied
    fallbacks := e.fallbacks
    loops := r.loops.length
    vectorizableLoops := r.loops.countP (·.pattern.isVectorizable)
    inlinableCalls := r.inlined.countP (·.error.isNone) }
  { r with stats := stats, suggestions := stats.suggestions a.target }

/-- Analyse a kernel that has a body. -/
def analyseBody (k : KernelFn) : Logged (Analyzer × AnalysisResult) := do
  let g ← a.graph.build a.unit k
  let (c, g) ← convert a.unit g k (some a.source) (some a.target)
  let a := { a with graph := g }
  let r := { a.blank k with conversion := some c }
  if !c.successful then return (a, { r with errors := c.errors })
  let e ← (a.emitter k c.graph).generate
  let r := { r with emission := some e }
  if !e.successful then return (a, { r with errors := e.errors })
  let r := { r with loops := a.loops k }
  let (inliner, inlined) ← a.inliner.plan a.target k
  let a := { a with inliner := inliner }
  return (a, a.concluded { r with inlined := inlined } c e)

/-- What is said of a result. -/
def resultLog (c : Circumstances) (r : AnalysisResult) : LogEntry :=
  if r.successful then .info (r.function ++ ": analysed in " ++ c.elapsed)
  else .warn (r.function ++ ": " ++ join "; " r.errors)

/-- Analyse a kernel. -/
def analyse (c : Circumstances) (k : KernelFn) : Logged (Analyzer × AnalysisResult) := do
  let (a, r) ←
    if c.cancelled then pure (a, { a.blank k with errors := [cancelledMessage] })
    else if !k.hasBody then pure (a, { a.blank k with errors := [k.name ++ " has no body"] })
    else a.analyseBody k
  Logged.tell (resultLog c r)
  return (a, r)

/-! ## All kernels -/

/-- Analyse kernels in order, each as the unit has it when its turn comes. -/
def analyseAll (c : Circumstances) (a : Analyzer) :
    List KernelId → Logged (Analyzer × List AnalysisResult)
  | [] => pure (a, [])
  | id :: ids =>
    match a.unit.kernel? id with
    | none => analyseAll c a ids
    | some k =>
      if k.hasBody then do
        let (a, r) ← a.analyse c k
        let (a, rs) ← analyseAll c a ids
        return (a, r :: rs)
      else analyseAll c a ids

/-- Build the property graph and analyse every kernel that has a body. -/
def analyseUnit (c : Circumstances) :
    Logged (Except AnalysisError (Analyzer × List AnalysisResult)) := do
  match ← a.buildUnit c with
  | .error e => return .error e
  | .ok a => return .ok (← analyseAll c a (a.unit.kernels.map (·.id)))

end Analyzer

end Retarget
