/-
# Analysis.Report -- results as text

A report opens with a heading underlined to its length in bytes. Its sections name a count and
list one item on a line. The comprehensive report ends with the generated code.
-/
import Retarget.Analysis.Run
import Retarget.Text.Bytes

namespace Retarget

open Retarget.Text (splitAt join sorted addNew byteLength repeated)

namespace Report

/-! ## Layout -/

/-- The first letter of a word as a capital. -/
def capitalized (word : String) : String :=
  match word.toList with
  | [] => ""
  | c :: cs => String.ofList (c.toUpper :: cs)

/-- Every word of a heading with a capital. -/
def titled (text : String) : String := join " " ((splitAt ' ' text).map capitalized)

/-- A heading with what it is about, underlined. -/
def heading (text subject : String) : String :=
  let line := titled text ++ subject
  line ++ "\n" ++ repeated "=" (byteLength line) ++ "\n\n"

def sectionHead (name : String) (n : Nat) : String :=
  "## " ++ titled name ++ " (" ++ toString n ++ ")\n"

def bullets (items : List String) : String :=
  String.join (items.map fun item => "  - " ++ item ++ "\n") ++ "\n"

/-- A section that lists its items. -/
def listing (name : String) (items : List String) : String :=
  sectionHead name items.length ++ bullets items

/-- A section that is left out when it is empty. -/
def optListing (name : String) (items : List String) : String :=
  if items.isEmpty then "" else listing name items

/-! ## One kernel -/

variable (r : AnalysisResult)

/-- Complexity, memory and suggestions. -/
def performance : String :=
  heading "performance report for" (": " ++ r.function) ++
    "Cyclomatic Complexity: " ++ toString r.stats.complexity ++ "\n" ++
    "Estimated Memory: " ++ toString r.stats.memoryBytes ++ " bytes\n\n" ++
    "Optimization Suggestions (" ++ toString r.suggestions.length ++ "):\n" ++
    bullets r.suggestions

/-- The suggestions as numbered steps. -/
def plan : String :=
  heading "optimization plan for" (": " ++ r.function) ++
    (if r.suggestions.isEmpty then "Nothing to do.\n" else "") ++
    String.join (r.suggestions.zipIdx.map fun (s, i) =>
      "Step " ++ toString (i + 1) ++ ": " ++ s ++ "\n")

/-- The intrinsics of a graph by name, with their number. -/
def patterns (g : OperationGraph) : List String :=
  let names := (g.vectorNodes.filter (!·.isDefine)).map (·.operation)
  (sorted (addNew [] names)).map fun n => n ++ " x" ++ toString (names.count n)

/-- The only reduction that is recognised. -/
def reductionName : String := "sum"

def loopVerdict (p : LoopPattern) : String :=
  if p.isVectorizable then
    "vectorizable" ++ match p.reduction with
      | some v => " " ++ reductionName ++ " reduction of " ++ v
      | none => ""
  else join "; " p.reasons

def loopLine (l : AnalysedLoop) : String :=
  let p := l.pattern
  p.iterator ++ " = " ++ toString p.start ++ " to " ++ p.bound ++ " step " ++ toString p.step ++
    ": " ++ loopVerdict p ++ match l.error with
      | some e => " (no " ++ r.target.name ++ " code: " ++ e.message ++ ")"
      | none => ""

/-- How the iterations of a loop can run side by side. -/
def parallelLine? (p : LoopPattern) : Option String :=
  if p.isCarried then none
  else
    some ("loop over " ++ p.iterator ++ " can be parallelized " ++ match p.reduction with
      | some v => "as a " ++ reductionName ++ " reduction of " ++ v ++
        " (partial results combined after the loop)"
      | none => "(no loop-carried dependences)")

def callLine (i : Inlined) : String :=
  i.context.site.callee ++ ": " ++ match i.error with
    | some e => e.message
    | none => (i.context.rule.map (·.id)).getD ""

def dependenceLines : List String :=
  ["flow: " ++ toString r.stats.flowDeps, "anti: " ++ toString r.stats.antiDeps,
    "output: " ++ toString r.stats.outputDeps, "control: " ++ toString r.stats.controlDeps]

/-- The code of a kernel, then that of its vectorized loops. -/
def generated : String :=
  "## " ++ titled "generated code" ++ " (" ++ r.target.name ++ ": " ++
    toString r.stats.ruleApplied ++ " by rule, " ++ toString r.stats.fallbacks ++
    " by fallback)\n" ++ r.code ++
    String.join ((r.loops.filter (·.code != "")).map fun l => "\n" ++ l.code)

/-- Everything that was found out about a kernel. -/
def comprehensive (elapsed : String) : String :=
  let top := heading "comprehensive analysis report" "" ++
    "Function: " ++ r.function ++ "\n" ++
    "Translation: " ++ r.source.name ++ " -> " ++ r.target.name ++ "\n" ++
    "Elapsed: " ++ elapsed ++ "\n\n"
  if !r.successful then top ++ listing "errors" r.errors
  else
    top ++ "## " ++ titled "performance metrics" ++ "\n" ++ performance r ++
      listing "SIMD patterns" ((r.conversion.map fun c => patterns c.graph).getD []) ++
      listing "loops" (r.loops.map (loopLine r)) ++
      sectionHead "dependences" r.stats.dependences ++ bullets (dependenceLines r) ++
      optListing "calls in loops" (r.inlined.map callLine) ++
      listing "optimization suggestions" r.suggestions ++
      optListing "concurrency opportunities"
        (r.loops.filterMap fun l => parallelLine? l.pattern) ++
      generated r

/-! ## All kernels -/

/-- The functions outside the unit that a kernel calls. -/
def externalCalls (a : Analyzer) (k : KernelFn) : List String :=
  addNew [] (((a.graph.callsFrom k.id).filter (·.target.isNone)).map fun c =>
    ((a.unit.node? c.call).map Kernel.calleeName).getD "")

/-- Who calls whom. -/
def callGraph (a : Analyzer) (results : List AnalysisResult) : String :=
  let graph := a.graph.callGraph a.unit
  let within := (sorted (graph.map (·.1))).map fun caller =>
    caller ++ " -> " ++ join ", " ((graph.lookup caller).getD []) ++ "\n"
  let outside := a.unit.kernels.filterMap fun k =>
    match externalCalls a k with
    | [] => none
    | names => some (k.name ++ " calls outside the unit: " ++ join ", " names ++ "\n")
  heading "call graph report" "" ++
    "Total functions analyzed: " ++ toString results.length ++ "\n" ++
    "Successful: " ++ toString (results.countP (·.successful)) ++ "\n\n" ++
    String.join within ++ String.join outside

end Report

end Retarget
