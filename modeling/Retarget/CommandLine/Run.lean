/-
# CommandLine.Run -- commands carried out

A command analyses its inputs, which are files or samples, and says what it found. It reads
files and tells its effects, and leaves them to be performed by its caller.
-/
import Retarget.Analysis.Trace
import Retarget.CommandLine.Columns
import Retarget.CommandLine.Effect
import Retarget.CommandLine.Help
import Retarget.Operation.Dot
import Retarget.PropertyGraph.Dot
import Retarget.Samples

namespace Retarget

open Retarget.Text (startsWith dropStart join quoted)

/-! ## Errors -/

inductive CommandError where
  | usage (cause : UsageError)
  | settings (faults : List Settings.Fault)
  | unreadable (cause : FileError)
  | unknownSample (name : String)
  | source (cause : UnitError)
  | analysis (cause : AnalysisError)
  | rules (cause : LoadError)
  | trace (cause : TraceError)
  /-- No input declares the function. -/
  | noFunction (name : String)
  | unknownReport (name : String)
  | unknownGraph (name : String)
  | undrawable (function : String) (causes : List String)
  | unwritten (failed total : Nat)
  | noStore (path : String)
  /-- An error found in one of the inputs. -/
  | within (input : String) (cause : CommandError)
deriving Repr, Inhabited

def CommandError.message : CommandError → String
  | usage cause => cause.message
  | settings faults => Settings.Fault.messages faults
  | unreadable cause => cause.message
  | unknownSample name =>
    "unknown kernel " ++ quoted name ++ " (have " ++ join ", " (Sample.all.map (·.name)) ++ ")"
  | source cause => cause.message
  | analysis cause => cause.message
  | rules cause => cause.message
  | trace cause => cause.message
  | noFunction name => quoted name ++ ": no such function"
  | unknownReport name =>
    "unknown report " ++ quoted name ++ " (have " ++ join ", " Command.reportKinds ++ ")"
  | unknownGraph name => "unknown graph " ++ quoted name ++ " (have icfg, pdg, aod)"
  | undrawable function causes => function ++ ": " ++ join "; " causes
  | unwritten failed total =>
    toString failed ++ " of " ++ toString total ++ " functions failed to translate"
  | noStore path => "open sqlite: " ++ path
  | within input cause => input ++ ": " ++ cause.message

/-- What a command comes to. -/
structure Outcome where
  effects : List Effect := []
  error : Option CommandError := none
  /-- Whether everything that was logged is shown. -/
  verbose : Bool := false
deriving Inhabited

/-! ## Inputs -/

/-- What a command finds when it starts. -/
structure Session where
  environment : Settings.Environment := []
  workspace : Workspace := {}
  circumstances : Circumstances := {}
deriving Inhabited

/-- A step of a command: it may say something, and may fail. -/
abbrev Attempt := ExceptT CommandError Logged

namespace Attempt

def say {α : Type} (x : Logged α) : Attempt α := ExceptT.lift x

/-- Go on with an analysis that did not fail. -/
def analysis {α : Type} (x : Logged (Except AnalysisError α)) : Attempt α := do
  match ← say x with
  | .ok a => return a
  | .error e => throw (.analysis e)

/-- Name the input an error was found in. -/
def within {α : Type} (input : String) (x : Attempt α) : Attempt α :=
  tryCatch x fun e => throw (.within input e)

end Attempt

/-- The mark of an input that is a sample. -/
def sampleMark : String := "kernel:"

/-- Read one input: a file, or a sample by its name. -/
def loadInput (w : Workspace) (input : String) : Except CommandError SourceUnit :=
  if startsWith input sampleMark then
    let name := dropStart input sampleMark
    match Sample.find? name with
    | some s => (SourceUnit.parseKernels s.file s.text).mapError .source
    | none => .error (.unknownSample name)
  else do
    let text ← (w.read input).mapError .unreadable
    (SourceUnit.parse input text).mapError .source

/-- Without inputs, all samples. -/
def inputsOf (operands : List String) : List String :=
  if operands.isEmpty then Sample.all.map fun s => sampleMark ++ s.name else operands

/-- One input with its results. -/
structure AnalysedInput where
  input : String
  analyzer : Analyzer
  results : List AnalysisResult

namespace Session

variable (s : Session) (settings : Settings)

def analyzer (u : SourceUnit) : Attempt Analyzer :=
  Attempt.analysis (Analyzer.new u settings s.workspace)

/-- Analyse all kernels of a unit, or the one that has the name. -/
def analyseUnit (u : SourceUnit) (func : String) : Attempt (Analyzer × List AnalysisResult) := do
  let a ← s.analyzer settings u
  if func == "" then Attempt.analysis (a.analyseUnit s.circumstances)
  else
    match u.named? func with
    | none => return (a, [])
    | some k =>
      let a ← Attempt.analysis (a.buildUnit s.circumstances)
      let (a, r) ← Attempt.say (a.analyse s.circumstances k)
      return (a, [r])

def analyseInput (func input : String) : Attempt AnalysedInput := do
  let u ← loadInput s.workspace input
  let (a, rs) ← Attempt.within input (s.analyseUnit settings u func)
  return { input := input, analyzer := a, results := rs }

/-- Analyse every input. If a function is named, one of them has to declare it. -/
def analyseInputs (operands : List String) (func : String) : Attempt (List AnalysedInput) := do
  let all ← (inputsOf operands).mapM (s.analyseInput settings func)
  if func != "" && all.all (·.results.isEmpty) then throw (.noFunction func)
  return all

/-- The one input of a command, the function it names, and the unit with its graph. -/
def singleUnit (input func : String) : Attempt (Analyzer × KernelFn) := do
  let u ← loadInput s.workspace input
  let k ← (u.lookup func).mapError CommandError.source
  let a ← s.analyzer settings u
  return (← Attempt.analysis (a.buildUnit s.circumstances), k)

/-! ## Commands -/

/-- The file the code of a kernel is written to. -/
def outputFile (directory : String) (r : AnalysisResult) : String :=
  Path.within directory (r.function ++ "_" ++ r.target.name.toLower ++ ".c")

/-- Show the code of one kernel, store it under `out`, or complain that there is none. -/
def deliver (out input : String) (r : AnalysisResult) : List Effect :=
  if !r.successful then
    [.complain ("Error: " ++ input ++ ": " ++ r.function ++ ": " ++ join "; " r.errors ++ "\n")]
  else if out == "" then [.print ("// " ++ input ++ ": " ++ r.function ++ "\n" ++ r.code ++ "\n")]
  else
    let path := outputFile out r
    [.writeFile path r.code, .print ("wrote " ++ path ++ "\n")]

def translate (i : Invocation) : Attempt Outcome := do
  let out := i.given.text "out" ""
  let all ← s.analyseInputs settings i.operands (i.given.text "func" "")
  let results := all.flatMap (·.results)
  let failed := results.countP (!·.successful)
  return {
    effects := (if out == "" then [] else [.makeDirectory out]) ++
      all.flatMap fun a => a.results.flatMap (deliver out a.input)
    error := if failed == 0 then none else some (.unwritten failed results.length) }

/-- The reports of one kernel; of a kernel that failed, only the comprehensive one. -/
def reportsOf (reports : List String) (r : AnalysisResult) : List String :=
  (if reports.contains "comprehensive" then
    [Report.comprehensive r s.circumstances.elapsed] else []) ++
  (if reports.contains "performance" && r.successful then [Report.performance r] else []) ++
  (if reports.contains "plan" && r.successful then [Report.plan r] else [])

def reportInput (reports : List String) (a : AnalysedInput) : List String :=
  a.results.flatMap (s.reportsOf reports) ++
    if reports.contains "callgraph" && !a.results.isEmpty then
      [a.input ++ "\n" ++ Report.callGraph a.analyzer a.results]
    else []

def analyze (i : Invocation) : Attempt Outcome := do
  let reports := i.given.list "report" Command.usualReports
  match reports.find? (!Command.reportKinds.contains ·) with
  | some name => throw (.unknownReport name)
  | none =>
    let all ← s.analyseInputs settings i.operands (i.given.text "func" "")
    return { effects := (all.flatMap (s.reportInput reports)).map fun t => .print (t ++ "\n") }

def dot (i : Invocation) : Attempt Outcome := do
  let func := i.given.text "func" ""
  let (a, k) ← s.singleUnit settings ((i.operands.head?).getD "") func
  let graph := i.given.text "graph" Command.usualGraph
  if graph == "icfg" then return { effects := [.print (a.graph.flowDot a.unit k)] }
  else if graph == "pdg" then return { effects := [.print (a.graph.dependenceDot a.unit k)] }
  else if graph == "aod" then
    let (_, r) ← Attempt.say (a.analyse s.circumstances k)
    match r.conversion with
    | some c => return { effects := [.print c.graph.dot] }
    | none => throw (.undrawable func r.errors)
  else throw (.unknownGraph graph)

def trace (i : Invocation) : Attempt Outcome := do
  let (a, k) ← s.singleUnit settings ((i.operands.head?).getD "") (i.given.text "func" "")
  let (a, t) ← Attempt.say (a.trace k (i.given.text "var" ""))
  match t with
  | .ok t => return { effects := [.print (Report.trace a t)] }
  | .error e => throw (.trace e)

/-- One category and its rules, with tabs between the cells. -/
def categoryListing (db : Database) (category : String) : String :=
  let rules := db.query category
  category ++ " (" ++ toString rules.length ++ ")\n" ++
    String.join (rules.map fun r =>
      join "\t" ["  " ++ r.id, toString r.priority, join "," r.pattern.operations,
        join "," r.architectures, r.source] ++ "\n")

/-- All categories, or the one that is named. -/
def ruleListing (db : Database) (category : String) : String :=
  let shown := db.categories.filter fun c => category == "" || c == category
  toString db.size ++ " rules in " ++ toString db.categories.length ++ " categories\n\n" ++
    Columns.align (String.join (shown.map (categoryListing db)))

def rules (i : Invocation) : Attempt Outcome := do
  match ← Attempt.say (settings.database s.workspace) with
  | .error e => throw (.rules e)
  | .ok db =>
    if i.given.switch "export" then return { effects := [.print (db.exported?.getD "")] }
    else return { effects := [.print (ruleListing db (i.given.text "category" ""))] }

def storeLine (path : String) (t : Archive) : String :=
  path ++ ": " ++ toString t.functions.length ++ " functions (" ++ toString t.successful ++
    " translated), " ++ toString t.nodes.length ++ " ICFG nodes, " ++
    toString t.dependences.length ++ " dependences, " ++ toString t.operations.length ++
    " AOD nodes\n"

def archive (i : Invocation) : Attempt Outcome := do
  let path := i.given.text "db" Command.usualStore
  let all ← s.analyseInputs settings i.operands ""
  if !s.workspace.canStore path then throw (.noStore path)
  let t ← all.foldlM (fun t a => Attempt.say (t.write a.input a.analyzer a.results)) {}
  return { effects := [.store path t, .print (storeLine path t)] }

/-- The description of a command, or of the whole program. -/
def helpText (command : Option Command) : String :=
  let s := Settings.ofEnvironment s.environment
  (command.map (Help.ofCommand s)).getD (Help.ofProgram s)

/-- The description of what the first word names. -/
def topicText : List String → String
  | [] => s.helpText none
  | name :: words =>
    match Command.ofName? name with
    | some c => s.helpText (some c)
    | none => Help.unknownTopic (Settings.ofEnvironment s.environment) (name :: words)

def carryOut (i : Invocation) : Command → Attempt Outcome
  | .translate => s.translate settings i
  | .analyze => s.analyze settings i
  | .dot => s.dot settings i
  | .trace => s.trace settings i
  | .rules => s.rules settings i
  | .archive => s.archive settings i
  | .help => return { effects := [.print (s.topicText i.operands)] }

/-- Carry out a command that was read. The settings are checked first, then the flags that
have to be given. -/
def invoke (i : Invocation) : Attempt Outcome := do
  match i.wantsHelp, i.command with
  | false, some c =>
    if !settings.faults.isEmpty then throw (.settings settings.faults)
    if !i.missing.isEmpty then throw (.usage (.notGiven i.missing))
    s.carryOut settings i c
  | _, _ => return { effects := [.print (s.helpText i.command)] }

/-- Carry out the words of a command. -/
def run (words : List String) : Logged Outcome :=
  match Invocation.ofWords words with
  | .error e => pure { error := some (.usage e) }
  | .ok i => do
    let settings := (Settings.ofEnvironment s.environment).withFlags i.given
    let outcome ← (s.invoke settings i).run
    return match outcome with
    | .ok o => { o with verbose := settings.verbose }
    | .error e => { error := some e, verbose := settings.verbose }

end Session

end Retarget
