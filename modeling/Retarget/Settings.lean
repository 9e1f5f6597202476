/-
# Settings -- what a run is asked for

Settings start from defaults, then the environment, then options. They name the two
architectures, bound the searches and list further rule catalogs. Everything that is wrong
with them is reported at once.
-/
import Retarget.Architecture
import Retarget.Rule.Builtin
import Retarget.Text.Integer
import Retarget.Workspace

namespace Retarget

open Retarget.Text (splitAt trim join readDecimal)

structure Settings where
  /-- The architecture code is written for. -/
  target : String := "SVE"
  /-- The architecture of the intrinsics in the source. -/
  source : String := "AVX2"
  /-- The most nodes on a path that is searched for. -/
  maxPathDepth : Int := 10
  /-- The most calls a trace goes through. -/
  traceDepth : Int := 5
  /-- Catalog files loaded after the built-in ones. -/
  rules : List String := []
  /-- Whether generated code starts with include lines. -/
  headers : Bool := true
  /-- Whether reports show vectorized loops. -/
  loops : Bool := true
  verbose : Bool := false
deriving Repr, DecidableEq, Inhabited

namespace Settings

/-! ## The environment -/

/-- The variables a run can see. An empty one counts as not set. -/
abbrev Environment := List (String × String)

def Environment.get? (env : Environment) (name : String) : Option String :=
  (env.lookup name).filter (· != "")

/-- The words of a comma-separated list, without blanks and empty ones. -/
def listed (text : String) : List String := ((splitAt ',' text).map trim).filter (· != "")

/-- The spellings that switch something on. -/
def affirmatives : List String :=
  ["1", "t", "T", "true", "True", "TRUE", "y", "Y", "yes", "Yes", "YES", "enable", "Enable",
    "ENABLE", "enabled", "Enabled", "ENABLED", "positive", "Positive", "POSITIVE",
    "affirmative", "Affirmative", "AFFIRMATIVE", "absolutely", "Absolutely", "ABSOLUTELY"]

/-- The defaults with what the environment says. A number that cannot be read is passed
over. -/
def ofEnvironment (env : Environment) : Settings :=
  let base : Settings := {}
  let number (name : String) (fallback : Int) : Int :=
    ((env.get? name).bind fun text => (readDecimal text).value?).getD fallback
  { base with
    target := (env.get? "AODSOLVE_TARGET").getD base.target
    source := (env.get? "AODSOLVE_SOURCE").getD base.source
    maxPathDepth := number "AODSOLVE_MAX_PATH_DEPTH" base.maxPathDepth
    traceDepth := number "AODSOLVE_TRACE_DEPTH" base.traceDepth
    rules := ((env.get? "AODSOLVE_RULES").map listed).getD base.rules
    verbose := (env.get? "AODSOLVE_VERBOSE").any affirmatives.contains }

/-! ## Faults -/

inductive Fault where
  | target (cause : Architecture.Unknown)
  | source (cause : Architecture.Unknown)
  | maxPathDepth (got : Int)
  | traceDepth (got : Int)
deriving Repr, DecidableEq, Inhabited

namespace Fault

def message : Fault → String
  | target cause => "target: " ++ cause.message
  | source cause => "source: " ++ cause.message
  | maxPathDepth got => "max path depth must be positive, got " ++ toString got
  | traceDepth got => "trace depth must not be negative, got " ++ toString got

def isArchitecture : Fault → Bool
  | target _ | source _ => true
  | _ => false

/-- Several faults, one on a line. -/
def messages (faults : List Fault) : String := join "\n" (faults.map message)

end Fault

variable (s : Settings)

/-- The architectures of the source and of the target. -/
def architectures : Except Fault (Architecture × Architecture) := do
  let source ← (Architecture.lookup s.source).mapError .source
  let target ← (Architecture.lookup s.target).mapError .target
  return (source, target)

def architectureFault? (name : String) (fault : Architecture.Unknown → Fault) : List Fault :=
  match Architecture.lookup name with
  | .ok _ => []
  | .error e => [fault e]

/-- Everything that is wrong, the target first. -/
def faults : List Fault :=
  architectureFault? s.target .target ++ architectureFault? s.source .source ++
    (if s.maxPathDepth < 1 then [.maxPathDepth s.maxPathDepth] else []) ++
    (if s.traceDepth < 0 then [.traceDepth s.traceDepth] else [])

/-! ## Rules -/

/-- Load catalog files in order, up to the first that cannot be loaded. -/
def loadFiles (w : Workspace) (db : Database) : List String → Logged (Except LoadError Database)
  | [] => pure (.ok db)
  | file :: files =>
    match w.read file with
    | .error (.isDirectory _) => pure (.error (.malformed file))
    | .error e => pure (.error (.unreadable file e))
    | .ok text => do
      let loaded ← db.load text file
      match loaded.error with
      | some e => return .error e
      | none => loadFiles w loaded.database files

/-- The built-in rules and those of the catalogs listed. -/
def database (w : Workspace) : Logged (Except LoadError Database) := do
  loadFiles w (← Builtin.database) s.rules

end Settings

end Retarget
