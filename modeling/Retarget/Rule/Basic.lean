/-
# Rule.Basic -- patterns and the code that replaces them

A rule pairs the operations of the source side with one template for each target it supports.
-/
import Retarget.Rule.Template
import Retarget.Text.Integer

namespace Retarget

open Retarget.Text (sorted readDecimal)

/-- What a rule applies to. -/
structure Pattern where
  id : String := ""
  description : String := ""
  operations : List String := []
  nodeTypes : List String := []
  constraints : List (String × String) := []
deriving Repr, DecidableEq, Inhabited

structure Rule where
  id : String
  name : String := ""
  category : String := ""
  /-- Higher wins; of equals, the rule registered first. -/
  priority : Int := 0
  pattern : Pattern := {}
  templates : List (String × Template) := []
  /-- Targets that are named without a template; no registered rule has any. -/
  blanks : List String := []
  speedup : Int := 0
  sizeImpact : Int := 0
  /-- The catalog the rule came from. -/
  source : String := ""
deriving Repr, DecidableEq, Inhabited

namespace Rule

variable (r : Rule)

def template? (arch : String) : Option Template := r.templates.lookup arch

/-- The targets the rule has templates for, sorted. -/
def architectures : List String := sorted (r.templates.map (·.1))

def matchesOperation (operation : String) : Bool := r.pattern.operations.contains operation

def constraint? (key : String) : Option String := r.pattern.constraints.lookup key

/-- The number of parameters a rule asks for, or -1 when it asks for none. -/
def numParams : Int :=
  match r.constraint? "num_params" with
  | some text => (readDecimal text).value?.getD (-1)
  | none => -1

/-- Whether the rule agrees with every field that `p` sets. -/
def matchesPattern (p : Pattern) : Bool :=
  (p.id == "" || p.id == r.pattern.id) &&
    (p.operations.isEmpty || p.operations.any r.pattern.operations.contains) &&
    (p.nodeTypes.isEmpty || p.nodeTypes.any r.pattern.nodeTypes.contains) &&
    p.constraints.all fun (key, value) => (r.constraint? key).getD "" == value

end Rule

end Retarget
