/-
# Inline.Candidate -- which kernels may be expanded at a call

A kernel can be expanded when it is small, has no effect beyond its result and no control flow
of its own. What is known of it is also what the constraints of a rule are checked against.
-/
import Retarget.PropertyGraph.Metrics
import Retarget.Rule.Database

namespace Retarget

open Retarget.Source (Node)
open Retarget.Text (sorted addNew)

structure Candidate where
  kernel : KernelId
  name : String
  result : String
  numParams : Nat
  hasBody : Bool
  statements : Nat := 0
  isSmall : Bool := false
  isPure : Bool := false
  hasControlFlow : Bool := false
  hasReturn : Bool := false
  /-- The number of statements of the body itself. -/
  bodyLength : Nat := 0
  read : List String := []
  modified : List String := []
deriving Repr, DecidableEq, Inhabited

namespace Candidate

/-- A kernel with fewer statements is small. -/
def maxStatements : Nat := 20

def canInline (c : Candidate) : Bool := c.isSmall && c.isPure && !c.hasControlFlow

def steers : Node → Bool
  | .ifStmt .. | .forStmt .. | .rangeStmt .. | .switchStmt .. => true
  | _ => false

def returnsValue : Node → Bool
  | .ret _ results => !results.isEmpty
  | _ => false

/-- The variables a statement changes without declaring them. -/
def modifiedBy : Node → List String
  | .assign _ .define _ _ => []
  | .assign _ _ targets _ => targets.filterMap Kernel.Scope.definedName?
  | .step _ _ x => x.name?.toList
  | _ => []

def ofKernel (u : SourceUnit) (k : KernelFn) : Candidate :=
  let known : Candidate :=
    { kernel := k.id, name := k.name, result := k.result, numParams := k.params.length
      hasBody := k.hasBody }
  match k.body with
  | none => known
  | some body =>
    let nodes := body.preorder
    let statements := (nodes.filter (·.isStmt)).length
    { known with
      statements := statements
      isSmall := statements < maxStatements
      isPure := u.isPure k
      hasControlFlow := nodes.any steers
      hasReturn := nodes.any returnsValue
      bodyLength := match body with
        | .block _ stmts => stmts.length
        | _ => 0
      read := u.scope.refs body
      modified := sorted (addNew [] (nodes.flatMap modifiedBy)) }

def boolText (b : Bool) : String := if b then "true" else "false"

/-- The values that the constraints of a rule name. -/
def facts (c : Candidate) : List (String × String) :=
  [("num_params", toString c.numParams), ("is_pure", boolText c.isPure),
    ("has_return", boolText c.hasReturn), ("num_statements", toString c.bodyLength)]

end Candidate

/-- The expression of a body that is one return statement. -/
def KernelFn.returned? (k : KernelFn) : Option Node :=
  match k.body with
  | some (.block _ [.ret _ [x]]) => some x
  | _ => none

namespace Rule

/-- Whether the known facts meet every constraint. A strict rule needs all of them known. -/
def satisfiedBy (r : Rule) (facts : List (String × String)) (strict : Bool) : Bool :=
  r.pattern.constraints.all fun (key, wanted) =>
    match facts.lookup key with
    | some got => got == wanted
    | none => !strict

end Rule

namespace Database

/-- The rule for a call: one that names the callee, or one without names for a kernel that is
a single returned expression. -/
def inlineRule? (db : Database) (name : String) (args : Nat) (c : Option Candidate)
    (single : Bool) : Option Rule :=
  let facts := match c with
    | some c => if c.hasBody then c.facts else [("num_params", toString args)]
    | none => [("num_params", toString args)]
  (db.query inlineCategory).find? fun r =>
    let byName := !r.pattern.operations.isEmpty
    (if byName then r.matchesOperation name else single) && r.satisfiedBy facts (!byName)

end Database

end Retarget
