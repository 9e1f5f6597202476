/-
# Rule.Database -- registered rules and how they are found

Rules are kept in the order of their registration. Within a category they are tried by
descending priority, equals in that order.
-/
import Retarget.Rule.Basic

namespace Retarget

open Retarget.Text (sorted addNew)

inductive RuleError where
  | noId
  | duplicate (id : String)
  | emptyTemplate (id arch : String)
  | badTemplate (id arch : String) (cause : TemplateError)
deriving Repr, DecidableEq, Inhabited

def RuleError.message : RuleError → String
  | noId => "rule without id"
  | duplicate id => "duplicate rule id: " ++ id
  | emptyTemplate id arch => "rule " ++ id ++ ": empty template for " ++ arch
  | badTemplate id arch cause => "rule " ++ id ++ ", " ++ arch ++ ": " ++ cause.message

structure Database where
  rules : List Rule := []
deriving Repr, Inhabited

namespace Database

/-- The built-in categories. -/
def vectorCategory : String := "simd_instruction"
def inlineCategory : String := "function_inline"

variable (db : Database)

def size : Nat := db.rules.length

def rule? (id : String) : Option Rule := db.rules.find? (·.id == id)

/-! ## Registration -/

/-- Why the templates of a rule are refused. -/
def templateError? (r : Rule) : Option RuleError :=
  match r.blanks.head? with
  | some arch => some (.emptyTemplate r.id arch)
  | none => r.templates.findSome? fun (arch, t) =>
      t.compileError?.map (.badTemplate r.id arch)

/-- Register a rule; a refused rule changes nothing. -/
def add (r : Rule) : Except RuleError Database :=
  if r.id == "" then .error .noId
  else if (db.rule? r.id).isSome then .error (.duplicate r.id)
  else match templateError? r with
    | some e => .error e
    | none =>
      let compiled := { r with templates := r.templates.map fun (arch, t) => (arch, t.compiled) }
      .ok { db with rules := db.rules ++ [compiled] }

/-! ## Queries -/

/-- Descending priority, keeping the order of equals. -/
def byPriority (rules : List Rule) : List Rule :=
  rules.mergeSort fun a b => b.priority ≤ a.priority

def query (category : String) : List Rule :=
  byPriority (db.rules.filter (·.category == category))

def all : List Rule := byPriority db.rules

/-- The rules that agree with a pattern, in priority order. -/
def queryPattern (p : Pattern) : List Rule := db.all.filter (·.matchesPattern p)

/-- The best rule for an operation, the categories searched in order. -/
def match? (operation : String) (categories : List String) : Option Rule :=
  if operation == "" then none
  else categories.findSome? fun c => (db.query c).find? (·.matchesOperation operation)

def categories : List String := sorted (addNew [] (db.rules.map (·.category)))

/-- The number of rules in each category. -/
def statistics : List (String × Nat) := db.categories.map fun c => (c, (db.query c).length)

end Database

end Retarget
