/-
# Kernel.Scope -- names that are types, and names that are variables

Kernels are parsed and never type-checked. Whether a name is a type is read off its spelling
and off the types declared in the file; this decides which calls are conversions, and so which
names an expression refers to.
-/
import Retarget.Kernel.CType

namespace Retarget.Kernel

open Retarget.Source (Node)
open Retarget.Text (contains startsWith endsWith addNew)

/-- The type names a file declares, and the result types of its functions by name. -/
structure Scope where
  types : List String := []
  results : List (String × String) := []
deriving Inhabited

namespace Scope

variable (scope : Scope)

/-- Built-in and C scalar names, `_t` names, vector types, and the types of the file. -/
def isTypeName (name : String) : Bool :=
  cScalarTypes.contains name || (builtinTypes.lookup name).isSome || scope.types.contains name ||
    endsWith name "_t" || startsWith name "__m"

def isTypeExpr : Node → Bool
  | .name _ text => scope.isTypeName text
  | .paren _ x => isTypeExpr x
  | .deref _ x => isTypeExpr x
  | .arrayType .. | .mapType .. | .chanType .. | .funcType .. => true
  | _ => false

/-- A call of a type with one argument converts. -/
def converts (callee : Node) (args : List Node) : Bool :=
  args.length == 1 && scope.isTypeExpr callee

def isConversion : Node → Bool
  | .call _ callee args _ => scope.converts callee args
  | _ => false

/-- Remove enclosing parentheses and conversions. -/
def strip : Node → Node
  | .paren _ x => strip x
  | .call m callee [x] spread =>
    if scope.converts callee [x] then strip x else .call m callee [x] spread
  | n => n

end Scope

/-- The name a callee is known by; nothing for an indirect call. -/
def nameOfCallee (callee : Node) : String :=
  match callee.unparen with
  | .name _ text => text
  | .select _ _ (.name _ text) => text
  | .index _ (.name _ text) _ => text
  | _ => ""

def calleeName : Node → String
  | .call _ callee _ _ => nameOfCallee callee
  | _ => ""

/-- A callee with this mark in its name is a vector intrinsic. -/
def vectorMark : String := "_mm"

namespace Scope

variable (scope : Scope)

def isVectorCall (n : Node) : Bool :=
  match scope.strip n with
  | .call m callee args spread =>
    !scope.isConversion (.call m callee args spread) && contains (nameOfCallee callee) vectorMark
  | _ => false

/-- The calls below `n` that convert nothing, in source order. Function literals are not
entered, and of a loop over a range only the header counts. -/
def calls (n : Node) : List Node :=
  let entered := n.visit fun m slot =>
    match m with
    | .funcLit .. => false
    | .rangeStmt .. => slot == 2
    | _ => true
  entered.filter fun m =>
    match m with
    | .call _ callee args _ => !scope.converts callee args
    | _ => false

/-! ## Variables referred to -/

def isPredeclared (name : String) : Bool := ["_", "nil", "true", "false", "iota"].contains name

/-- Which slots can refer to variables. Callee names, fields, keys and the types of composite
values and conversions cannot, nor does anything inside a function literal. -/
def refersThrough (m : Node) (slot : Nat) : Bool :=
  match m with
  | .funcLit .. => false
  | .call _ callee args _ =>
    slot == 1 || (!scope.converts callee args && callee.unparen.name?.isNone)
  | .select .. => slot == 0
  | .composite .. => slot == 1
  | .keyValue .. => slot == 1
  | _ => true

def isVariable (name : String) : Bool := !isPredeclared name && !scope.isTypeName name

/-- The variables below `n` in the order of their first mention. -/
def refs (n : Node) : List String :=
  addNew [] (((n.visit scope.refersThrough).filterMap Node.name?).filter scope.isVariable)

/-! ## Definitions and uses -/

structure DefUse where
  defs : List String := []
  uses : List String := []
deriving Repr, DecidableEq, Inhabited

def DefUse.append (a b : DefUse) : DefUse := ⟨addNew a.defs b.defs, addNew a.uses b.uses⟩

def useAll (nodes : List Node) : DefUse :=
  nodes.foldl (fun acc n => acc.append ⟨[], scope.refs n⟩) ({} : DefUse)

/-- An assignment defines a bare name and uses whatever another target is built from. -/
def targetDefUse (updates : Bool) (target : Node) : DefUse :=
  match target with
  | .name _ "_" => {}
  | .name _ text => ⟨[text], if updates then [text] else []⟩
  | _ => ⟨[], scope.refs target⟩

def definedName? : Node → Option String
  | .name _ text => if text == "_" then none else some text
  | _ => none

def specDefUse (names values : List Node) : DefUse :=
  DefUse.append ⟨addNew [] (names.filterMap definedName?), []⟩ (scope.useAll values)

/-- The variables a node of a flow graph writes and reads. A store through a pointer or an
index reads its base; updates and steps both write and read their target; of control
statements only the header counts. -/
def defUse (n : Node) : DefUse :=
  match n with
  | .assign _ op targets values =>
    (targets.foldl (fun acc t => acc.append (scope.targetDefUse op.isUpdate t)) ({} : DefUse)).append
      (scope.useAll values)
  | .step _ _ (.name _ text) => ⟨[text], [text]⟩
  | .step _ _ x => ⟨[], scope.refs x⟩
  | .valueSpec _ _ names _ values => scope.specDefUse names values
  | .declStmt _ (.decl _ _ specs) =>
    specs.foldl (fun acc s =>
      match s with
      | .valueSpec _ _ names _ values => acc.append (scope.specDefUse names values)
      | _ => acc) ({} : DefUse)
  | .rangeStmt _ key value x _ =>
    ⟨addNew [] ((key.toList ++ value.toList).filterMap definedName?), scope.refs x⟩
  | .ifStmt _ _ cond _ _ => ⟨[], scope.refs cond⟩
  | .forStmt _ _ (some cond) _ _ => ⟨[], scope.refs cond⟩
  | .forStmt .. => {}
  | _ => ⟨[], scope.refs n⟩

/-! ## Types of expressions -/

/-- A best-effort C type, empty when it cannot be told. `vars` gives the types of variables. -/
def typeOf (vars : List (String × String)) : Node → String
  | .name _ text => (vars.lookup text).getD ""
  | .literal _ .float _ => "float"
  | .literal _ .int _ => "int"
  | .literal _ .char _ => "char"
  | .literal _ .string _ => "char *"
  | .paren _ x => typeOf vars x
  | .deref _ x => pointee (typeOf vars x)
  | .index _ x _ => pointee (typeOf vars x)
  | .unary _ op x =>
    match op with
    | .address => let t := typeOf vars x; if t == "" then "" else t ++ " *"
    | .not => "bool"
    | _ => typeOf vars x
  | .binary _ op x y =>
    if op.isLogical then "bool"
    else
      let t := typeOf vars x
      let u := typeOf vars y
      if isFloatType t then t else if isFloatType u then u else if t != "" then t else u
  | .call _ callee args _ =>
    if scope.converts callee args then cType callee.unparen
    else (scope.results.lookup (nameOfCallee callee)).getD ""
  | _ => ""

/-- Record a variable's type; a later record replaces an earlier one. -/
def record (vars : List (String × String)) (name type : String) : List (String × String) :=
  if (vars.lookup name).isSome then
    vars.map fun (n, t) => if n == name then (n, type) else (n, t)
  else vars ++ [(name, type)]

/-- What one node declares, given the variables recorded so far. -/
def recordNode (vars : List (String × String)) (n : Node) : List (String × String) :=
  match n with
  | .valueSpec _ _ names (some t) _ =>
    names.foldl (fun vars x => record vars (x.name?.getD "") (cType t)) vars
  | .valueSpec _ _ names none values =>
    (names.zip values).foldl (fun vars (x, v) =>
      record vars (x.name?.getD "") (scope.typeOf vars v)) vars
  | .assign _ .define targets values =>
    if targets.length != values.length then vars
    else (targets.zip values).foldl (fun vars (x, v) =>
      match definedName? x with
      | some name => record vars name (scope.typeOf vars v)
      | none => vars) vars
  | .rangeStmt _ key value x _ =>
    let vars := match key with
      | some (.name _ text) => record vars text "long"
      | _ => vars
    match value with
    | some (.name _ text) => record vars text (pointee (scope.typeOf vars x))
    | _ => vars
  | _ => vars

/-- The declared or inferred types of the variables of a body, after those of its parameters. -/
def variableTypes (params : List (String × String)) (body : Option Node) :
    List (String × String) :=
  match body with
  | none => params
  | some b => b.preorder.foldl scope.recordNode params

end Scope

end Retarget.Kernel
