/-
# Kernel.Unit -- a file of kernels

A source unit is one parsed file. Its kernels are the top-level functions in source order,
each known by its position; when several have the same name, the name means the last. A
function without a body stands for an opaque external one.

Trees may change after parsing, so the unit keeps them in one place and every other
result names a node by its number; `SourceUnit.node?` gives the present form of a node.
-/
import Retarget.Kernel.Scope
import Retarget.Source.Parser
import Retarget.Text.Quoted

namespace Retarget

open Retarget.Source (Node NodeId FuncDecl TopDecl SourceFile LineTable parseFile)
open Retarget.Kernel (Scope cType)
open Retarget.Text (startsWith trim quoted)

structure Param where
  name : String
  ctype : String
  index : Nat
deriving Repr, DecidableEq, Inhabited

abbrev KernelId := Nat

structure KernelFn where
  id : KernelId
  name : String
  params : List Param
  /-- C spelling of the result type. -/
  result : String
  start : Nat
  stop : Nat
  body : Option Node
  /-- The return implied where control runs into the closing brace. -/
  fallOff : Node
  vars : List (String × String)
deriving Inhabited

namespace KernelFn

def hasBody (k : KernelFn) : Bool := k.body.isSome

def param? (k : KernelFn) (name : String) : Option Param := k.params.find? (·.name == name)

/-- The type of a variable; empty when unknown. -/
def declaredType (k : KernelFn) (name : String) : String := (k.vars.lookup name).getD ""

end KernelFn

structure SourceUnit where
  file : String
  lines : LineTable
  scope : Scope
  kernels : List KernelFn
  /-- A kernel is known by its position. -/
  numbered : kernels.map (·.id) = List.range kernels.length := by decide

instance : Inhabited SourceUnit := ⟨{ file := "", lines := default, scope := {}, kernels := [] }⟩

/-- The unit with its kernels changed, each keeping its position. -/
def SourceUnit.mapKernels (u : SourceUnit) (f : KernelFn → KernelFn)
    (keeps : ∀ k, (f k).id = k.id) : SourceUnit :=
  { u with
    kernels := u.kernels.map f
    numbered := by
      rw [List.map_map, List.length_map, ← u.numbered]
      exact List.map_congr_left fun k _ => keeps k }

/-! ## Building a unit -/

/-- The parameters a field declares, numbered from `first`. -/
def fieldParams (first : Nat) : Node → List Param
  | .field _ [] t _ => [⟨"", cType t, first⟩]
  | .field _ names t _ =>
    names.zipIdx first |>.map fun (x, i) => ⟨x.name?.getD "", cType t, i⟩
  | _ => []

def paramsOf : Node → List Param
  | .fieldList _ fields =>
    fields.foldl (fun acc f => acc ++ fieldParams acc.length f) []
  | _ => []

/-- A function with one result field has its type; all others are `void`. -/
def resultOf : Option Node → String
  | some (.fieldList _ [.field _ _ t _]) => cType t
  | _ => "void"

def kernelOf (id : KernelId) (d : FuncDecl) : KernelFn where
  id := id
  name := d.name
  params := paramsOf d.params
  result := resultOf d.results
  start := d.start
  stop := d.stop
  body := d.body
  fallOff := .ret ⟨d.fallOff, d.stop - 1, d.stop + 5⟩ []
  vars := []

def functionsOf (decls : List TopDecl) : List FuncDecl :=
  decls.filterMap fun d =>
    match d with
    | .func f => if f.isMethod then none else some f
    | _ => none

def typesOf (decls : List TopDecl) : List String :=
  decls.flatMap fun d =>
    match d with
    | .types names => names
    | _ => []

def paramTypes (params : List Param) : List (String × String) :=
  params.foldl (fun vars p => if p.name == "" then vars else Scope.record vars p.name p.ctype) []

def unitOf (file : String) (parsed : SourceFile) : SourceUnit :=
  let kernels := (functionsOf parsed.decls).zipIdx.map fun (d, i) => kernelOf i d
  let scope : Scope :=
    { types := typesOf parsed.decls, results := kernels.reverse.map fun k => (k.name, k.result) }
  let unit : SourceUnit :=
    { file := file
      lines := parsed.lines
      scope := scope
      kernels := kernels
      numbered := by simp [kernels, kernelOf, Function.comp_def, List.range_eq_range'] }
  unit.mapKernels (fun k => { k with vars := scope.variableTypes (paramTypes k.params) k.body })
    fun _ => rfl

/-- Why a unit cannot give what was asked of it. -/
inductive UnitError where
  | malformed (file : String)
  | noFunction (file name : String)
deriving Repr, DecidableEq, Inhabited

namespace UnitError

/-- The text of a syntax error is left to the reader of the file. -/
def message : UnitError → String
  | malformed file => "parse " ++ file
  | noFunction file name => file ++ ": " ++ quoted name ++ ": no such function"

end UnitError

namespace SourceUnit

/-- Parse a file that has its own package clause. -/
def parse (file text : String) : Except UnitError SourceUnit :=
  match parseFile text with
  | some parsed => .ok (unitOf file parsed)
  | none => .error (.malformed file)

/-- Parse kernel text, to which a package clause is added when it has none. -/
def parseKernels (file text : String) : Except UnitError SourceUnit :=
  if startsWith (trim text) "package " then parse file text
  else parse file ("package kernels\n\n" ++ text)

/-! ## Looking things up -/

variable (u : SourceUnit)

def kernel? (id : KernelId) : Option KernelFn := u.kernels[id]?

/-- The kernel a name means. -/
def named? (name : String) : Option KernelFn := u.kernels.reverse.find? (·.name == name)

def lookup (name : String) : Except UnitError KernelFn :=
  match u.named? name with
  | some k => .ok k
  | none => .error (.noFunction u.file name)

def isConversion (n : Node) : Bool := u.scope.isConversion n

/-- The kernel a direct call invokes; nothing for conversions and for names not declared here. -/
def callee? (call : Node) : Option KernelFn :=
  if u.isConversion call then none else u.named? (Kernel.calleeName call)

/-- The kernel whose declaration spans `n`. -/
def enclosing? (n : Node) : Option KernelFn :=
  u.kernels.find? fun k => k.start ≤ n.start && n.stop ≤ k.stop

/-- The trees of the unit: every body, then the returns implied at its end. -/
def trees : List Node :=
  u.kernels.flatMap fun k => k.body.toList ++ (if k.hasBody then [k.fallOff] else [])

/-- The present form of a node. -/
def node? (id : NodeId) : Option Node :=
  u.trees.findSome? fun t =>
    if t.id == id then some t
    else t.preorder.find? fun n => n.id == id

/-- The declaration statement that holds a specification. -/
def declOf? (spec : NodeId) : Option Node :=
  u.trees.findSome? fun t => t.preorder.find? fun n =>
    match n with
    | .declStmt _ (.decl _ _ specs) => specs.any fun s => s.id == spec
    | _ => false

/-- Line and column of a node. -/
def place (n : Node) : Int × Int := u.lines.place n.start

/-- The type of an expression as seen from a kernel. -/
def typeOf (k : KernelFn) (n : Node) : String := u.scope.typeOf k.vars n

def isFloat (k : KernelFn) (n : Node) : Bool := Kernel.isFloatType (u.typeOf k n)

end SourceUnit

end Retarget
