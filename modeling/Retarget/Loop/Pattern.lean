/-
# Loop.Pattern -- counted loops and whether they can be vectorised

A pattern records what the header of a loop says of its iterator, the array subscripts and the
arithmetic of its body, and a sum it may accumulate. Three independent looks at the header find
the start, the bound and the step; a part they do not recognise keeps its default.
-/
import Retarget.Kernel.CText
import Retarget.Text.Integer

namespace Retarget

open Retarget.Source (Node NodeId BinaryOp AssignOp)
open Retarget.Text (readLiteral)

/-- One array subscript. -/
structure Subscript where
  array : String
  index : String
  isWrite : Bool
  /-- Whether the subscript is the iterator itself. -/
  isSequential : Bool
  /-- The type of the element, empty when it cannot be told. -/
  elemType : String
deriving Repr, DecidableEq, Inhabited

structure LoopOperation where
  kind : String
  operands : List String
deriving Repr, DecidableEq, Inhabited

structure LoopPattern where
  loop : NodeId
  iterator : String
  start : Int
  bound : String
  step : Int
  accesses : List Subscript
  operations : List LoopOperation
  /-- The variable a sum is accumulated in. -/
  reduction : Option String
  body : List Node
  elemType : String
deriving Inhabited

namespace Loop

/-! ## Headers -/

/-- What the header of a loop says. -/
structure Header where
  iterator : String := ""
  start : Int := 0
  bound : String := ""
  step : Int := 0
deriving Repr, DecidableEq, Inhabited

/-- The value of an integer literal, clamped to 64 bits. -/
def integerLiteral? : Node → Option Int
  | .literal _ .int text => some (readLiteral text).clamped
  | _ => none

/-- A bound is a variable or a literal. -/
def boundText (u : SourceUnit) (n : Node) : String :=
  match n with
  | .name .. | .literal .. => u.print n
  | _ => ""

def iteratorOf : Option Node → String
  | some (.assign _ _ [.name _ text] [_]) => text
  | _ => ""

def startOf : Option Node → Int
  | some (.assign _ _ [.name _ _] [value]) => (integerLiteral? value).getD 0
  | _ => 0

def boundOf (u : SourceUnit) (iterator : String) : Option Node → String
  | some (.binary _ .lt (.name _ text) y) => if text == iterator then boundText u y else ""
  | _ => ""

def stepOf : Option Node → Int
  | some (.step _ up _) => if up then 1 else 0
  | some (.assign _ (.update .add) _ [value]) => (integerLiteral? value).getD 0
  | _ => 0

def forHeader (u : SourceUnit) (init cond post : Option Node) : Header where
  iterator := iteratorOf init
  start := startOf init
  bound := boundOf u (iteratorOf init) cond
  step := stepOf post

/-- Types of a range that counts; an unknown type may count too. -/
def countingTypes : List String := ["", "int", "long", "size_t"]

def rangeHeader? (u : SourceUnit) (k : KernelFn) (key value : Option Node) (x : Node) :
    Option Header :=
  match key, value with
  | some (.name _ text), none =>
    if text == "_" || !countingTypes.contains (u.typeOf k x) then none
    else some { iterator := text, start := 0, bound := boundText u x, step := 1 }
  | _, _ => none

/-- The header and body of a loop; nothing when the loop is not counted. -/
def headerOf? (u : SourceUnit) (k : KernelFn) (loop : Node) : Option (Header × Node) :=
  let found := match loop with
    | .forStmt _ init cond post body => some (forHeader u init cond post, body)
    | .rangeStmt _ key value x body => (rangeHeader? u k key value x).map (·, body)
    | _ => none
  found.filter fun (h, _) => h.iterator != "" && h.bound != ""

/-! ## Bodies -/

def statementsOf : Node → List Node
  | .block _ stmts => stmts
  | _ => []

/-- The subscripts that a statement writes. -/
def writtenBy : Node → List NodeId
  | .assign _ _ targets _ => targets.filterMap fun t =>
      match t.unparen with
      | .index m _ _ => some m.id
      | _ => none
  | .step _ _ x =>
    match x.unparen with
    | .index m _ _ => [m.id]
    | _ => []
  | _ => []

def arrayName (n : Node) : String := (n.unparen.name?).getD "complex_expr"

def accessesOf (u : SourceUnit) (k : KernelFn) (iterator : String) (body : Node) : List Subscript :=
  let nodes := body.preorder
  let written := nodes.flatMap writtenBy
  nodes.filterMap fun n =>
    match n with
    | .index m x i => some {
        array := arrayName x
        index := u.print i
        isWrite := written.contains m.id
        isSequential := i.name? == some iterator
        elemType := u.typeOf k n }
    | _ => none

def binaryKind? : BinaryOp → Option String
  | .add => some "add"
  | .sub => some "sub"
  | .mul => some "mul"
  | .div => some "div"
  | _ => none

def updateKind? : AssignOp → Option String
  | .update .add => some "add_assign"
  | .update .sub => some "sub_assign"
  | .update .mul => some "mul_assign"
  | _ => none

def operationsOf (u : SourceUnit) (body : Node) : List LoopOperation :=
  body.preorder.filterMap fun n =>
    match n with
    | .binary _ op x y => (binaryKind? op).map fun kind => ⟨kind, [u.print x, u.print y]⟩
    | .assign _ op [x] [y] => (updateKind? op).map fun kind => ⟨kind, [u.print x, u.print y]⟩
    | _ => none

/-- The variable a statement accumulates a sum in, and what it adds. -/
def reductionOf? : Node → Option (String × Node)
  | .assign _ (.update .add) [.name _ text] [value] => some (text, value)
  | .assign _ .set [.name _ text] [value] =>
    match value.unparen with
    | .binary _ .add (.name _ x) y => if x == text then some (text, y) else none
    | _ => none
  | _ => none

def reductionVar? (iterator : String) (body : List Node) : Option String :=
  body.findSome? fun s =>
    match reductionOf? s with
    | some (v, _) => if v != iterator then some v else none
    | none => none

/-- The element type of the first array whose type is known. -/
def elemTypeOf (accesses : List Subscript) : String :=
  ((accesses.map (·.elemType)).find? (· != "")).getD "int"

end Loop

namespace LoopPattern

variable (p : LoopPattern)

def elemSize : Nat :=
  if ["double", "long", "int64_t", "uint64_t"].contains p.elemType then 8
  else if ["short", "int16_t", "uint16_t"].contains p.elemType then 2
  else if ["char", "int8_t", "uint8_t"].contains p.elemType then 1
  else 4

/-- An access by anything but the iterator may depend on another iteration. -/
def isCarried : Bool := p.accesses.any (!·.isSequential)

/-- What speaks against vectorising the loop. -/
def reasons : List String :=
  (if p.step != 1 then ["step is " ++ toString p.step ++ ", not 1"] else []) ++
    (match p.accesses.find? (!·.isSequential) with
      | some a =>
        if p.reduction.isNone then
          ["possible loop-carried dependence through " ++ a.array ++ "[" ++ a.index ++ "]"]
        else []
      | none => []) ++
    (if !p.accesses.any (·.isSequential) && p.reduction.isNone then
      ["no sequential array access"] else [])

def isVectorizable : Bool := p.reasons.isEmpty

/-- Analyse one loop; nothing when its header is not counted. -/
def ofLoop? (u : SourceUnit) (k : KernelFn) (loop : Node) : Option LoopPattern := do
  let (h, body) ← Loop.headerOf? u k loop
  let accesses := Loop.accessesOf u k h.iterator body
  return {
    loop := loop.id
    iterator := h.iterator
    start := h.start
    bound := h.bound
    step := h.step
    accesses := accesses
    operations := Loop.operationsOf u body
    reduction := Loop.reductionVar? h.iterator (Loop.statementsOf body)
    body := Loop.statementsOf body
    elemType := Loop.elemTypeOf accesses }

/-- The counted loops of a kernel, outermost first. -/
def ofKernel (u : SourceUnit) (k : KernelFn) : List LoopPattern :=
  (k.body.toList.flatMap Node.outsideLiterals).filterMap (ofLoop? u k)

end LoopPattern

end Retarget
