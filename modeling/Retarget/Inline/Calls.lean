/-
# Inline.Calls -- the calls made inside loops

Every call in the body of a loop that neither converts nor is a vector intrinsic, after the
calls nested in its arguments, with the innermost loop around it. When a call is the whole
right side of an assignment, the assignment is taken as one piece and named by its target.
-/
import Retarget.Kernel.CText

namespace Retarget

open Retarget.Source (Node NodeId)

/-- A call made inside a loop. -/
structure LoopCall where
  call : Node
  callee : String
  loop : NodeId
  args : List Node
  /-- The vector the expanded call produces. -/
  output : String
deriving Inhabited

namespace LoopCall

/-- The vector an expression is held in: that of the variable, of the array indexed, or of the
result of a call. -/
def operandName (n : Node) : String :=
  match n.unparen with
  | .name _ text => text
  | .index _ x _ => (x.unparen.name?).getD ""
  | .call _ callee _ _ => Kernel.nameOfCallee callee ++ "_result"
  | _ => ""

def isCall : Node → Bool
  | .call .. => true
  | _ => false

/-- The calls below an expression that are not inside another. -/
def outermost (n : Node) : List Node :=
  (n.visit fun m _ => !isCall m && !m.isFuncLit).filter isCall

/-- A call after the calls nested in its arguments; `depth` bounds the nesting. -/
def expand : Nat → Node → List Node
  | 0, _ => []
  | depth + 1, n =>
    match n with
    | .call _ _ args _ => (args.flatMap outermost).flatMap (expand depth) ++ [n]
    | _ => []

def expandCall (n : Node) : List Node := expand n.preorder.length n

/-- The call that is the right side of an assignment to one target. -/
def assignedCall? : Node → Option (Node × Node)
  | .assign _ _ [target] [value] => if isCall value.unparen then some (target, value.unparen) else none
  | _ => none

/-- The walk enters the bodies of loops but not their headers, and stops at calls, at
assignments of a call and at function literals. -/
def enters (m : Node) (slot : Nat) : Bool :=
  match m with
  | .funcLit .. | .call .. => false
  | .forStmt .. | .rangeStmt .. => slot == 3
  | _ => (assignedCall? m).isNone

/-- The calls found at one node of the walk, each with the name it is assigned to. -/
def found (n : Node) : List (Node × String) :=
  match assignedCall? n with
  | some (target, call) =>
    (expandCall call).dropLast.map (·, "") ++ [(call, operandName target)]
  | none => if isCall n then (expandCall n).map (·, "") else []

/-- The body of a loop. -/
def loopBody? : Node → Option Node
  | .forStmt _ _ _ _ body => some body
  | .rangeStmt _ _ _ _ body => some body
  | _ => none

/-- The innermost loop whose body holds a node. -/
def innermostLoop? (root : Node) (id : NodeId) : Option NodeId :=
  (root.outsideLiterals.filterMap fun n =>
    (loopBody? n).bind fun body =>
      if body.preorder.any fun m => m.id == id then some n.id else none).getLast?

def ofCall? (u : SourceUnit) (root : Node) (call : Node) (assigned : String) : Option LoopCall :=
  match call with
  | .call _ callee args _ =>
    (innermostLoop? root call.id).bind fun loop =>
      if u.isConversion call || u.scope.isVectorCall call then none
      else
        let name := Kernel.nameOfCallee callee
        some {
          call := call, callee := name, loop := loop, args := args
          output := if assigned == "" then name ++ "_result" else assigned }
  | _ => none

/-- The calls in the loops of a kernel. -/
def ofKernel (u : SourceUnit) (k : KernelFn) : List LoopCall :=
  match k.body with
  | none => []
  | some body =>
    ((body.visit enters).flatMap found).filterMap fun (call, assigned) =>
      ofCall? u body call assigned

end LoopCall

end Retarget
