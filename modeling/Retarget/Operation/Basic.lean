/-
# Operation.Basic -- the kinds of operations and what a node of the graph holds

An operation graph is an architecture-neutral picture of one kernel: statements and the
operands they are built from, each a node with a kind, a name and a few properties.
-/
import Retarget.Source.Node

namespace Retarget

open Retarget.Source (NodeId)

inductive OpKind where
  | entry | exit | control | branch | loop | switch | leave | next | ret | blockEnd
  | load | store | add | subtract | multiply | divide | modulo | bitAnd | bitOr | bitXor | bitNot
  | shiftLeft | shiftRight | equal | notEqual | lessThan | lessEqual | greaterThan | greaterEqual
  | vectorLoad | vectorStore | vectorArithmetic | vectorCompare | vectorBlend | vectorShuffle
  | vectorPermute | vectorIntrinsic
  | statement | call | param | returnValue | phi | merge | constant | global | unknown
deriving DecidableEq, Repr, Inhabited

namespace OpKind

def all : List OpKind :=
  [entry, exit, control, branch, loop, switch, leave, next, ret, blockEnd, load, store, add,
    subtract, multiply, divide, modulo, bitAnd, bitOr, bitXor, bitNot, shiftLeft, shiftRight,
    equal, notEqual, lessThan, lessEqual, greaterThan, greaterEqual, vectorLoad, vectorStore,
    vectorArithmetic, vectorCompare, vectorBlend, vectorShuffle, vectorPermute, vectorIntrinsic,
    statement, call, param, returnValue, phi, merge, constant, global, unknown]

def name : OpKind → String
  | entry => "Entry"
  | exit => "Exit"
  | control => "Control"
  | branch => "If"
  | loop => "Loop"
  | switch => "Switch"
  | leave => "Break"
  | next => "Continue"
  | ret => "Return"
  | blockEnd => "BlockEnd"
  | load => "Load"
  | store => "Store"
  | add => "Add"
  | subtract => "Subtract"
  | multiply => "Multiply"
  | divide => "Divide"
  | modulo => "Modulo"
  | bitAnd => "And"
  | bitOr => "Or"
  | bitXor => "Xor"
  | bitNot => "Not"
  | shiftLeft => "ShiftLeft"
  | shiftRight => "ShiftRight"
  | equal => "Equal"
  | notEqual => "NotEqual"
  | lessThan => "LessThan"
  | lessEqual => "LessEqual"
  | greaterThan => "GreaterThan"
  | greaterEqual => "GreaterEqual"
  | vectorLoad => "SIMD_Load"
  | vectorStore => "SIMD_Store"
  | vectorArithmetic => "SIMD_Arithmetic"
  | vectorCompare => "SIMD_Compare"
  | vectorBlend => "SIMD_Blend"
  | vectorShuffle => "SIMD_Shuffle"
  | vectorPermute => "SIMD_Permute"
  | vectorIntrinsic => "SIMD_Intrinsic"
  | statement => "GenericStmt"
  | call => "Call"
  | param => "Param"
  | returnValue => "ReturnValue"
  | phi => "Phi"
  | merge => "Merge"
  | constant => "Constant"
  | global => "Global"
  | unknown => "Unknown"

def ofName? (s : String) : Option OpKind := all.find? (·.name == s)

/-- Kinds that steer control flow. -/
def isControl : OpKind → Bool
  | control | branch | loop | switch | leave | next | ret => true
  | _ => false

def isVector : OpKind → Bool
  | vectorLoad | vectorStore | vectorArithmetic | vectorCompare | vectorBlend | vectorShuffle
  | vectorPermute | vectorIntrinsic => true
  | _ => false

/-- Kinds that produce or move a value. -/
def isData (k : OpKind) : Bool := !k.isControl && k != entry && k != exit && k != blockEnd

end OpKind

/-- A node's number in its graph. Every integer may be asked for; only those of nodes are
found. -/
abbrev OpId := Int

/-- The keys with a meaning of their own. -/
inductive PropKey where
  | operation | declared | vectorize | className
deriving DecidableEq, Repr, Inhabited

def PropKey.text : PropKey → String
  | operation => "op_name"
  | declared => "var_name"
  | vectorize => "vectorize"
  | className => "class"

structure OpNode where
  id : OpId := -1
  kind : OpKind
  name : String
  /-- Whether the node is a statement of its own or an operand reached through data edges. -/
  isStatement : Bool := false
  /-- The syntax the node stands for. -/
  stmt : Option NodeId := none
  props : List (String × String) := []
deriving Repr, DecidableEq, Inhabited

namespace OpNode

variable (n : OpNode)

/-- The operation name of a node that declares a variable. -/
def defineOperation : String := "define"

def prop? (key : String) : Option String := n.props.lookup key

def prop (key : PropKey) : String := (n.prop? key.text).getD ""

/-- Set a property; the last value set is the one it has. -/
def setProp (key value : String) : OpNode :=
  { n with props := n.props.filter (·.1 != key) ++ [(key, value)] }

def operation : String := n.prop .operation
def variableName : String := n.prop .declared
def className : String := n.prop .className
def isVectorized : Bool := n.prop .vectorize == "true"
def isDefine : Bool := n.operation == defineOperation

end OpNode

inductive OpEdgeKind where
  | data | control | parameter | ret | exception | memory | mayAlias
deriving DecidableEq, Repr, Inhabited

namespace OpEdgeKind

def all : List OpEdgeKind := [data, control, parameter, ret, exception, memory, mayAlias]

def name : OpEdgeKind → String
  | data => "Data"
  | control => "Control"
  | parameter => "Parameter"
  | ret => "Return"
  | exception => "Exception"
  | memory => "Memory"
  | mayAlias => "Alias"

def ofName? (s : String) : Option OpEdgeKind := all.find? (·.name == s)

end OpEdgeKind

/-- An edge carries a variable or the role of an operand as its label. -/
structure OpEdge where
  source : OpId
  target : OpId
  kind : OpEdgeKind
  label : String
deriving Repr, DecidableEq, Inhabited

/-- The role of the operand at position `i`. -/
def argLabel (i : Nat) : String := "arg_" ++ toString i

end Retarget
