/-
# Source.Node -- syntax trees of kernel files

One type holds expressions, types, statements and declarations, because the analyses treat
them alike: a node of a flow graph may be a statement, a condition or a single specification
of a declaration. Every node carries a `Mark`: a number that identifies it within its file and
the bytes it spans. The number stays when a tree is changed, so results that name a node by
its number can still be shown.

`Node.visit` is the only walk over whole trees: pre-order, and the caller decides for each
node which of its slots are entered. A slot is a field of the constructor, counted from zero.
-/
import Retarget.Source.Operator

namespace Retarget.Source

abbrev NodeId := Nat

structure Mark where
  id : NodeId
  start : Nat
  stop : Nat
deriving DecidableEq, Repr, Inhabited

inductive Direction where
  | both | send | receive
deriving DecidableEq, Repr, Inhabited

inductive BranchKind where
  | exit | next | jump | fall
deriving DecidableEq, Repr, Inhabited

inductive DeclKind where
  | variable | constant | type
deriving DecidableEq, Repr, Inhabited

inductive Node where
  -- expressions
  | name (mark : Mark) (text : String)
  | literal (mark : Mark) (kind : LiteralKind) (text : String)
  | paren (mark : Mark) (x : Node)
  | unary (mark : Mark) (op : UnaryOp) (x : Node)
  | deref (mark : Mark) (x : Node)
  | binary (mark : Mark) (op : BinaryOp) (x y : Node)
  | call (mark : Mark) (callee : Node) (args : List Node) (spread : Bool)
  | index (mark : Mark) (x i : Node)
  | instantiate (mark : Mark) (x : Node) (args : List Node)
  | slice (mark : Mark) (x : Node) (low high max : Option Node)
  | select (mark : Mark) (x field : Node)
  | typeAssert (mark : Mark) (x : Node) (type : Option Node)
  | keyValue (mark : Mark) (key value : Node)
  | composite (mark : Mark) (type : Option Node) (elems : List Node)
  | funcLit (mark : Mark) (type body : Node)
  -- types
  | arrayType (mark : Mark) (length : Option Node) (elem : Node)
  | mapType (mark : Mark) (key value : Node)
  | chanType (mark : Mark) (direction : Direction) (elem : Node)
  | funcType (mark : Mark) (typeParams : Option Node) (params : Node) (results : Option Node)
  | structType (mark : Mark) (fields : Node)
  | interfaceType (mark : Mark) (methods : Node)
  | variadic (mark : Mark) (elem : Option Node)
  | fieldList (mark : Mark) (fields : List Node)
  | field (mark : Mark) (names : List Node) (type : Node) (tag : Option Node)
  -- statements
  | block (mark : Mark) (stmts : List Node)
  | assign (mark : Mark) (op : AssignOp) (targets values : List Node)
  | step (mark : Mark) (up : Bool) (x : Node)
  | exprStmt (mark : Mark) (x : Node)
  | ret (mark : Mark) (results : List Node)
  | branch (mark : Mark) (kind : BranchKind) (label : Option Node)
  | labeled (mark : Mark) (label stmt : Node)
  | ifStmt (mark : Mark) (init : Option Node) (cond body : Node) (orElse : Option Node)
  | forStmt (mark : Mark) (init cond post : Option Node) (body : Node)
  | rangeStmt (mark : Mark) (key value : Option Node) (x body : Node)
  | switchStmt (mark : Mark) (init tag : Option Node) (body : Node)
  | caseClause (mark : Mark) (values body : List Node)
  | declStmt (mark : Mark) (decl : Node)
  | empty (mark : Mark)
  -- declarations
  | decl (mark : Mark) (kind : DeclKind) (specs : List Node)
  | valueSpec (mark : Mark) (isConst : Bool) (names : List Node) (type : Option Node)
      (values : List Node)
  | typeSpec (mark : Mark) (name : Node) (typeParams : Option Node) (type : Node)
deriving Inhabited

namespace Node

def mark : Node → Mark
  | name m _ | literal m _ _ | paren m _ | unary m _ _ | deref m _ | binary m _ _ _
  | call m _ _ _ | index m _ _ | instantiate m _ _ | slice m _ _ _ _ | select m _ _
  | typeAssert m _ _ | keyValue m _ _ | composite m _ _ | funcLit m _ _ | arrayType m _ _
  | mapType m _ _ | chanType m _ _ | funcType m _ _ _ | structType m _ | interfaceType m _
  | variadic m _ | fieldList m _ | field m _ _ _ | block m _ | assign m _ _ _ | step m _ _
  | exprStmt m _ | ret m _ | branch m _ _ | labeled m _ _ | ifStmt m _ _ _ _
  | forStmt m _ _ _ _ | rangeStmt m _ _ _ _ | switchStmt m _ _ _ | caseClause m _ _
  | declStmt m _ | empty m | decl m _ _ | valueSpec m _ _ _ _ | typeSpec m _ _ _ => m

def id (n : Node) : NodeId := n.mark.id
def start (n : Node) : Nat := n.mark.start
def stop (n : Node) : Nat := n.mark.stop

/-- The name of the syntactic class. A loop with only a condition has a class of its own. -/
def className : Node → String
  | name .. => "Ident"
  | literal .. => "BasicLit"
  | paren .. => "ParenExpr"
  | unary .. => "UnaryExpr"
  | deref .. => "StarExpr"
  | binary .. => "BinaryExpr"
  | call .. => "CallExpr"
  | index .. => "IndexExpr"
  | instantiate .. => "IndexListExpr"
  | slice .. => "SliceExpr"
  | select .. => "SelectorExpr"
  | typeAssert .. => "TypeAssertExpr"
  | keyValue .. => "KeyValueExpr"
  | composite .. => "CompositeLit"
  | funcLit .. => "FuncLit"
  | arrayType .. => "ArrayType"
  | mapType .. => "MapType"
  | chanType .. => "ChanType"
  | funcType .. => "FuncType"
  | structType .. => "StructType"
  | interfaceType .. => "InterfaceType"
  | variadic .. => "Ellipsis"
  | fieldList .. => "FieldList"
  | field .. => "Field"
  | block .. => "CompoundStmt"
  | assign .. => "AssignStmt"
  | step .. => "IncDecStmt"
  | exprStmt .. => "ExprStmt"
  | ret .. => "ReturnStmt"
  | branch _ .exit _ => "BreakStmt"
  | branch _ .next _ => "ContinueStmt"
  | branch _ .jump _ => "GotoStmt"
  | branch _ .fall _ => "FallthroughStmt"
  | labeled .. => "LabeledStmt"
  | ifStmt .. => "IfStmt"
  | forStmt _ none (some _) none _ => "WhileStmt"
  | forStmt .. => "ForStmt"
  | rangeStmt .. => "RangeStmt"
  | switchStmt .. => "SwitchStmt"
  | caseClause .. => "CaseClause"
  | declStmt .. => "DeclStmt"
  | empty .. => "EmptyStmt"
  | decl .. => "GenDecl"
  | valueSpec .. => "ValueSpec"
  | typeSpec .. => "TypeSpec"

def isExpr : Node → Bool
  | name .. | literal .. | paren .. | unary .. | deref .. | binary .. | call .. | index ..
  | instantiate .. | slice .. | select .. | typeAssert .. | keyValue .. | composite ..
  | funcLit .. | arrayType .. | mapType .. | chanType .. | funcType .. | structType ..
  | interfaceType .. | variadic .. => true
  | _ => false

def isStmt : Node → Bool
  | block .. | assign .. | step .. | exprStmt .. | ret .. | branch .. | labeled .. | ifStmt ..
  | forStmt .. | rangeStmt .. | switchStmt .. | caseClause .. | declStmt .. | empty .. => true
  | _ => false

def isFuncLit : Node → Bool
  | funcLit .. => true
  | _ => false

def isVariadic : Node → Bool
  | variadic .. => true
  | _ => false

/-- The text of a bare name. -/
def name? : Node → Option String
  | name _ text => some text
  | _ => none

def unparen : Node → Node
  | paren _ x => unparen x
  | n => n

/-! ## The walk -/

mutual

/-- The nodes met in pre-order. Slot `i` of a node is entered when `enter node i` holds. -/
def visit (enter : Node → Nat → Bool) (n : Node) : List Node :=
  n :: match n with
  | name _ _ | literal _ _ _ | empty _ => []
  | paren _ x | unary _ _ x | deref _ x | chanType _ _ x | structType _ x | interfaceType _ x
  | step _ _ x | exprStmt _ x | declStmt _ x => (if enter n 0 then visit enter x else [])
  | binary _ _ x y | index _ x y | select _ x y | keyValue _ x y | funcLit _ x y
  | mapType _ x y | labeled _ x y =>
    (if enter n 0 then visit enter x else []) ++ (if enter n 1 then visit enter y else [])
  | call _ x ys _ | instantiate _ x ys =>
    (if enter n 0 then visit enter x else []) ++ intoAll enter (enter n 1) ys
  | slice _ x low high max =>
    (if enter n 0 then visit enter x else []) ++ intoOpt enter (enter n 1) low ++
      intoOpt enter (enter n 2) high ++ intoOpt enter (enter n 3) max
  | typeAssert _ x t => (if enter n 0 then visit enter x else []) ++ intoOpt enter (enter n 1) t
  | composite _ t xs => intoOpt enter (enter n 0) t ++ intoAll enter (enter n 1) xs
  | arrayType _ t x => intoOpt enter (enter n 0) t ++ (if enter n 1 then visit enter x else [])
  | funcType _ t x r =>
    intoOpt enter (enter n 0) t ++ (if enter n 1 then visit enter x else []) ++
      intoOpt enter (enter n 2) r
  | variadic _ x | branch _ _ x => intoOpt enter (enter n 0) x
  | fieldList _ xs | block _ xs | ret _ xs | decl _ _ xs => intoAll enter (enter n 0) xs
  | field _ names t tag =>
    intoAll enter (enter n 0) names ++ (if enter n 1 then visit enter t else []) ++
      intoOpt enter (enter n 2) tag
  | assign _ _ xs ys | caseClause _ xs ys =>
    intoAll enter (enter n 0) xs ++ intoAll enter (enter n 1) ys
  | ifStmt _ init cond body orElse =>
    intoOpt enter (enter n 0) init ++ (if enter n 1 then visit enter cond else []) ++
      (if enter n 2 then visit enter body else []) ++ intoOpt enter (enter n 3) orElse
  | forStmt _ init cond post body =>
    intoOpt enter (enter n 0) init ++ intoOpt enter (enter n 1) cond ++
      intoOpt enter (enter n 2) post ++ (if enter n 3 then visit enter body else [])
  | rangeStmt _ key value x body =>
    intoOpt enter (enter n 0) key ++ intoOpt enter (enter n 1) value ++
      (if enter n 2 then visit enter x else []) ++ (if enter n 3 then visit enter body else [])
  | switchStmt _ init tag body =>
    intoOpt enter (enter n 0) init ++ intoOpt enter (enter n 1) tag ++
      (if enter n 2 then visit enter body else [])
  | valueSpec _ _ names t values =>
    intoAll enter (enter n 0) names ++ intoOpt enter (enter n 1) t ++
      intoAll enter (enter n 2) values
  | typeSpec _ x params t =>
    (if enter n 0 then visit enter x else []) ++ intoOpt enter (enter n 1) params ++
      (if enter n 2 then visit enter t else [])

def intoOpt (enter : Node → Nat → Bool) (yes : Bool) : Option Node → List Node
  | none => []
  | some n => if yes then visit enter n else []

def intoAll (enter : Node → Nat → Bool) (yes : Bool) : List Node → List Node
  | [] => []
  | n :: ns => (if yes then visit enter n else []) ++ intoAll enter yes ns

end

/-- Every node below `n`, itself first. -/
def preorder (n : Node) : List Node := n.visit fun _ _ => true

/-- Every node below `n` that is not inside a function literal; the literal itself is met. -/
def outsideLiterals (n : Node) : List Node := n.visit fun m _ => !m.isFuncLit

end Node

end Retarget.Source
