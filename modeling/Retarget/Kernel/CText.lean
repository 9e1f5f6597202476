/-
# Kernel.CText -- kernels printed as C

Expressions and simple statements are printed on one line without a semicolon. Blocks and
control statements are printed in full, four blanks to the level. A counted range becomes a
counted loop, a slice becomes pointer arithmetic, and a conversion becomes a cast.
-/
import Retarget.Kernel.Unit

namespace Retarget

open Retarget.Source (Node AssignOp BranchKind)
open Retarget.Kernel (Scope cType declare)
open Retarget.Text (join trimEnd repeated)

/-- What the printer knows of the surroundings: the types of variables are known only inside a
kernel. -/
structure CPrinter where
  scope : Scope
  vars : Option (List (String × String))
deriving Inhabited

namespace CPrinter

variable (p : CPrinter)

/-! ## Expressions -/

/-- Arguments that a cast may stand before without parentheses. -/
def bindsTightly : Node → Bool
  | .name .. | .literal .. | .paren .. | .call .. | .index .. | .select .. => true
  | _ => false

mutual

def expr : Node → String
  | .name _ text => if text == "nil" then "NULL" else text
  | .literal _ _ text => text
  | .binary _ .andNot x y => expr x ++ " & ~" ++ expr y
  | .binary _ op x y => expr x ++ " " ++ op.text ++ " " ++ expr y
  | .unary _ .complement x => "~" ++ expr x
  | .unary _ op x => op.text ++ expr x
  | .deref _ x => "*" ++ expr x
  | .paren _ x => "(" ++ expr x ++ ")"
  | .call _ callee args _ =>
    if p.scope.converts callee args then
      let cast := "(" ++ cType callee.unparen ++ ")"
      let arg := join ", " (exprs args)
      if args.all bindsTightly then cast ++ arg else cast ++ "(" ++ arg ++ ")"
    else expr callee ++ "(" ++ join ", " (exprs args) ++ ")"
  | .index _ x i => expr x ++ "[" ++ expr i ++ "]"
  | .slice _ x low _ _ =>
    match low with
    | some i => expr x ++ " + " ++ expr i
    | none => expr x
  | .select _ x f => expr x ++ "." ++ f.name?.getD ""
  | .composite _ _ elems => "\x7b" ++ join ", " (exprs elems) ++ "\x7d"
  | .keyValue _ _ value => expr value
  | n => n.plain

def exprs : List Node → List String
  | [] => []
  | x :: xs => expr x :: exprs xs

end

theorem expr_name (m : Source.Mark) (text : String) :
    p.expr (.name m text) = if text == "nil" then "NULL" else text :=
  rfl

def exprOpt (n : Option Node) : String := (n.map p.expr).getD ""

/-! ## Simple statements -/

/-- The type a declaration gets when none is written. -/
def inferred (type : String) : String := if type == "" then "auto" else type

def assignPart (op : AssignOp) (target value : Node) : String :=
  let lhs := p.expr target
  let rhs := p.expr value
  match op with
  | .define =>
    let type := (p.vars.map fun vars => p.scope.typeOf vars value).getD ""
    declare (inferred type) lhs ++ " = " ++ rhs
  | .update .andNot => lhs ++ " &= ~" ++ rhs
  | op => lhs ++ " " ++ op.text ++ " " ++ rhs

/-- Assignments of several values are separated by commas; several targets of one call have no
counterpart in C and keep the form of the source. -/
def assign (op : AssignOp) (targets values : List Node) : String :=
  if targets.length != values.length then
    join ", " (p.exprs targets) ++ " = " ++ join ", " (p.exprs values)
  else join ", " ((targets.zip values).map fun (t, v) => p.assignPart op t v)

def valueSpec (isConst : Bool) (names : List Node) (type : Option Node) (values : List Node) :
    String :=
  let parts := names.zipIdx.map fun (x, i) =>
    let name := x.name?.getD ""
    let ctype := match type with
      | some t => cType t
      | none => inferred ((p.vars.bind fun vars => vars.lookup name).getD "")
    let decl := (if isConst then "const " else "") ++ declare ctype name
    match values[i]? with
    | some v => decl ++ " = " ++ p.expr v
    | none => decl
  join "; " parts

def spec? : Node → Option String
  | .valueSpec _ isConst names type values => some (p.valueSpec isConst names type values)
  | _ => none

def branch (kind : BranchKind) (label : Option Node) : String :=
  match kind, label with
  | .jump, some l => "goto " ++ l.name?.getD ""
  | .jump, none => "goto"
  | .fall, _ => "/* fallthrough */"
  | .exit, _ => "break"
  | .next, _ => "continue"

def simple : Node → String
  | .assign _ op targets values => p.assign op targets values
  | .step _ up x => p.expr x ++ (if up then "++" else "--")
  | .exprStmt _ x => p.expr x
  | .ret _ [] => "return"
  | .ret _ results => "return " ++ join ", " (p.exprs results)
  | .branch _ kind label => branch kind label
  | .declStmt _ (.decl _ _ specs) => join "; " (specs.filterMap p.spec?)
  | _ => ""

/-! ## Statements in full -/

def line (indent : Nat) (text : String) : String := repeated "    " indent ++ text ++ "\n"

/-- The line of a simple statement; one with nothing to say gets no line. -/
def simpleLine (indent : Nat) (n : Node) : String :=
  let text := p.simple n
  if text == "" then "" else line indent (text ++ ";")

mutual

def stmt (indent : Nat) : Node → String
  | .block _ stmts => line indent "\x7b" ++ stmtAll (indent + 1) stmts ++ line indent "\x7d"
  | .ifStmt _ init cond body orElse =>
    stmtOpt indent init ++ line indent ("if (" ++ p.expr cond ++ ") \x7b") ++
      inner indent body ++ otherwise indent orElse
  | .forStmt _ init cond post body =>
    (match init, cond, post with
      | none, some c, none => line indent ("while (" ++ p.expr c ++ ") \x7b")
      | _, _, _ =>
        line indent ("for (" ++ (init.map p.simple).getD "" ++ "; " ++ p.exprOpt cond ++ "; " ++
          (post.map p.simple).getD "" ++ ") \x7b")) ++
      inner indent body ++ line indent "\x7d"
  | .rangeStmt _ key _ x body =>
    let iter := (key.map p.expr).getD "_i"
    line indent ("for (long " ++ iter ++ " = 0; " ++ iter ++ " < " ++ p.expr x ++ "; " ++ iter ++
      "++) \x7b") ++ inner indent body ++ line indent "\x7d"
  | .switchStmt _ init tag body =>
    stmtOpt indent init ++ line indent ("switch (" ++ p.exprOpt tag ++ ") \x7b") ++
      clauses indent body ++ line indent "\x7d"
  | .labeled _ label s => line indent (label.name?.getD "" ++ ":") ++ stmt indent s
  | n => p.simpleLine indent n

def stmtAll (indent : Nat) : List Node → String
  | [] => ""
  | s :: rest => stmt indent s ++ stmtAll indent rest

def stmtOpt (indent : Nat) : Option Node → String
  | none => ""
  | some s => stmt indent s

/-- The statements of a body, one level further in. -/
def inner (indent : Nat) : Node → String
  | .block _ stmts => stmtAll (indent + 1) stmts
  | _ => ""

/-- What closes a conditional: a brace, an else block, or another conditional on its own line. -/
def otherwise (indent : Nat) : Option Node → String
  | none => line indent "\x7d"
  | some (.block _ stmts) =>
    line indent "\x7d else \x7b" ++ stmtAll (indent + 1) stmts ++ line indent "\x7d"
  | some s => line indent "\x7d else" ++ stmt indent s

def clauses (indent : Nat) : Node → String
  | .block _ list => clauseAll indent list
  | _ => ""

/-- Every clause ends with a break of its own. -/
def clauseAll (indent : Nat) : List Node → String
  | [] => ""
  | .caseClause _ values body :: rest =>
    (if values.isEmpty then line indent "default:"
      else String.join (values.map fun v => line indent ("case " ++ p.expr v ++ ":"))) ++
      stmtAll (indent + 1) body ++ line (indent + 1) "break;" ++ clauseAll indent rest
  | _ :: rest => clauseAll indent rest

end

/-- Any node. Parts that are neither expression, statement nor specification have no C form. -/
def print (n : Node) : String :=
  match n with
  | .valueSpec _ isConst names type values => p.valueSpec isConst names type values
  | .block .. | .ifStmt .. | .forStmt .. | .rangeStmt .. | .switchStmt .. =>
    trimEnd ['\n'] (p.stmt 0 n)
  | .labeled .. => trimEnd [';', '\n'] (p.stmt 0 n)
  | _ => if n.isExpr then p.expr n else p.simple n

end CPrinter

namespace SourceUnit

def printer (u : SourceUnit) (n : Node) : CPrinter := ⟨u.scope, (u.enclosing? n).map (·.vars)⟩

/-- A node as C text. -/
def print (u : SourceUnit) (n : Node) : String := (u.printer n).print n

/-- The present text of a node known by its number. -/
def printId (u : SourceUnit) (id : Source.NodeId) : String := ((u.node? id).map u.print).getD ""

end SourceUnit

end Retarget
