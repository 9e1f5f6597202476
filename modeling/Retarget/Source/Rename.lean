/-
# Source.Rename -- trees with other names in them

Renaming keeps the number of every node and, of a name, where it starts; a renamed name spans
the bytes of its new text.
-/
import Retarget.Source.Node

namespace Retarget.Source.Node

/-- A renaming of identifiers; names it does not give stay. -/
abbrev Renaming := List (String × String)

def renameName (r : Renaming) (m : Mark) (text : String) : Node :=
  match r.lookup text with
  | some new => name { m with stop := m.start + new.utf8ByteSize } new
  | none => name m text

mutual

/-- Rename every identifier below a node: variables, callees, fields and labels alike. -/
def rename (r : Renaming) : Node → Node
  | name m text => renameName r m text
  | literal m kind text => literal m kind text
  | paren m x => paren m (rename r x)
  | unary m op x => unary m op (rename r x)
  | deref m x => deref m (rename r x)
  | binary m op x y => binary m op (rename r x) (rename r y)
  | call m callee args spread => call m (rename r callee) (renameAll r args) spread
  | index m x i => index m (rename r x) (rename r i)
  | instantiate m x args => instantiate m (rename r x) (renameAll r args)
  | slice m x low high max =>
    slice m (rename r x) (renameOpt r low) (renameOpt r high) (renameOpt r max)
  | select m x f => select m (rename r x) (rename r f)
  | typeAssert m x t => typeAssert m (rename r x) (renameOpt r t)
  | keyValue m k v => keyValue m (rename r k) (rename r v)
  | composite m t elems => composite m (renameOpt r t) (renameAll r elems)
  | funcLit m t body => funcLit m (rename r t) (rename r body)
  | arrayType m length elem => arrayType m (renameOpt r length) (rename r elem)
  | mapType m k v => mapType m (rename r k) (rename r v)
  | chanType m d elem => chanType m d (rename r elem)
  | funcType m tparams params results =>
    funcType m (renameOpt r tparams) (rename r params) (renameOpt r results)
  | structType m fields => structType m (rename r fields)
  | interfaceType m methods => interfaceType m (rename r methods)
  | variadic m elem => variadic m (renameOpt r elem)
  | fieldList m fields => fieldList m (renameAll r fields)
  | field m names t tag => field m (renameAll r names) (rename r t) (renameOpt r tag)
  | block m stmts => block m (renameAll r stmts)
  | assign m op targets values => assign m op (renameAll r targets) (renameAll r values)
  | step m up x => step m up (rename r x)
  | exprStmt m x => exprStmt m (rename r x)
  | ret m results => ret m (renameAll r results)
  | branch m kind label => branch m kind (renameOpt r label)
  | labeled m label stmt => labeled m (rename r label) (rename r stmt)
  | ifStmt m init cond body orElse =>
    ifStmt m (renameOpt r init) (rename r cond) (rename r body) (renameOpt r orElse)
  | forStmt m init cond post body =>
    forStmt m (renameOpt r init) (renameOpt r cond) (renameOpt r post) (rename r body)
  | rangeStmt m key value x body =>
    rangeStmt m (renameOpt r key) (renameOpt r value) (rename r x) (rename r body)
  | switchStmt m init tag body =>
    switchStmt m (renameOpt r init) (renameOpt r tag) (rename r body)
  | caseClause m values body => caseClause m (renameAll r values) (renameAll r body)
  | declStmt m d => declStmt m (rename r d)
  | empty m => empty m
  | decl m kind specs => decl m kind (renameAll r specs)
  | valueSpec m isConst names t values =>
    valueSpec m isConst (renameAll r names) (renameOpt r t) (renameAll r values)
  | typeSpec m x tparams t => typeSpec m (rename r x) (renameOpt r tparams) (rename r t)

def renameOpt (r : Renaming) : Option Node → Option Node
  | none => none
  | some n => some (rename r n)

def renameAll (r : Renaming) : List Node → List Node
  | [] => []
  | n :: ns => rename r n :: renameAll r ns

end

mutual

/-- What expanding an expression under a renaming leaves of the expression itself. Names,
literals, parentheses, operators, subscripts and the arguments of calls are copied before they
are renamed and stay as they were; every other form is shared with its expansion, and what is
below it takes the new names. A callee that is a bare name belongs to the copied call. -/
def afterExpansion (r : Renaming) : Node → Node
  | name m text => name m text
  | literal m kind text => literal m kind text
  | paren m x => paren m (afterExpansion r x)
  | unary m op x => unary m op (afterExpansion r x)
  | binary m op x y => binary m op (afterExpansion r x) (afterExpansion r y)
  | index m x i => index m (afterExpansion r x) (afterExpansion r i)
  | call m (name cm text) args spread =>
    call m (name cm text) (afterExpansionAll r args) spread
  | call m callee args spread => call m (rename r callee) (afterExpansionAll r args) spread
  | n => rename r n

def afterExpansionAll (r : Renaming) : List Node → List Node
  | [] => []
  | n :: ns => afterExpansion r n :: afterExpansionAll r ns

end

end Retarget.Source.Node
