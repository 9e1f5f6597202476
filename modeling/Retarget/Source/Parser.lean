/-
# Source.Parser -- a whole kernel file

A file is a package clause, imports, and declarations of functions, types, variables and
constants. `parseFile` numbers the nodes from zero; the implied return at the end of every
function body gets a number too.
-/
import Retarget.Source.Parser.Stmt

namespace Retarget.Source

/-- A function declaration. `fallOff` numbers the return implied at the closing brace. -/
structure FuncDecl where
  name : String
  isMethod : Bool
  params : Node
  results : Option Node
  body : Option Node
  start : Nat
  stop : Nat
  fallOff : NodeId
deriving Inhabited

inductive TopDecl where
  | func (decl : FuncDecl)
  | types (names : List String)
  | other
deriving Inhabited

namespace Parse

def phrase (g : Grammar) : Phrase → Parse Node
  | .binary strength => binary g strength
  | .unary => unary g
  | .type => type g
  | .elements => compositeFrom g none
  | .stmt => stmt g
  | .ifStmt => ifStmt g
  | .block => block g

/-- All phrases, nested at most `depth` deep. -/
def grammar : Nat → Grammar
  | 0 => fun _ => refuse
  | depth + 1 => phrase (grammar depth)

def importSpec : Parse Unit := do
  match ← token with
  | .name _ | .symbol "." => let _ ← advance
  | _ => pure ()
  match ← token with
  | .literal .string _ => let _ ← advance
  | _ => refuse
  endOfStatement

def importDecl : Parse Unit := do
  let _ ← expect (.word "import")
  let _ ← specs importSpec

def funcDecl (g : Grammar) : Parse FuncDecl := do
  let keyword ← expect (.word "func")
  let isMethod ← atSymbol "("
  if isMethod then let _ ← parameters g
  let name ← match ← ident with
    | .name _ text => pure text
    | _ => refuse
  let _ ← typeParameters g
  let params ← parameters g
  let results ← results g
  let body ← do
    if ← isAt openBrace then
      let b ← g .block
      endOfStatement
      pure (some b)
    else
      endOfStatement
      if ← isAt openBrace then refuse
      pure none
  let stop := match body with
    | some b => b.stop
    | none => signatureStop params results
  let reserved ← freshMark stop stop
  return ⟨name, isMethod, params, results, body, keyword.start, stop, reserved.id⟩

def specName : Node → Option String
  | .typeSpec _ x _ _ => x.name?
  | _ => none

def topDecl (g : Grammar) : Parse TopDecl := do
  let t ← token
  if t == .word "func" then return .func (← funcDecl g)
  match declKind? t with
  | some .type =>
    match ← declaration g .type with
    | .decl _ _ list => return .types (list.filterMap specName)
    | _ => return .other
  | some kind =>
    let _ ← declaration g kind
    return .other
  | none => refuse

def file (g : Grammar) : Parse (List TopDecl) := do
  let _ ← expect (.word "package")
  let _ ← ident
  endOfStatement
  let _ ← many do
    if ← isAt (.word "import") then return some (← importDecl) else return none
  many do
    if ← isAt .finish then return none
    return some (← topDecl g)

end Parse

/-- A parsed file. -/
structure SourceFile where
  decls : List TopDecl
  lines : LineTable
deriving Inhabited

/-- A file by its text, or `none` if it is not well formed. -/
def parseFile (text : String) : Option SourceFile := do
  let (lexemes, lines) ← lex text
  let start : ParseState :=
    { rest := lexemes, finish := text.utf8ByteSize, nextId := 0, level := 0 }
  let (decls, _) ← (Parse.file (Parse.grammar (4 * lexemes.length + 16))).run start
  return ⟨decls, lines⟩

end Retarget.Source
