/-
# Emission.Generate -- the code of a kernel

Every statement node gives one line, indented by the blocks that are open; a closing node
gives a brace. Around the body stand the include lines, a comment with the tally of lines, the
signature with the types of the target, and the declaration of its predicate.
-/
import Retarget.Emission.Line

namespace Retarget

open Retarget.Kernel (declare)
open Retarget.Text (endsWith dropEnd trim join repeated addNew)

/-- The generated code of one kernel. -/
structure Emission where
  function : String
  target : String
  /-- The whole text: include lines, signature and body. -/
  code : String
  /-- The lines of the statements alone. -/
  body : String
  headers : List String
  resolutions : List (OpId × Resolution)
  ruleApplied : Nat
  fallbacks : Nat
  successful : Bool := true
  errors : List String := []
deriving Inhabited

namespace Emitter

/-- The body while it is written: the text, the number of open blocks, the tally, and whether
the function's own brace has been closed. -/
structure BodyState where
  text : String := ""
  depth : Nat := 1
  closed : Bool := false
  ruleApplied : Nat := 0
  fallbacks : Nat := 0
deriving Inhabited

variable (e : Emitter)

def indentText : String := "    "

/-- Every line of a text at a depth; without a signature the body stands one level further
out. -/
def writeLines (depth : Nat) (text : String) : String :=
  let level := depth - (if e.signature then 0 else 1)
  String.join ((Text.splitAt '\n' text).map fun l => repeated indentText level ++ l ++ "\n")

/-- A line ends in a semicolon or a brace. -/
def terminated (line : String) : String :=
  if endsWith line ";" || endsWith line "\x7b" || endsWith line "\x7d" then line else line ++ ";"

def closeBlock (b : BodyState) : BodyState :=
  if b.depth ≤ 1 then
    let b := { b with depth := 0, closed := true }
    if e.signature then { b with text := b.text ++ e.writeLines 0 "\x7d" } else b
  else { b with depth := b.depth - 1, text := b.text ++ e.writeLines (b.depth - 1) "\x7d" }

def tally (r : Option Resolution) (b : BodyState) : BodyState :=
  match r with
  | some (.byRule _) => { b with ruleApplied := b.ruleApplied + 1 }
  | some .byFallback => { b with fallbacks := b.fallbacks + 1 }
  | none => b

def writeNode (b : BodyState) (n : OpNode) : Emit BodyState := do
  if n.kind == .blockEnd then return e.closeBlock b
  else if !n.isStatement then return b
  else
    let line ← e.statement n
    if line == "" then return b
    else
      let b := tally ((← get).resolutions.lookup n.id) b
      let line := terminated line
      return { b with
        text := b.text ++ e.writeLines b.depth line
        depth := if endsWith line "\x7b" then b.depth + 1 else b.depth }

def writeBody : Emit BodyState := e.graph.nodes.foldlM e.writeNode {}

/-! ## Around the body -/

/-- The type of a parameter or result on the target. -/
def paramType (a : Architecture) (ctype : String) : String :=
  match a.paramTypes.lookup ctype with
  | some t => t
  | none =>
    if endsWith ctype " *" then
      match a.paramTypes.lookup (dropEnd ctype " *") with
      | some t => trim (dropEnd t "*") ++ " *"
      | none => ctype
    else ctype

def signatureText : String :=
  let params := e.kernel.params.map fun p => declare (paramType e.target p.ctype) p.name
  paramType e.target e.kernel.result ++ " " ++ e.kernel.name ++ "_" ++ e.target.name ++ "(" ++
    join ", " params ++ ")"

def includeLines (headers : List String) : String :=
  if headers.isEmpty then ""
  else String.join (headers.map fun h => "#include " ++ h ++ "\n") ++ "\n"

/-- The comment, the signature and the declaration of the predicate. -/
def opening (b : BodyState) : String :=
  "// " ++ e.kernel.name ++ " translated to " ++ e.target.name ++ ": " ++
    toString b.ruleApplied ++ " by rule, " ++ toString b.fallbacks ++ " by fallback\n" ++
    e.signatureText ++ " \x7b\n" ++
    String.join (e.target.prologue.map fun l => indentText ++ l ++ "\n")

/-- Write the kernel for the target from its operation graph. -/
def generate : Logged Emission :=
  let (b, s) := e.writeBody.run {}
  let headers := addNew [] (e.target.headers ++ s.headers)
  let code := (if e.headers then includeLines headers else "") ++
    (if e.signature then e.opening b else "") ++ b.text ++
    (if e.signature && !b.closed then "\x7d\n" else "")
  ⟨{ function := e.kernel.name, target := e.target.name, code := code, body := b.text
     headers := headers, resolutions := s.resolutions, ruleApplied := b.ruleApplied
     fallbacks := b.fallbacks },
    s.log ++ [.debug ("codegen: " ++ e.kernel.name ++ " for " ++ e.target.name ++ ": " ++
      toString b.ruleApplied ++ " rule, " ++ toString b.fallbacks ++ " fallback")]⟩

end Emitter

end Retarget
