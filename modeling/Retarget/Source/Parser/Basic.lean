/-
# Source.Parser.Basic -- parsing steps over a list of lexemes

A parser consumes lexemes from the front of a list and hands out node numbers. It either
succeeds or the whole file is refused; there is no recovery.

The grammar is recursive through a handful of phrases. Each phrase is a plain function of a
parser for all phrases, and one recursion on a number of levels ties them together (in
`Source.Parser`). Repetition is bounded by the number of lexemes left.
-/
import Retarget.Source.Lexer
import Retarget.Source.Node

namespace Retarget.Source

/-- `level` is negative in the header of a control statement, where a brace opens the body and
not a composite value. -/
structure ParseState where
  rest : List Lexeme
  finish : Nat
  nextId : NodeId
  level : Int
deriving Inhabited

abbrev Parse := StateT ParseState Option

/-- The recursive phrases of the grammar. -/
inductive Phrase where
  | binary (strength : Nat)
  | unary
  | type
  | elements
  | stmt
  | ifStmt
  | block
deriving Inhabited

abbrev Grammar := Phrase → Parse Node

def Grammar.expr (g : Grammar) : Parse Node := g (.binary 1)

namespace Parse

def refuse {α : Type} : Parse α := fun _ => none

def lexeme : Parse Lexeme := do
  let s ← get
  return s.rest.headD ⟨.finish, s.finish, s.finish⟩

def token : Parse Token := do return (← lexeme).token

def position : Parse Nat := do return (← lexeme).start

def advance : Parse Lexeme := do
  let l ← lexeme
  modify fun s => { s with rest := s.rest.tail }
  return l

def freshMark (start stop : Nat) : Parse Mark := do
  let s ← get
  set { s with nextId := s.nextId + 1 }
  return ⟨s.nextId, start, stop⟩

def isAt (t : Token) : Parse Bool := do return (← token) == t

def expect (t : Token) : Parse Lexeme := do
  if ← isAt t then advance else refuse

def symbol (s : String) : Parse Lexeme := expect (.symbol s)

def atSymbol (s : String) : Parse Bool := isAt (.symbol s)

def atName : Parse Bool := do
  match ← token with
  | .name _ => return true
  | _ => return false

def openBrace : Token := .symbol "\x7b"
def closeBrace : Token := .symbol "\x7d"

def ident : Parse Node := do
  let l ← advance
  match l.token with
  | .name text => return .name (← freshMark l.start l.stop) text
  | _ => refuse

/-- A statement ends with a semicolon, which may be left out before a closing bracket. -/
def endOfStatement : Parse Unit := do
  match ← token with
  | .symbol ")" | .symbol "\x7d" => return
  | .semicolon _ => let _ ← advance
  | _ => refuse

/-- Run with the nesting level changed by `change`, and restore it. -/
def atLevel {α : Type} (change : Int → Int) (p : Parse α) : Parse α := do
  let before := (← get).level
  modify fun s => { s with level := change before }
  let a ← p
  modify fun s => { s with level := before }
  return a

def nested {α : Type} (p : Parse α) : Parse α := atLevel (· + 1) p

/-- Repeat `step` until it yields nothing, at most `limit` times. -/
def collect {α : Type} (step : Parse (Option α)) : Nat → Parse (List α)
  | 0 => refuse
  | limit + 1 => do
    match ← step with
    | none => return []
    | some a => return a :: (← collect step limit)

def many {α : Type} (step : Parse (Option α)) : Parse (List α) := do
  collect step ((← get).rest.length + 1)

/-- What follows an element of a list up to `close`: a comma, which is consumed, or the end. -/
def separator (close : Token) : Parse Unit := do
  let t ← token
  if t == .symbol "," then let _ ← advance
  else if t != close then refuse

/-- Elements up to the symbol `close`, separated by commas; the last comma is optional and the
closing symbol is not consumed. -/
def commaList {α : Type} (close : Token) (item : Parse α) : Parse (List α) := many do
  if ← isAt close then return none
  let a ← item
  separator close
  return some a

/-- One element and then further ones after commas. -/
def exprList (g : Grammar) : Parse (List Node) := do
  let first ← g.expr
  let more ← many do
    if ← atSymbol "," then
      let _ ← advance
      return some (← g.expr)
    return none
  return first :: more

end Parse

end Retarget.Source
