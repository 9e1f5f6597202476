/-
# Source.PlainText -- expressions and types in their own notation

`Node.plain` writes a type or an expression on one line as the source language spells it. Function
bodies and the elements of composite values are abbreviated.
-/
import Retarget.Source.Node
import Retarget.Tally
import Retarget.Text.Basic

namespace Retarget.Source.Node

open Retarget.Text (join dropStart)

/-- Stands for a part that is not an expression. -/
def noExprText (kind : String) : String := "(ast: " ++ kind ++ ")"

/-- How many values a field declares; a field without names declares one. -/
def fieldWidth : Node → Nat
  | field _ names _ _ => max 1 names.length
  | _ => 0

def isNamedField : Node → Bool
  | field _ (_ :: _) _ _ => true
  | _ => false

def isFuncType : Node → Bool
  | funcType .. => true
  | _ => false

def directionText : Direction → String
  | .both => "chan "
  | .send => "chan<- "
  | .receive => "<-chan "

/-- Whether a result list is written without parentheses: one value and no name. -/
def isBareResult (fields : List Node) : Bool :=
  total (fields.map fieldWidth) == 1 && !fields.any isNamedField

mutual

def plain : Node → String
  | name _ text => text
  | literal _ _ text => text
  | paren _ x => "(" ++ plain x ++ ")"
  | unary _ op x => op.text ++ plain x
  | deref _ x => "*" ++ plain x
  | binary _ op x y => plain x ++ " " ++ op.text ++ " " ++ plain y
  | call _ f args spread =>
    plain f ++ "(" ++ join ", " (plainAll args) ++ (if spread then "..." else "") ++ ")"
  | index _ x i => plain x ++ "[" ++ plain i ++ "]"
  | instantiate _ x args => plain x ++ "[" ++ join ", " (plainAll args) ++ "]"
  | slice _ x low high max =>
    plain x ++ "[" ++ plainOpt "" low ++ ":" ++ plainOpt "" high ++
      (if max.isSome then ":" ++ plainOpt "" max else "") ++ "]"
  | select _ x f => plain x ++ "." ++ plain f
  | typeAssert _ x t => plain x ++ ".(" ++ plainOpt (noExprText "<nil>") t ++ ")"
  | composite _ t elems =>
    plainOpt (noExprText "<nil>") t ++ "\x7b" ++ (if elems.isEmpty then "" else "…") ++ "\x7d"
  | funcLit _ t _ => "(" ++ plain t ++ " literal)"
  | arrayType _ length elem => "[" ++ plainOpt "" length ++ "]" ++ plain elem
  | mapType _ key value => "map[" ++ plain key ++ "]" ++ plain value
  | chanType _ direction elem => directionText direction ++ plain elem
  | funcType _ _ params results => "func" ++ plainParams params ++ plainResults results
  | structType _ fields => "struct\x7b" ++ join "; " (plainFields false fields) ++ "\x7d"
  | interfaceType _ methods => "interface\x7b" ++ join "; " (plainFields true methods) ++ "\x7d"
  | variadic _ elem => "..." ++ plainOpt "" elem
  | keyValue .. => noExprText "*ast.KeyValueExpr"
  | _ => ""

def plainAll : List Node → List String
  | [] => []
  | x :: xs => plain x :: plainAll xs

/-- The text of a part that may be missing. -/
def plainOpt (missing : String) : Option Node → String
  | none => missing
  | some x => plain x

/-- Parameters between parentheses. -/
def plainParams : Node → String
  | fieldList _ fields => "(" ++ join ", " (plainFieldAll false fields) ++ ")"
  | _ => "()"

/-- Results after the parameters: nothing, one type, or a list between parentheses. -/
def plainResults : Option Node → String
  | some (fieldList _ fields) =>
    if fields.isEmpty then ""
    else if isBareResult fields then " " ++ join ", " (plainFieldAll false fields)
    else " (" ++ join ", " (plainFieldAll false fields) ++ ")"
  | _ => ""

def plainFields (methods : Bool) : Node → List String
  | fieldList _ fields => plainFieldAll methods fields
  | _ => []

/-- Fields as name list and type; the type of a method is its signature alone. -/
def plainFieldAll (methods : Bool) : List Node → List String
  | [] => []
  | field _ names t _ :: rest =>
    (join ", " (plainAll names) ++
      if methods && isFuncType t then dropStart (plain t) "func"
      else (if names.isEmpty then "" else " ") ++ plain t) :: plainFieldAll methods rest
  | _ :: rest => plainFieldAll methods rest

end

end Retarget.Source.Node
