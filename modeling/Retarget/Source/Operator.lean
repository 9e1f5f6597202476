/-
# Source.Operator -- the operators of the kernel language

Unary, binary and assignment operators with their spelling, and the binding strength of the
binary ones: five levels, all of them left associative.
-/

namespace Retarget.Source

inductive UnaryOp where
  | plus | minus | not | complement | address | receive | tilde
deriving DecidableEq, Repr, Inhabited

namespace UnaryOp

def text : UnaryOp → String
  | plus => "+"
  | minus => "-"
  | not => "!"
  | complement => "^"
  | address => "&"
  | receive => "<-"
  | tilde => "~"

end UnaryOp

inductive BinaryOp where
  | or | and
  | eq | ne | lt | le | gt | ge
  | add | sub | bitOr | bitXor
  | mul | div | rem | shl | shr | bitAnd | andNot
deriving DecidableEq, Repr, Inhabited

namespace BinaryOp

def all : List BinaryOp :=
  [or, and, eq, ne, lt, le, gt, ge, add, sub, bitOr, bitXor, mul, div, rem, shl, shr, bitAnd,
    andNot]

def text : BinaryOp → String
  | or => "||"
  | and => "&&"
  | eq => "=="
  | ne => "!="
  | lt => "<"
  | le => "<="
  | gt => ">"
  | ge => ">="
  | add => "+"
  | sub => "-"
  | bitOr => "|"
  | bitXor => "^"
  | mul => "*"
  | div => "/"
  | rem => "%"
  | shl => "<<"
  | shr => ">>"
  | bitAnd => "&"
  | andNot => "&^"

/-- Larger binds tighter. -/
def precedence : BinaryOp → Nat
  | or => 1
  | and => 2
  | eq | ne | lt | le | gt | ge => 3
  | add | sub | bitOr | bitXor => 4
  | mul | div | rem | shl | shr | bitAnd | andNot => 5

def ofText? (s : String) : Option BinaryOp := all.find? fun op => op.text == s

/-- The operators whose result is a truth value. -/
def isLogical : BinaryOp → Bool
  | or | and | eq | ne | lt | le | gt | ge => true
  | _ => false

end BinaryOp

/-- How an assignment stores: declare, overwrite, or combine with the old value. -/
inductive AssignOp where
  | define
  | set
  | update (op : BinaryOp)
deriving DecidableEq, Repr, Inhabited

namespace AssignOp

def text : AssignOp → String
  | define => ":="
  | set => "="
  | update op => op.text ++ "="

/-- The binary operators that combine with an assignment. -/
def updates : List BinaryOp :=
  [.add, .sub, .mul, .div, .rem, .bitAnd, .bitOr, .bitXor, .shl, .shr, .andNot]

def ofText? (s : String) : Option AssignOp :=
  ([define, set] ++ updates.map update).find? fun op => op.text == s

def isUpdate : AssignOp → Bool
  | update _ => true
  | _ => false

end AssignOp

inductive LiteralKind where
  | int | float | imaginary | char | string
deriving DecidableEq, Repr, Inhabited

end Retarget.Source
