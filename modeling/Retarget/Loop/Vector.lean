/-
# Loop.Vector -- vector loops in C

The body of a loop is first turned into vector statements: stores of vector terms at the
iterator and additions to the vector of sums. Terms are loads at the iterator, scalars in
every lane, and arithmetic. The text is printed from these: all loads first, then the
statements, once for the main loop and on predicated targets once more for the tail.
-/
import Retarget.Loop.Pattern
import Retarget.Loop.Profile

namespace Retarget

open Retarget.Source (Node BinaryOp AssignOp)
open Retarget.Text (join quoted endsWith repeated addNew)

/-! ## Vector terms -/

inductive VecTerm where
  /-- An array at the iterator. -/
  | load (array : String)
  /-- A variable in every lane. -/
  | scalar (name : String)
  /-- A literal in every lane. -/
  | literal (text : String)
  | arith (op : VecOp) (x y : VecTerm)
deriving Repr, DecidableEq, Inhabited

inductive VecStmt where
  /-- Add to the vector of sums. -/
  | accumulate (x : VecTerm)
  | store (array : String) (x : VecTerm)
  /-- Combine an array with a value and store the result. -/
  | update (op : VecOp) (array : String) (x : VecTerm)
deriving Repr, DecidableEq, Inhabited

def VecTerm.loads : VecTerm → List String
  | load array => [array]
  | scalar _ | literal _ => []
  | arith _ x y => x.loads ++ y.loads

def VecStmt.loads : VecStmt → List String
  | accumulate x => x.loads
  | store _ x => x.loads
  | update _ array x => x.loads ++ [array]

/-- Why a loop has no vector form. -/
inductive LoopError where
  | notVectorizable (reasons : List String)
  | noProfile (target elem : String)
  | noVectorForm (text : String)
  | unknownOperator (symbol : String)
  | noInstruction (target symbol elem : String)
deriving Repr, DecidableEq, Inhabited

def LoopError.message : LoopError → String
  | notVectorizable reasons => "loop is not vectorizable: " ++ join "; " reasons
  | noProfile target elem =>
    "unsupported loop: no " ++ target ++ " profile for " ++ elem ++ " elements"
  | noVectorForm text => "unsupported loop: no vector form for " ++ quoted text
  | unknownOperator symbol => "unsupported loop: operator " ++ symbol
  | noInstruction target symbol elem =>
    "unsupported loop: " ++ target ++ " has no vector " ++ symbol ++ " for " ++ elem

namespace LoopPattern

variable (p : LoopPattern)

/-! ## Vector form -/

def vecOp? : BinaryOp → Option VecOp
  | .add => some .add
  | .sub => some .sub
  | .mul => some .mul
  | .div => some .div
  | _ => none

/-- The array of a subscript by the iterator. -/
def sequential? (n : Node) : Option String :=
  match n.unparen with
  | .index _ (.name _ array) (.name _ i) => if i == p.iterator then some array else none
  | _ => none

/-- An operation the target has an instruction for. -/
def supported (prof : Profile) (op : VecOp) : Except LoopError VecOp :=
  if prof.arithmeticFn op == "" then
    .error (.noInstruction prof.target op.symbol prof.elemType)
  else .ok op

def arithmetic (prof : Profile) (op : BinaryOp) : Except LoopError VecOp :=
  match vecOp? op with
  | some o => supported prof o
  | none => .error (.unknownOperator op.text)

def isReserved (name : String) : Bool := name == p.iterator || p.reduction == some name

/-- An expression as a vector term. -/
def term (u : SourceUnit) (prof : Profile) : Node → Except LoopError VecTerm
  | .paren _ x => term u prof x
  | .index m x i =>
    match p.sequential? (.index m x i) with
    | some array => .ok (.load array)
    | none => .error (.noVectorForm (u.print (.index m x i)))
  | .name m text =>
    if p.isReserved text then .error (.noVectorForm (u.print (.name m text)))
    else .ok (.scalar text)
  | .literal _ _ text => .ok (.literal text)
  | .unary _ .minus x => do return .arith .sub (.literal "0") (← term u prof x)
  | .binary _ op x y => do
    let o ← arithmetic prof op
    let l ← term u prof x
    let r ← term u prof y
    return .arith o l r
  | n => .error (.noVectorForm (u.print n))

/-- A statement that is no accumulation must store to an array at the iterator. -/
def storeStmt (u : SourceUnit) (prof : Profile) (n : Node) : Except LoopError VecStmt :=
  match n with
  | .assign _ op [target] [value] =>
    match p.sequential? target with
    | none => .error (.noVectorForm (u.print n))
    | some array => do
      let x ← p.term u prof value
      match op with
      | .set => return .store array x
      | .update b =>
        match vecOp? b with
        | some o => return .update (← supported prof o) array x
        | none => .error (.noVectorForm (u.print n))
      | .define => .error (.noVectorForm (u.print n))
  | _ => .error (.noVectorForm (u.print n))

def vecStmt (u : SourceUnit) (prof : Profile) (n : Node) : Except LoopError VecStmt :=
  match Loop.reductionOf? n with
  | some (v, x) =>
    if p.reduction == some v then do return .accumulate (← p.term u prof x)
    else p.storeStmt u prof n
  | none => p.storeStmt u prof n

def vecBody (u : SourceUnit) (prof : Profile) : Except LoopError (List VecStmt) :=
  p.body.mapM (p.vecStmt u prof)

/-! ## Text -/

/-- An intrinsic call, under a predicate where the target has them. -/
def callText (prof : Profile) (pred fn : String) (args : List String) : String :=
  fn ++ "(" ++ join ", " (if prof.isPredicated then pred :: args else args) ++ ")"

def vecName (array : String) : String := array ++ "_vec"

def addressText (prof : Profile) (array : String) : String :=
  let a := array ++ " + " ++ p.iterator
  if prof.ptrCast != "" then prof.ptrCast ++ "(" ++ a ++ ")" else a

def termText (prof : Profile) (pred : String) : VecTerm → String
  | .load array => vecName array
  | .scalar text | .literal text => prof.dupFn ++ "(" ++ text ++ ")"
  | .arith op x y =>
    callText prof pred (prof.arithmeticFn op) [termText prof pred x, termText prof pred y]

def storeText (prof : Profile) (pred array value : String) : String :=
  callText prof pred prof.storeFn [p.addressText prof array, value] ++ ";"

def stmtText (prof : Profile) (pred : String) : VecStmt → String
  | .accumulate x =>
    "sum_vec = " ++ callText prof pred prof.addFn ["sum_vec", termText prof pred x] ++ ";"
  | .store array x => p.storeText prof pred array (termText prof pred x)
  | .update op array x => p.storeText prof pred array
      (callText prof pred (prof.arithmeticFn op) [vecName array, termText prof pred x])

def loadText (prof : Profile) (pred array : String) : String :=
  prof.vecType ++ " " ++ vecName array ++ " = " ++
    callText prof pred prof.loadFn [p.addressText prof array] ++ ";"

/-- The lines of a body: every array that is read is loaded once, before all statements. -/
def bodyLines (prof : Profile) (pred : String) (stmts : List VecStmt) : List String :=
  (addNew [] (stmts.flatMap (·.loads))).map (p.loadText prof pred) ++
    stmts.map (p.stmtText prof pred)

def terminate (line : String) : String :=
  if line == "" || endsWith line ";" || endsWith line "\x7b" || endsWith line "\x7d" then line
  else line ++ ";"

/-- The body as it was, for the iterations that fill no vector. -/
def scalarLines (u : SourceUnit) : List String :=
  p.body.flatMap fun s => Text.splitAt '\n' (terminate (u.print s))

def setupLines (prof : Profile) : List String :=
  ["// vectorized loop: " ++ p.iterator ++ " = " ++ toString p.start ++ " to " ++ p.bound,
    "// target: " ++ prof.target ++ ", " ++ prof.elemType ++ " elements"] ++
    (if prof.isPredicated then
      ["svbool_t pg = " ++ prof.predicate ++ ";", "size_t vl = " ++ prof.lanes ++ ";"]
    else ["const size_t vl = " ++ prof.lanes ++ ";"]) ++
    ["size_t " ++ p.iterator ++ " = " ++ toString p.start ++ ";"] ++
    (if p.reduction.isSome then
      [prof.vecType ++ " sum_vec = " ++ prof.dupFn ++ "(0);"] else [])

def indented (lines : List String) : List String := lines.map ("    " ++ ·)

def mainLines (prof : Profile) (stmts : List VecStmt) : List String :=
  ["", "// main vector loop", "for (; " ++ p.iterator ++ " + vl <= " ++ p.bound ++ "; " ++
    p.iterator ++ " += vl) \x7b"] ++ indented (p.bodyLines prof "pg" stmts) ++ ["\x7d"]

def tailLines (u : SourceUnit) (prof : Profile) (stmts : List VecStmt) : List String :=
  ["", "// tail"] ++
    (if prof.isPredicated then
      ["if (" ++ p.iterator ++ " < " ++ p.bound ++ ") \x7b"] ++
        indented (("svbool_t pg_tail = " ++ prof.tailPredicate ++ "((uint64_t)" ++ p.iterator ++
          ", (uint64_t)" ++ p.bound ++ ");") :: p.bodyLines prof "pg_tail" stmts)
    else
      ["for (; " ++ p.iterator ++ " < " ++ p.bound ++ "; " ++ p.iterator ++ "++) \x7b"] ++
        indented (p.scalarLines u)) ++ ["\x7d"]

def reductionLines (prof : Profile) : List String :=
  match p.reduction with
  | none => []
  | some v =>
    ["", "// horizontal reduction"] ++
      if prof.isPredicated then [v ++ " += " ++ prof.reduceFn ++ "(pg, sum_vec);"]
      else if prof.reduceFn != "" then [v ++ " += " ++ prof.reduceFn ++ "(sum_vec);"]
      else
        [prof.elemType ++ " spill[" ++ prof.lanes ++ "];",
          prof.storeFn ++ "(" ++ prof.ptrCast ++ "spill, sum_vec);",
          "for (int j = 0; j < " ++ prof.lanes ++ "; j++) " ++ v ++ " += spill[j];"]

/-- The vector form of a loop for a target: set-up, main loop, tail and horizontal sum. -/
def generate (u : SourceUnit) (target : String) : Except LoopError String :=
  if !p.isVectorizable then .error (.notVectorizable p.reasons)
  else match Profile.find? target p.elemType with
    | none => .error (.noProfile target p.elemType)
    | some prof => do
      let stmts ← p.vecBody u prof
      let lines := p.setupLines prof ++ p.mainLines prof stmts ++ p.tailLines u prof stmts ++
        p.reductionLines prof
      return String.join (lines.map (· ++ "\n"))

end LoopPattern

end Retarget
