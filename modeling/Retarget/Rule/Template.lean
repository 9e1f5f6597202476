/-
# Rule.Template -- code with named holes

A template is text in which a name between doubled braces stands for a value. Its segments are
found once; rendering fills every hole in one pass, so a value that itself contains doubled
braces stays as it is. Holes without a value are left in place and reported together.
-/
import Retarget.Text.Basic
import Retarget.Text.Quoted

namespace Retarget

open Retarget.Text (trim quoted join sorted addNew)

inductive Segment where
  | literal (text : String)
  | hole (name : String)
deriving Repr, DecidableEq, Inhabited

inductive TemplateError where
  | unterminated (code : String)
  | badName (name code : String)
  | unresolved (names : List String)
deriving Repr, DecidableEq, Inhabited

def TemplateError.message : TemplateError → String
  | unterminated code => "unterminated placeholder in " ++ quoted code
  | badName name code => "bad placeholder " ++ quoted name ++ " in " ++ quoted code
  | unresolved names => "unresolved placeholders: " ++ join ", " names

/-- Values by the name of the hole they fill. -/
abbrev Bindings := List (String × String)

/-- Bind a name anew. -/
def Bindings.put (b : Bindings) (name value : String) : Bindings :=
  (name, value) :: b.filter (·.1 != name)

/-- The hole of the operand at position `i`. -/
def inputName (i : Nat) : String := "input_" ++ toString i

namespace Template

/-! ## Segments -/

def openMark : String := "\x7b\x7b"
def closeMark : String := "\x7d\x7d"

def isHoleChar (c : Char) : Bool :=
  c == '_' || ('a' ≤ c && c ≤ 'z') || ('A' ≤ c && c ≤ 'Z') || ('0' ≤ c && c ≤ '9')

def isHoleName (name : String) : Bool := name != "" && name.toList.all isHoleChar

def literalOf (chars : List Char) : List Segment :=
  if chars.isEmpty then [] else [.literal (String.ofList chars)]

/-- Segments found before the first fault, and the fault. -/
structure Parsed where
  segments : List Segment
  error : Option TemplateError := none
deriving Repr, DecidableEq, Inhabited

def Parsed.prepend (segments : List Segment) (p : Parsed) : Parsed :=
  { p with segments := segments ++ p.segments }

/-- Walk the characters, inside or outside a hole, with those read since its last edge. -/
def parseChars (code : String) (inHole : Bool) (read : List Char) : List Char → Parsed
  | [] => if inHole then ⟨[], some (.unterminated code)⟩ else ⟨literalOf read, none⟩
  | '\x7b' :: '\x7b' :: cs =>
    if inHole then parseChars code true (read ++ ['\x7b', '\x7b']) cs
    else (parseChars code true [] cs).prepend (literalOf read)
  | '\x7d' :: '\x7d' :: cs =>
    if inHole then
      let name := trim (String.ofList read)
      if isHoleName name then (parseChars code false [] cs).prepend [.hole name]
      else ⟨[], some (.badName name code)⟩
    else parseChars code false (read ++ ['\x7d', '\x7d']) cs
  | c :: cs => parseChars code inHole (read ++ [c]) cs

def parse (code : String) : Parsed := parseChars code false [] code.toList

end Template

structure Template where
  code : String
  headers : List String := []
  auxiliary : List String := []
  hints : List (String × String) := []
  /-- The parsed code; empty until the template is compiled. -/
  segments : List Segment := []
deriving Repr, DecidableEq, Inhabited

namespace Template

variable (t : Template)

/-- The template with its code parsed, as far as it can be. -/
def compiled : Template := { t with segments := (parse t.code).segments }

def compileError? : Option TemplateError := (parse t.code).error

/-- A template that was never compiled is compiled when it is first rendered. -/
def prepared : Template := if t.segments.isEmpty then t.compiled else t

/-- The distinct holes in the order of their first appearance. -/
def placeholders : List String :=
  addNew [] (t.segments.filterMap fun s =>
    match s with
    | .hole name => some name
    | .literal _ => none)

/-! ## Rendering -/

def renderSegment (b : Bindings) : Segment → String
  | .literal text => text
  | .hole name => (b.lookup name).getD (openMark ++ name ++ closeMark)

def renderSegments (b : Bindings) (segments : List Segment) : String :=
  String.join (segments.map (renderSegment b))

/-- The holes without a value, sorted. -/
def missing (b : Bindings) (segments : List Segment) : List String :=
  sorted (addNew [] (segments.filterMap fun s =>
    match s with
    | .hole name => if (b.lookup name).isNone then some name else none
    | .literal _ => none))

/-- The text with every bound hole filled, and what went wrong. -/
def render (b : Bindings) : String × Option TemplateError :=
  let fault := if t.segments.isEmpty then t.compileError? else none
  match fault with
  | some e => ("", some e)
  | none =>
    let segments := t.prepared.segments
    let names := missing b segments
    (renderSegments b segments, if names.isEmpty then none else some (.unresolved names))

/-- The type of the value the code computes; empty when it is not given. -/
def returnType : String := (t.hints.lookup "return_type").getD ""

end Template

end Retarget
