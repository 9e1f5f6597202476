/-
# Source.Line -- line and column of a byte

A comment whose text starts with `line ` and ends with a number, or with two, says which line
and column the text after it counts as. `LineTable` keeps where lines really start and the
claims of such comments; `LineTable.place` answers with the last claim before a byte.

A comment of this form must stand at the start of its line, unless it is closed by a star and
a slash. A number that is zero or very large makes the file ill-formed.
-/
import Retarget.Text.Integer

namespace Retarget.Source

/-- A comment with the byte at which it starts, and the byte after it. The line end after a
comment that runs to the end of the line belongs to it. -/
structure Comment where
  text : List Char
  start : Nat
  next : Nat

/-- The text from byte `offset` on counts as `line`, and as `column` unless that is zero. -/
structure LineClaim where
  offset : Nat
  line : Int
  column : Int
deriving Repr, DecidableEq, Inhabited

namespace LineClaim

/-- Cut a text at its last colon. What follows is a number if it is one within 64 bits, which
is then taken as signed. -/
def splitNumber (cs : List Char) : Option (List Char × Option Int) :=
  let after := (cs.reverse.takeWhile (· != ':')).reverse
  if after.length == cs.length then none
  else
    let number := if after.isEmpty then none else match Text.readDigits 10 false 0 after with
      | some (n, true) => some (Int.bmod n (Text.maxWord64 + 1))
      | _ => none
    some (cs.take (cs.length - after.length - 1), number)

def isAllowed (n : Int) : Bool := n != 0 && n ≤ 1073741824

/-- The line and column that the text of a comment claims: nothing without a colon, and a
refusal when the claim is not a number or not allowed. -/
def read (cs : List Char) : Option (Option (Int × Int)) :=
  match splitNumber cs with
  | none => some none
  | some (_, none) => none
  | some (before, some n) =>
    let (line, column) := match splitNumber before with
      | some (_, some m) => (m, some n)
      | _ => (n, none)
    if isAllowed line && column.all isAllowed then some (some (line, column.getD 0)) else none

end LineClaim

namespace Comment

def isClosed (c : Comment) : Bool := c.text[1]? == some '*'

/-- The text of a comment without its marks. -/
def body (c : Comment) : List Char :=
  let inner := c.text.drop 2
  if c.isClosed then inner.take (inner.length - 2)
  else if inner.getLast? == some '\r' then inner.dropLast
  else inner

/-- The claim of a comment, refused when it is wrong; `atStart` tells whether the comment
stands at the start of its line. -/
def claim (atStart : Bool) (c : Comment) : Option (Option LineClaim) :=
  let mark := "line ".toList
  if (c.isClosed || atStart) && mark.isPrefixOf c.body then
    (LineClaim.read (c.body.drop mark.length)).map
      (Option.map fun (line, column) => ⟨c.next, line, column⟩)
  else some none

end Comment

/-- The bytes at which lines start, and the claims of comments, both in order. -/
structure LineTable where
  starts : List Nat
  claims : List LineClaim
deriving Repr, Inhabited

namespace LineTable

def startsOf (text : String) : List Nat :=
  (text.toList.foldl (fun (offset, starts) c =>
    let offset := offset + c.utf8Size
    (offset, if c == '\n' then offset :: starts else starts)) (0, [0])).2.reverse

/-- The table of a text with the given comments; a claim about nothing is dropped. -/
def of? (text : String) (comments : List Comment) : Option LineTable := do
  let starts := startsOf text
  let claims ← comments.mapM fun c => c.claim (starts.contains c.start)
  return ⟨starts, (claims.filterMap id).filter fun c => c.offset < text.utf8ByteSize⟩

variable (t : LineTable)

/-- Line and byte column as the bytes stand, both from one. -/
def physical (offset : Nat) : Nat × Nat :=
  let before := t.starts.takeWhile (· ≤ offset)
  (before.length, offset - (before.getLast?.getD 0) + 1)

/-- Line and column of a byte as claimed. After a claim without a column the column is zero; a
claimed column holds for the rest of its line. -/
def place (offset : Nat) : Int × Int :=
  let (line, column) := t.physical offset
  match (t.claims.takeWhile fun c => c.offset ≤ offset).getLast? with
  | none => (line, column)
  | some c =>
    let down := line - (t.physical c.offset).1
    (c.line + down,
      if c.column == 0 then 0
      else if down == 0 then c.column + (offset - c.offset)
      else column)

end LineTable

end Retarget.Source
