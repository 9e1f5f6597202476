/-
# Yaml.ScalarText -- the characters of a scalar

Plain scalars, scalars between quotes and block scalars, read at a cursor. A scalar may go on
over several lines: a single line end between two words reads as a blank, of several all but
the first stay, and blanks around them are dropped. `Folding` keeps what has been read and the
blanks and line ends since. Every reader fails on a scalar that is not well formed.
-/
import Retarget.Text.Integer
import Retarget.Yaml.Cursor

namespace Retarget.Yaml

/-! ## Folding -/

/-- The characters read so far, from the last to the first, and the gap behind them: its blanks
while it is within a line, then its first line end and the further ones. -/
structure Folding where
  text : List Char := []
  blanks : List Char := []
  broken : Bool := false
  first : Option Char := none
  more : List Char := []

namespace Folding

/-- What the gap reads as. -/
def gap (f : Folding) : List Char :=
  if !f.broken then f.blanks
  else if f.first == some '\n' then if f.more.isEmpty then [' '] else f.more
  else f.first.toList ++ f.more

def hasGap (f : Folding) : Bool := f.broken || !f.blanks.isEmpty

/-- Close the gap. -/
def close (f : Folding) : Folding := { text := f.gap.reverse ++ f.text }

def put (f : Folding) (c : Char) : Folding := { text := c :: f.close.text }

def blank (f : Folding) (c : Char) : Folding :=
  if f.broken then f else { f with blanks := f.blanks ++ [c] }

def lineEnd (f : Folding) (c : Char) : Folding :=
  if f.broken then { f with more := f.more ++ [c] }
  else { f with blanks := [], broken := true, first := some c }

/-- The text with its gap. -/
def whole (f : Folding) : String := String.ofList f.close.text.reverse

/-- The text without its gap. -/
def trimmed (f : Folding) : String := String.ofList f.text.reverse

end Folding

/-! ## Plain scalars -/

def flowIndicators : List Char := [',', '?', '[', ']', '\x7b', '\x7d']

/-- The text ahead ends a plain scalar: a colon before a blank or, inside brackets, an
indicator. -/
def endsPlain (flow : Bool) : List Char → Bool
  | [] => true
  | c :: cs => (c == ':' && endsWord cs) || (flow && flowIndicators.contains c)

/-- The rest of a plain scalar. Its later lines must be indented to `least`, and not by a tab,
unless it stands inside brackets. The gap behind the scalar is passed too. -/
def plainFrom (flow : Bool) (least : Nat) : Nat → Folding → Cursor → Option (Folding × Cursor)
  | 0, _, _ => none
  | n + 1, f, c =>
    match c.lineEnd? with
    | some (ch, next) => plainFrom flow least n (f.lineEnd ch) next
    | none => match c.rest with
      | [] => some (f, c)
      | ch :: _ =>
        if isBlank ch then
          if f.broken && c.column < least && ch == '\t' then none
          else plainFrom flow least n (f.blank ch) c.step
        else if f.hasGap && ((!flow && c.column < least) || c.atDocumentMark || ch == '#') then
          some (f, c)
        else if endsPlain flow c.rest then some (f, c)
        else plainFrom flow least n (f.put ch) c.step

/-! ## Scalars between quotes -/

/-- The rest of a scalar between single quotes, where a doubled quote stands for one. -/
def singleFrom : Nat → Folding → Cursor → Option (String × Cursor)
  | 0, _, _ => none
  | n + 1, f, c =>
    match c.lineEnd? with
    | some (ch, next) => singleFrom n (f.lineEnd ch) next
    | none =>
      if c.atDocumentMark then none
      else match c.rest with
        | [] => none
        | '\'' :: '\'' :: _ => singleFrom n (f.put '\'') (c.steps 2)
        | '\'' :: _ => some (f.whole, c.step)
        | ch :: _ => singleFrom n (if isBlank ch then f.blank ch else f.put ch) c.step

def escapes : List (Char × Nat) := [
  ('0', 0), ('a', 7), ('b', 8), ('t', 9), ('\t', 9), ('n', 10), ('v', 11), ('f', 12), ('r', 13),
  ('e', 0x1b), (' ', 0x20), ('"', 0x22), ('\'', 0x27), ('\\', 0x5c), ('N', 0x85), ('_', 0xa0),
  ('L', 0x2028), ('P', 0x2029)]

/-- The number of digits of an escape by code. -/
def codeLength (c : Char) : Nat :=
  if c == 'x' then 2 else if c == 'u' then 4 else if c == 'U' then 8 else 0

/-- The character that an escape stands for, and the length of the escape without its
backslash. -/
def escape? : List Char → Option (Char × Nat)
  | [] => none
  | c :: cs =>
    match escapes.lookup c with
    | some n => some (Char.ofNat n, 1)
    | none => do
      let size := codeLength c
      let digits ← (cs.take size).mapM Text.digitValue?
      let code := digits.foldl (fun n d => n * 16 + d) 0
      if size != 0 && digits.length == size && digits.all (· < 16) && code.isValidChar then
        some (Char.ofNat code, size + 1)
      else none

/-- The rest of a scalar between double quotes. A backslash before a line end drops it together
with the blanks that follow. -/
def doubleFrom : Nat → Folding → Cursor → Option (String × Cursor)
  | 0, _, _ => none
  | n + 1, f, c =>
    match c.lineEnd? with
    | some (ch, next) => doubleFrom n (f.lineEnd ch) next
    | none =>
      if c.atDocumentMark then none
      else match c.rest with
        | [] => none
        | '"' :: _ => some (f.whole, c.step)
        | '\\' :: cs =>
          match c.step.lineEnd? with
          | some (_, next) => doubleFrom n { f.close with broken := true } next
          | none => do
            let (ch, size) ← escape? cs
            doubleFrom n (f.put ch) (c.steps (size + 1))
        | ch :: _ => doubleFrom n (if isBlank ch then f.blank ch else f.put ch) c.step

/-! ## Block scalars -/

inductive Chomping where
  | strip | clip | keep
deriving DecidableEq

def chomping? (c : Char) : Option Chomping :=
  if c == '-' then some .strip else if c == '+' then some .keep else none

/-- The chomping and the indentation in the header of a block scalar, in either order; an
indentation of zero is refused. -/
def blockHeader (c : Cursor) : Option (Chomping × Nat × Cursor) :=
  let digit (c : Cursor) : Option (Nat × Cursor) :=
    match c.rest with
    | ch :: _ =>
      if ch == '0' then none
      else if '1' ≤ ch && ch ≤ '9' then some (ch.toNat - '0'.toNat, c.step)
      else some (0, c)
    | [] => some (0, c)
  let sign (c : Cursor) : Option (Chomping × Cursor) :=
    (c.rest.head?.bind chomping?).map (·, c.step)
  match sign c with
  | some (chomping, c) => (digit c).map fun (n, c) => (chomping, n, c)
  | none => (digit c).map fun (n, after) =>
    match if n == 0 then none else sign after with
    | some (chomping, c) => (chomping, n, c)
    | none => (.clip, n, after)

/-- The rest of the header's line, which may hold a comment. -/
def pastHeader (c : Cursor) : Option Cursor :=
  let c := c.pastBlanks
  let c := if c.rest.head? == some '#' then c.toLineEnd else c
  if endsLine c.rest then some c.pastLineEnd else none

/-- Pass indentation and empty lines. Where no indentation is known yet (`indent` is zero), all
blanks are passed and the largest column is noted. A tab may not stand in the indentation. -/
def blockBreaks (indent : Nat) : Nat → Nat → List Char → Cursor →
    Option (Nat × List Char × Cursor)
  | 0, _, _, _ => none
  | n + 1, most, breaks, c =>
    let inside := c.rest.takeWhile (· == ' ')
    let size := if indent == 0 then inside.length else min inside.length (indent - c.column)
    let c := c.steps size
    let most := max most c.column
    if (indent == 0 || c.column < indent) && c.rest.head? == some '\t' then none
    else match c.lineEnd? with
      | some (ch, next) => blockBreaks indent n most (breaks ++ [ch]) next
      | none => some (most, breaks, c)

/-- The text of a block scalar from the last character to the first, and the line ends behind
it: the first and the others. -/
structure BlockText where
  text : List Char := []
  first : List Char := []
  more : List Char := []
  /-- Whether the line before starts with a blank. -/
  leading : Bool := false

/-- Add a line that starts with a blank or not. A folded scalar joins two lines that do not. -/
def BlockText.join (b : BlockText) (literal blank : Bool) : List Char :=
  let folds := !literal && !b.leading && !blank && b.first == ['\n']
  let first := if folds then if b.more.isEmpty then [' '] else [] else b.first
  (first ++ b.more).reverse ++ b.text

/-- The lines of a block scalar that are indented to `indent`. -/
def blockLines (literal : Bool) (indent : Nat) : Nat → BlockText → Cursor →
    Option (BlockText × Cursor)
  | 0, _, _ => none
  | n + 1, b, c =>
    if c.column == indent && !c.rest.isEmpty then do
      let blank := c.rest.head?.any isBlank
      let (line, c) := c.span (!isBreak ·)
      let text := line.reverse ++ b.join literal blank
      let (first, c) := match c.lineEnd? with
        | some (ch, next) => ([ch], next)
        | none => ([], c)
      let (_, more, c) ← blockBreaks indent (c.rest.length + 1) 0 [] c
      blockLines literal indent n ⟨text, first, more, blank⟩ c
    else some (b, c)

/-- A block scalar inside a structure indented to `parent`, which is negative at the top; the
cursor stands behind its mark. -/
def blockScalar (literal : Bool) (parent : Int) (c : Cursor) : Option (String × Cursor) := do
  let (chomping, increment, c) ← blockHeader c
  let c ← pastHeader c
  let given := if increment == 0 then 0 else (max parent 0).toNat + increment
  let (most, more, c) ← blockBreaks given (c.rest.length + 1) 0 [] c
  let indent := if given == 0 then max most (max (parent + 1) 1).toNat else given
  let (b, c) ← blockLines literal indent (c.rest.length + 1) { more := more } c
  let tail := match chomping with
    | .strip => []
    | .clip => b.first
    | .keep => b.first ++ b.more
  return (String.ofList (b.text.reverse ++ tail), c)

end Retarget.Yaml
