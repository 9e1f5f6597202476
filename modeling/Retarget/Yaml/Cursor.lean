/-
# Yaml.Cursor -- a place in a text

A `Cursor` is the text still to be read together with the number of characters, lines and
columns passed. There are five characters that end a line; three of them, and a carriage return
before a line feed, read as a line feed, and the two separators read as themselves.
-/

namespace Retarget.Yaml

/-! ## Characters -/

def isBlank (c : Char) : Bool := c == ' ' || c == '\t'

/-- Line feed, carriage return, next line, line separator and paragraph separator. -/
def isBreak (c : Char) : Bool :=
  let n := c.toNat
  n == 10 || n == 13 || n == 0x85 || n == 0x2028 || n == 0x2029

/-- What a character that ends a line reads as. -/
def breakText (c : Char) : Char :=
  if c.toNat == 0x2028 || c.toNat == 0x2029 then c else '\n'

/-- A line end or the end of the text follows. -/
def endsLine : List Char → Bool
  | [] => true
  | c :: _ => isBreak c

/-- A blank, a line end or the end of the text follows. -/
def endsWord : List Char → Bool
  | [] => true
  | c :: _ => isBlank c || isBreak c

/-- The characters of names and of version numbers. -/
def isWordChar (c : Char) : Bool := c.isAlphanum || c == '_' || c == '-'

/-! ## Places -/

structure Cursor where
  rest : List Char
  index : Nat := 0
  line : Nat := 0
  column : Nat := 0
  /-- Whether a line end lies before the cursor with nothing but blanks in between. -/
  fresh : Bool := false
deriving Inhabited

namespace Cursor

/-- Pass one character that does not end a line. -/
def step (c : Cursor) : Cursor :=
  match c.rest with
  | [] => c
  | ch :: cs =>
    { c with rest := cs, index := c.index + 1, column := c.column + 1,
             fresh := c.fresh && isBlank ch }

def steps (c : Cursor) : Nat → Cursor
  | 0 => c
  | n + 1 => c.step.steps n

/-- Pass characters as long as they satisfy `p`, which no line end does. -/
def span (p : Char → Bool) (c : Cursor) : List Char × Cursor :=
  let taken := c.rest.takeWhile p
  (taken,
    { c with rest := c.rest.dropWhile p, index := c.index + taken.length,
             column := c.column + taken.length, fresh := c.fresh && taken.all isBlank })

def pastBlanks (c : Cursor) : Cursor := (c.span isBlank).2

def toLineEnd (c : Cursor) : Cursor := (c.span (!isBreak ·)).2

/-- Pass a line end, and tell what it reads as. -/
def lineEnd? (c : Cursor) : Option (Char × Cursor) :=
  let below (rest : List Char) (n : Nat) : Cursor :=
    { rest := rest, index := c.index + n, line := c.line + 1, column := 0, fresh := true }
  match c.rest with
  | '\r' :: '\n' :: cs => some ('\n', below cs 2)
  | ch :: cs => if isBreak ch then some (breakText ch, below cs 1) else none
  | [] => none

def pastLineEnd (c : Cursor) : Cursor := (c.lineEnd?.map (·.2)).getD c

/-- Pass blanks and line ends, at most `n` of them. -/
def pastSpace (c : Cursor) : Nat → Cursor
  | 0 => c
  | n + 1 =>
    match c.lineEnd? with
    | some (_, next) => next.pastSpace n
    | none => match c.rest with
      | ch :: _ => if isBlank ch then c.step.pastSpace n else c
      | [] => c

/-- A mark of three characters at the start of a line, alone or before a blank. -/
def atMark (c : Cursor) (mark : String) : Bool :=
  c.column == 0 && mark.toList.isPrefixOf c.rest && endsWord (c.rest.drop 3)

/-- The start or the end of a document. -/
def atDocumentMark (c : Cursor) : Bool := c.atMark "---" || c.atMark "..."

end Cursor

end Retarget.Yaml
