/-
# Yaml.Token -- the tokens of a stream

Tokens are the indicators, scalars and names of a stream, together with marks for the start and
end of block structure, which indentation alone shows. `tokenize` reads them up to the first
fault.

A colon makes a key of what stands before it on the same line. So the reader notes where a key
may have started, for each level of brackets, and puts the mark of a key in front of the tokens
that turn out to be one. Indentation deeper than that of the enclosing block opens a block, and
lesser indentation closes those that are deeper.
-/
import Retarget.Yaml.ScalarText

namespace Retarget.Yaml

inductive Token where
  | version (major minor : Nat)
  | handle (name start : String)
  | documentStart
  | documentEnd
  | streamEnd
  | blockSequence
  | blockMapping
  | blockEnd
  | flowSequence
  | flowSequenceEnd
  | flowMapping
  | flowMappingEnd
  | blockEntry
  | flowEntry
  | key
  | value
  | mention (name : String)
  | anchor (name : String)
  | tag (handle rest : String)
  | scalar (text : String) (plain : Bool)
deriving Repr, DecidableEq, Inhabited

/-! ## Names, tags and directives -/

/-- The characters of a tag, apart from those of names. -/
def tagChars : List Char :=
  [';', '/', '?', ':', '@', '&', '=', '+', '$', ',', '.', '!', '~', '*', '\'', '(', ')', '[',
    ']', '%']

def isTagChar (c : Char) : Bool := isWordChar c || tagChars.contains c

def hexByte? (a b : Char) : Option Nat := do
  let x ← Text.digitValue? a
  let y ← Text.digitValue? b
  if x < 16 && y < 16 then some (x * 16 + y) else none

/-- The number of bytes of a character by its first byte. -/
def sequenceLength? (byte : Nat) : Option Nat :=
  if byte < 0x80 then some 1
  else if byte / 32 == 6 then some 2
  else if byte / 16 == 14 then some 3
  else if byte / 8 == 30 then some 4
  else none

/-- Replace percent escapes; `open_` counts the bytes a character still needs. The bytes of a
character beyond ASCII are kept one by one. -/
def unescapeTag (open_ : Nat) : List Char → Option (List Char)
  | [] => if open_ == 0 then some [] else none
  | '%' :: a :: b :: cs => do
    let byte ← hexByte? a b
    let left ← if open_ == 0 then (sequenceLength? byte).map (· - 1)
      else if byte / 64 == 2 then some (open_ - 1) else none
    return Char.ofNat byte :: (← unescapeTag left cs)
  | c :: cs => if open_ == 0 && c != '%' then (unescapeTag 0 cs).map (c :: ·) else none

/-- The characters of a tag behind its handle. -/
def tagRest? (c : Cursor) : Option (List Char × Cursor) :=
  let (taken, next) := c.span isTagChar
  (unescapeTag 0 taken).map (·, next)

/-- A handle: an exclamation mark, or a word between two. -/
def tagHandle? (c : Cursor) : Option (List Char × Cursor) :=
  match c.rest with
  | '!' :: _ =>
    let (word, next) := c.step.span isWordChar
    match next.rest with
    | '!' :: _ => some ('!' :: word ++ ['!'], next.step)
    | _ => some ('!' :: word, next)
  | _ => none

/-- A tag: verbatim between angle brackets, with a handle, or after a single mark. A blank or
the end of the line must follow. -/
def tag? (c : Cursor) : Option (Token × Cursor) := do
  let (token, next) ← if c.rest[1]? == some '<' then do
      let (rest, next) ← tagRest? (c.steps 2)
      if rest.isEmpty || next.rest.head? != some '>' then none
      else some (Token.tag "" (String.ofList rest), next.step)
    else do
      let (handle, after) ← tagHandle? c
      let (rest, next) ← tagRest? after
      if 1 < handle.length && handle.getLast? == some '!' then
        if rest.isEmpty then none
        else some (Token.tag (String.ofList handle) (String.ofList rest), next)
      else
        let rest := handle.drop 1 ++ rest
        some (if rest.isEmpty then Token.tag "" "!" else Token.tag "!" (String.ofList rest), next)
  if endsWord next.rest then some (token, next) else none

/-- A name after its indicator. -/
def name? (c : Cursor) : Option (String × Cursor) :=
  let (word, next) := c.step.span isWordChar
  let closed := endsWord next.rest ||
    next.rest.head?.any ['?', ':', ',', ']', '\x7d', '%', '@', '\x60'].contains
  if word.isEmpty || !closed then none else some (String.ofList word, next)

/-- One or two digits of a version. -/
def versionNumber? (c : Cursor) : Option (Nat × Cursor) :=
  let (digits, next) := c.span fun ch => '0' ≤ ch && ch ≤ '9'
  if digits.isEmpty || 2 < digits.length then none
  else some (digits.foldl (fun n ch => n * 10 + (ch.toNat - '0'.toNat)) 0, next)

def versionDirective? (c : Cursor) : Option (Token × Cursor) := do
  let (major, c) ← versionNumber? c.pastBlanks
  if c.rest.head? != some '.' then none
  let (minor, c) ← versionNumber? c.step
  return (.version major minor, c)

def handleDirective? (c : Cursor) : Option (Token × Cursor) := do
  let (handle, c) ← tagHandle? c.pastBlanks
  let isHandle := handle.length == 1 || handle.getLast? == some '!'
  if !isHandle || !c.rest.head?.any isBlank then none
  let (start, c) ← tagRest? c.pastBlanks
  if start.isEmpty || !endsWord c.rest then none
  return (.handle (String.ofList handle) (String.ofList start), c)

/-- A directive with its line. -/
def directive? (c : Cursor) : Option (Token × Cursor) := do
  let (word, c) := c.step.span isWordChar
  if !endsWord c.rest then none
  let (token, c) ← match String.ofList word with
    | "YAML" => versionDirective? c
    | "TAG" => handleDirective? c
    | _ => none
  return (token, ← pastHeader c)

/-! ## The reader's state -/

/-- Where a key may have started. In a block it must be one when it stands at the indentation
of the block. -/
structure KeyStart where
  required : Bool
  /-- The number of tokens before it. -/
  slot : Nat
  index : Nat
  line : Nat
  column : Nat

/-- A key ends on its line, at most 1024 characters after its start. -/
def KeyStart.isOpen (k : KeyStart) (c : Cursor) : Bool :=
  k.line == c.line && c.index ≤ k.index + 1024

structure Lexer where
  cursor : Cursor
  /-- The text goes on, but cannot be read beyond its present end. -/
  cut : Bool := false
  /-- The indentation of the blocks that are open, the innermost first. -/
  indents : List Nat := []
  /-- The possible key of the present level of brackets. -/
  keyStart : Option KeyStart := none
  /-- Those of the levels outside. -/
  outer : List (Option KeyStart) := []
  keyAllowed : Bool := true
  tokens : Array Token := #[]
deriving Inhabited

namespace Lexer

def inFlow (s : Lexer) : Bool := !s.outer.isEmpty

/-- The indentation of the innermost block; negative outside all blocks. -/
def indent (s : Lexer) : Int :=
  match s.indents with
  | n :: _ => n
  | [] => -1

def push (s : Lexer) (t : Token) : Lexer := { s with tokens := s.tokens.push t }

/-- Pass an indicator of `n` characters. -/
def take (s : Lexer) (n : Nat) (t : Token) : Lexer :=
  { s with cursor := s.cursor.steps n }.push t

def insert (s : Lexer) (slot : Nat) (new : List Token) : Lexer :=
  { s with tokens := s.tokens.extract 0 slot ++ new.toArray ++
      s.tokens.extract slot s.tokens.size }

def allowKey (s : Lexer) (yes : Bool) : Lexer := { s with keyAllowed := yes }

/-- Give up the possible key, which is a fault when it had to be one. -/
def dropKey (s : Lexer) : Option Lexer :=
  if s.keyStart.any (·.required) then none else some { s with keyStart := none }

/-- Note that a key may start here. -/
def noteKey (s : Lexer) : Option Lexer :=
  if s.keyAllowed then do
    let c := s.cursor
    let start : KeyStart :=
      ⟨!s.inFlow && s.indent == c.column, s.tokens.size, c.index, c.line, c.column⟩
    return { ← s.dropKey with keyStart := some start }
  else some s

/-! ## Indentation -/

/-- The number of blocks that may be nested. -/
def depthLimit : Nat := 10000

/-- Open a block at a column deeper than the present one. The mark of its start goes before the
token with number `slot`. -/
def openBlock (s : Lexer) (column slot : Nat) (mark : Token) : Option Lexer :=
  if s.inFlow || column ≤ s.indent then some s
  else if depthLimit ≤ s.indents.length then none
  else some ({ s with indents := column :: s.indents }.insert slot [mark])

/-- Close the blocks indented deeper than `column`. -/
def closeBlocks (s : Lexer) (column : Int) : Lexer :=
  if s.inFlow then s
  else
    let deeper := s.indents.takeWhile fun (n : Nat) => column < (n : Int)
    { s with indents := s.indents.drop deeper.length
             tokens := s.tokens ++ (Array.replicate deeper.length Token.blockEnd) }

/-! ## Between tokens -/

/-- Pass a comment and the lines of comments that follow it. -/
def pastComments : Nat → Cursor → Cursor
  | 0, c => c
  | n + 1, c =>
    let c := c.toLineEnd
    match c.rest with
    | [] => c
    | ch :: cs =>
      let gap := cs.takeWhile fun d => isBlank d || d == '\n' || d == '\r'
      if (ch == '\n' || ch == '\r') && gap.length < 511 && (cs.drop gap.length).head? == some '#' then
        pastComments n (c.pastSpace (gap.length + 1))
      else c

/-- Pass blanks, comments and line ends. In a block a tab does not count as a blank where a key
may start, and a key may start on a new line. -/
def toToken : Nat → Lexer → Lexer
  | 0, s => s
  | n + 1, s =>
    let tabs := s.inFlow || !s.keyAllowed
    let c := (s.cursor.span fun ch => ch == ' ' || (tabs && ch == '\t')).2
    let c := if c.rest.head? == some '#' then pastComments c.rest.length c else c
    match c.lineEnd? with
    | some (_, next) => toToken n { s with cursor := next, keyAllowed := s.keyAllowed || !s.inFlow }
    | none => { s with cursor := c }

/-- Pass a comment behind a token on the same line. -/
def pastLineComment (s : Lexer) : Lexer :=
  let blanks := s.cursor.rest.takeWhile isBlank
  if !s.cursor.fresh && blanks.length < 512 &&
      (s.cursor.rest.drop blanks.length).head? == some '#' then
    { s with cursor := s.cursor.toLineEnd }
  else s

/-! ## Tokens -/

def streamEnd (s : Lexer) : Option Lexer := do
  return ((← (s.closeBlocks (-1)).dropKey).allowKey false).push .streamEnd

def directive (s : Lexer) : Option Lexer := do
  let s := (← (s.closeBlocks (-1)).dropKey).allowKey false
  let (token, c) ← directive? s.cursor
  return { s with cursor := c }.push token

def documentMark (s : Lexer) (mark : Token) : Option Lexer := do
  return ((← (s.closeBlocks (-1)).dropKey).allowKey false).take 3 mark

def flowOpen (s : Lexer) (mark : Token) : Option Lexer := do
  let s ← s.noteKey
  if depthLimit ≤ s.outer.length then none
  return ({ s with outer := s.keyStart :: s.outer, keyStart := none }.allowKey true).take 1 mark

def flowClose (s : Lexer) (mark : Token) : Option Lexer := do
  let s ← s.dropKey
  let s := match s.outer with
    | [] => s
    | k :: ks => { s with keyStart := k, outer := ks }
  return (s.allowKey false).take 1 mark

def flowEntry (s : Lexer) : Option Lexer := do
  return ((← s.dropKey).allowKey true).take 1 .flowEntry

def blockEntry (s : Lexer) : Option Lexer := do
  if !s.inFlow && !s.keyAllowed then none
  let s ← s.openBlock s.cursor.column s.tokens.size .blockSequence
  return ((← s.dropKey).allowKey true).take 1 .blockEntry

def key (s : Lexer) : Option Lexer := do
  if !s.inFlow && !s.keyAllowed then none
  let s ← s.openBlock s.cursor.column s.tokens.size .blockMapping
  return ((← s.dropKey).allowKey (!s.inFlow)).take 1 .key

/-- The colon after a key that was announced by a mark of its own. -/
def valueOfMarked (s : Lexer) : Option Lexer := do
  if !s.inFlow && !s.keyAllowed then none
  let s ← s.openBlock s.cursor.column s.tokens.size .blockMapping
  return (s.allowKey (!s.inFlow)).take 1 .value

def value (s : Lexer) : Option Lexer :=
  match s.keyStart with
  | none => s.valueOfMarked
  | some k =>
    if k.isOpen s.cursor then do
      let s ← (s.insert k.slot [.key]).openBlock k.column k.slot .blockMapping
      return ({ s with keyStart := none }.allowKey false).take 1 .value
    else do (← s.dropKey).valueOfMarked

/-- A token that may be a key or start one, read by `read`. -/
def keyToken (s : Lexer) (read : Cursor → Option (Token × Cursor)) : Option Lexer := do
  let s := (← s.noteKey).allowKey false
  let (token, c) ← read s.cursor
  return { s with cursor := c }.push token

def quoted (read : Nat → Folding → Cursor → Option (String × Cursor)) (c : Cursor) :
    Option (Token × Cursor) :=
  (read c.rest.length {} c.step).map fun (text, next) => (.scalar text false, next)

/-- A plain scalar. A key may start after one that ends before its line does. -/
def plain (s : Lexer) : Option Lexer := do
  let s := (← s.noteKey).allowKey false
  let least := (s.indent + 1).toNat
  let (f, c) ← plainFrom s.inFlow least (s.cursor.rest.length + 1) {} s.cursor
  return ({ s with cursor := c }.allowKey f.broken).push (.scalar f.trimmed true)

def block (s : Lexer) (literal : Bool) : Option Lexer := do
  let s := (← s.dropKey).allowKey true
  let (text, c) ← blockScalar literal s.indent s.cursor.step
  return { s with cursor := c }.push (.scalar text false)

def indicators : List Char :=
  ['-', '?', ':', ',', '[', ']', '\x7b', '\x7d', '#', '&', '*', '!', '|', '>', '\'', '"', '%',
    '@', '\x60', '\t']

/-- The token that starts with the character `c` before `cs`. -/
def token (s : Lexer) (c : Char) (cs : List Char) : Option Lexer :=
  let blankNext := cs.head?.any isBlank
  match c with
  | '[' => s.flowOpen .flowSequence
  | '\x7b' => s.flowOpen .flowMapping
  | ']' => s.flowClose .flowSequenceEnd
  | '\x7d' => s.flowClose .flowMappingEnd
  | ',' => s.flowEntry
  | '*' => s.keyToken fun c => (name? c).map fun (name, next) => (.mention name, next)
  | '&' => s.keyToken fun c => (name? c).map fun (name, next) => (.anchor name, next)
  | '!' => s.keyToken tag?
  | '\'' => s.keyToken (quoted singleFrom)
  | '"' => s.keyToken (quoted doubleFrom)
  | _ =>
    if c == '-' && endsWord cs then s.blockEntry
    else if c == '?' && (s.inFlow || endsWord cs) then s.key
    else if c == ':' && (s.inFlow || endsWord cs) then s.value
    else if c == '|' && !s.inFlow then s.block true
    else if c == '>' && !s.inFlow then s.block false
    else if !indicators.contains c || (c == '-' && !blankNext) ||
        (!s.inFlow && (c == '?' || c == ':')) then s.plain
    else none

/-- Read the next token, with the marks that go before it. -/
def next (s : Lexer) : Option Lexer := do
  let s := toToken (s.cursor.rest.length + 1) s
  let s := s.closeBlocks s.cursor.column
  if s.cut && s.cursor.rest.length < 4 then none
  match s.cursor.rest with
  | [] => s.streamEnd
  | c :: cs =>
    if s.cursor.column == 0 && c == '%' then s.directive
    else if s.cursor.atMark "---" then s.documentMark .documentStart
    else if s.cursor.atMark "..." then s.documentMark .documentEnd
    else do
      let s ← s.token c cs
      let s := if s.tokens.back? == some .blockEntry then s else s.pastLineComment
      if s.cut && s.cursor.rest.isEmpty then none else return s

/-- All tokens up to the end of the stream, or those before a fault. A reader looks two tokens
ahead, so the last two before a fault are of no use to it. -/
def run : Nat → Lexer → List Token
  | 0, s => s.tokens.toList.dropLast.dropLast
  | n + 1, s =>
    match s.next with
    | none => s.tokens.toList.dropLast.dropLast
    | some s => if s.tokens.back? == some .streamEnd then s.tokens.toList else run n s

end Lexer

/-! ## Streams -/

/-- The characters a stream may hold. -/
def isAllowed (c : Char) : Bool :=
  let n := c.toNat
  n == 9 || n == 10 || n == 13 || (0x20 ≤ n && n ≤ 0x7e) || n == 0x85 ||
    (0xa0 ≤ n && n ≤ 0xfffd) || 0x10000 ≤ n

/-- A stream is taken in portions of 512 bytes. The characters that fit into what is left of
one. -/
def portion (room : Nat) : List Char → List Char × List Char
  | [] => ([], [])
  | c :: cs =>
    if c.utf8Size ≤ room then
      let (more, rest) := portion (room - c.utf8Size) cs
      (c :: more, rest)
    else ([], c :: cs)

/-- The characters of the portions before the first that holds one not allowed, and whether
there is such a portion. -/
def readable : Nat → List Char → List Char × Bool
  | 0, _ => ([], false)
  | n + 1, cs =>
    let (here, rest) := portion 512 cs
    if !here.all isAllowed then ([], true)
    else if rest.isEmpty then (here, false)
    else
      let (more, cut) := readable n rest
      (here ++ more, cut)

/-- The tokens of a stream; a byte order mark at its start is no part of it. The last token is
the end of the stream, unless there is a fault. -/
def tokenize (text : String) : List Token :=
  let (cs, cut) := readable (text.length + 1) text.toList
  let cs := if cs.head?.any (·.toNat == 0xfeff) then cs.drop 1 else cs
  Lexer.run (cs.length + 2) { cursor := { rest := cs }, cut := cut }

end Retarget.Yaml
