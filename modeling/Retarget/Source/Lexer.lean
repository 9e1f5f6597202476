/-
# Source.Lexer -- from text to lexemes

`lex` cuts a kernel file into lexemes, or refuses it: an unfinished literal or comment, a
number with a digit or an underscore out of place, an unknown escape, a comment that claims an
impossible line, or a character that no token starts with. Each reader below takes the characters that follow and returns the literal
it read together with the rest.
-/
import Retarget.Source.Line
import Retarget.Source.Token
import Retarget.Text.Letter

namespace Retarget.Source

open Retarget.Text (startsName isNameChar isDecimal)

def byteCount (cs : List Char) : Nat := cs.foldl (fun n c => n + c.utf8Size) 0

/-! ## Numbers -/

def isHexDigit (c : Char) : Bool :=
  isDecimal c || ('a' ≤ c && c ≤ 'f') || ('A' ≤ c && c ≤ 'F')

/-- The radix mark after a leading zero. -/
inductive Radix where
  | decimal | leadingZero | hexadecimal | octal | binary
deriving DecidableEq

namespace Radix

def base : Radix → Nat
  | decimal => 10
  | leadingZero | octal => 8
  | hexadecimal => 16
  | binary => 2

/-- The radix and the number of characters that announce it. -/
def detect : List Char → Radix × Nat
  | '0' :: c :: _ =>
    if c == 'x' || c == 'X' then (hexadecimal, 2)
    else if c == 'o' || c == 'O' then (octal, 2)
    else if c == 'b' || c == 'B' then (binary, 2)
    else (leadingZero, 1)
  | ['0'] => (leadingZero, 1)
  | _ => (decimal, 0)

end Radix

def digitRun (hex : Bool) (cs : List Char) : List Char × List Char :=
  let ok := fun c => c == '_' || if hex then isHexDigit c else isDecimal c
  (cs.takeWhile ok, cs.dropWhile ok)

def hasDigit (cs : List Char) : Bool := cs.any (· != '_')

/-- Underscores stand only between two digits; a radix mark counts as a digit. The flag tells
whether the character before was a digit. -/
def separatorsOk (hex : Bool) : Bool → List Char → Bool
  | _, [] => true
  | before, '_' :: c :: cs =>
    before && c != '_' && (isDecimal c || (hex && isHexDigit c)) && separatorsOk hex false (c :: cs)
  | _, ['_'] => false
  | _, c :: cs => separatorsOk hex (isDecimal c || (hex && isHexDigit c)) cs

def isExponentMark (c : Char) : Bool := c == 'e' || c == 'E' || c == 'p' || c == 'P'

/-- Sign and digits of an exponent; `none` when there is no digit. -/
def readExponent (cs : List Char) : Option (List Char × List Char) :=
  let (sign, cs) := match cs with
    | '+' :: rest => (['+'], rest)
    | '-' :: rest => (['-'], rest)
    | _ => ([], cs)
  let (digits, rest) := digitRun false cs
  if hasDigit digits then some (sign ++ digits, rest) else none

/-- A point and the digits after it, if one stands here. -/
def readFraction (hex : Bool) : List Char → List Char × List Char × List Char
  | '.' :: more => (['.'], digitRun hex more)
  | cs => ([], [], cs)

/-- The exponent, if one stands here; only hexadecimal numbers are raised to a power of two, and
they need one after a point. -/
def readPower (radix : Radix) (isFloat : Bool) : List Char → Option (List Char × List Char)
  | e :: more =>
    if isExponentMark e then
      let isP := e == 'p' || e == 'P'
      if !isP && radix != .decimal && radix != .leadingZero then none
      else if isP && radix != .hexadecimal then none
      else (readExponent more).map fun (digits, rest) => (e :: digits, rest)
    else if radix == .hexadecimal && isFloat then none
    else some ([], e :: more)
  | [] => if radix == .hexadecimal && isFloat then none else some ([], [])

/-- The mark of an imaginary number, if it stands here. -/
def readUnit : List Char → List Char × List Char
  | 'i' :: more => (['i'], more)
  | cs => ([], cs)

def numberKind (isFloat isImaginary : Bool) : LiteralKind :=
  if isImaginary then .imaginary else if isFloat then .float else .int

/-- Every digit of an integer fits the radix, and underscores stand where they may. -/
def digitsOk (radix : Radix) (kind : LiteralKind) (mark whole body : List Char) : Bool :=
  let hex := radix == .hexadecimal
  let announced := mark.length == 2
  !(kind == .int && !hex && whole.any fun c => c != '_' && c.toNat - '0'.toNat ≥ radix.base) &&
    separatorsOk hex announced (if announced then body.drop 2 else body)

/-- Read a number whose first character is a digit, or a point before a digit. -/
def readNumber (cs : List Char) : Option (LiteralKind × List Char × List Char) := do
  let (radix, skipped) := Radix.detect cs
  let hex := radix == .hexadecimal
  let mark := cs.take skipped
  let (whole, rest) := digitRun hex (cs.drop skipped)
  let (point, fraction, rest) := readFraction hex rest
  let isFloat := !point.isEmpty
  if isFloat && (radix == .octal || radix == .binary) then none
  if !(hasDigit whole || hasDigit fraction || radix == .leadingZero) then none
  let (power, rest) ← readPower radix isFloat rest
  let (unit, rest) := readUnit rest
  let kind := numberKind (isFloat || !power.isEmpty) (!unit.isEmpty)
  let body := mark ++ whole ++ point ++ fraction ++ power ++ unit
  if !digitsOk radix kind mark whole body then none
  return (kind, body, rest)

/-! ## Characters and strings -/

def hexValue (c : Char) : Nat :=
  if isDecimal c then c.toNat - '0'.toNat
  else if 'a' ≤ c && c ≤ 'f' then c.toNat - 'a'.toNat + 10
  else if 'A' ≤ c && c ≤ 'F' then c.toNat - 'A'.toNat + 10
  else 16

/-- `count` digits of the given base whose value is at most `limit` and no surrogate. -/
def readCode (count base limit : Nat) (cs : List Char) : Option (List Char × List Char) :=
  let digits := cs.take count
  let value := digits.foldl (fun n c => n * base + hexValue c) 0
  if digits.length == count && digits.all (fun c => hexValue c < base) && value ≤ limit &&
      !(0xd800 ≤ value && value < 0xe000) then some (digits, cs.drop count) else none

/-- What follows a backslash inside a literal closed by `quote`. -/
def readEscape (quote : Char) (cs : List Char) : Option (List Char × List Char) :=
  match cs with
  | [] => none
  | c :: rest =>
    if c == quote || ['a', 'b', 'f', 'n', 'r', 't', 'v', '\\'].contains c then some ([c], rest)
    else if '0' ≤ c && c ≤ '7' then readCode 3 8 255 cs
    else if c == 'x' then (readCode 2 16 255 rest).map fun (d, r) => (c :: d, r)
    else if c == 'u' then (readCode 4 16 0x10ffff rest).map fun (d, r) => (c :: d, r)
    else if c == 'U' then (readCode 8 16 0x10ffff rest).map fun (d, r) => (c :: d, r)
    else none

/-- The rest of a literal closed by `quote`, with the number of characters it denotes. -/
def readQuoted (quote : Char) : Nat → List Char → Option (List Char × Nat × List Char)
  | 0, _ => none
  | _, [] => none
  | fuel + 1, c :: cs =>
    if c == quote then some ([c], 0, cs)
    else if c == '\n' then none
    else if c == '\\' then do
      let (escape, rest) ← readEscape quote cs
      let (body, count, rest) ← readQuoted quote fuel rest
      return (c :: escape ++ body, count + 1, rest)
    else do
      let (body, count, rest) ← readQuoted quote fuel cs
      return (c :: body, count + 1, rest)

/-- The rest of a raw string: everything up to the next back quote. -/
def readRaw : List Char → Option (List Char × List Char)
  | [] => none
  | c :: cs =>
    if c.toNat == 0x60 then some ([c], cs)
    else (readRaw cs).map fun (body, rest) => (c :: body, rest)

/-! ## Comments -/

/-- The rest of a comment that ends with a star and a slash. -/
def readBlockComment : List Char → Option (List Char × List Char)
  | [] => none
  | [_] => none
  | '*' :: '/' :: cs => some (['*', '/'], cs)
  | c :: cs => (readBlockComment cs).map fun (body, rest) => (c :: body, rest)

/-! ## Tokens -/

def readSymbol (cs : List Char) : Option (String × List Char) :=
  (Token.symbols.find? fun s => s.toList.isPrefixOf cs).map fun s => (s, cs.drop s.length)

/-- The token that starts here, with the characters it takes and those after it. -/
def readToken (c : Char) (cs : List Char) : Option (Token × List Char × List Char) :=
  if startsName c then
    let word := c :: cs.takeWhile isNameChar
    let text := String.ofList word
    some (if Token.reserved.contains text then .word text else .name text, word,
      cs.dropWhile isNameChar)
  else if isDecimal c || (c == '.' && cs.head?.any isDecimal) then do
    let (kind, body, rest) ← readNumber (c :: cs)
    return (.literal kind (String.ofList body), body, rest)
  else if c == '"' then do
    let (body, _, rest) ← readQuoted '"' (cs.length + 1) cs
    return (.literal .string (String.ofList (c :: body)), c :: body, rest)
  else if c == '\'' then do
    let (body, count, rest) ← readQuoted '\'' (cs.length + 1) cs
    if count == 1 then some (.literal .char (String.ofList (c :: body)), c :: body, rest)
    else none
  else if c.toNat == 0x60 then do
    let (body, rest) ← readRaw cs
    return (.literal .string (String.ofList (c :: body.filter (· != '\r'))), c :: body, rest)
  else if c == ';' then some (.semicolon false, [c], cs)
  else do
    let (s, rest) ← readSymbol (c :: cs)
    return (.symbol s, s.toList, rest)

/-- A byte order mark after the first byte, and the null character, are refused everywhere. -/
def isRefused (c : Char) : Bool := c.toNat == 0 || c.toNat == 0xfeff

/-- A comment that runs to the end of its line. -/
def lineComment (offset : Nat) (cs : List Char) : Comment :=
  let text := cs.takeWhile (· != '\n')
  ⟨text, offset, offset + byteCount text + if text.length < cs.length then 1 else 0⟩

/-- The lexemes and comments of `cs`, which starts at byte `offset`; `open_` tells whether a
line end would close a statement here. -/
def lexFrom : Nat → Nat → Bool → List Char → Option (List (Lexeme ⊕ Comment))
  | 0, _, _, _ => none
  | _, offset, open_, [] => some (if open_ then [.inl ⟨.semicolon true, offset, offset⟩] else [])
  | fuel + 1, offset, open_, c :: cs =>
    if c == '\n' then
      let rest := lexFrom fuel (offset + 1) false cs
      if open_ then rest.map (.inl ⟨.semicolon true, offset, offset⟩ :: ·) else rest
    else if c == ' ' || c == '\t' || c == '\r' then lexFrom fuel (offset + 1) open_ cs
    else if c == '/' && cs.head? == some '/' then do
      let comment := lineComment offset (c :: cs)
      let after := offset + byteCount comment.text
      return .inr comment :: (← lexFrom fuel after open_ (cs.dropWhile (· != '\n')))
    else if c == '/' && cs.head? == some '*' then do
      let (body, rest) ← readBlockComment (cs.drop 1)
      let after := offset + 2 + byteCount body
      let comment := .inr ⟨'/' :: '*' :: body, offset, after⟩
      if open_ && body.contains '\n' then
        let more ← lexFrom fuel after false rest
        return comment :: .inl ⟨.semicolon true, offset, offset⟩ :: more
      else return comment :: (← lexFrom fuel after open_ rest)
    else do
      let (token, taken, rest) ← readToken c cs
      let after := offset + byteCount taken
      let more ← lexFrom fuel after token.endsStatement rest
      return .inl ⟨token, offset, after⟩ :: more

/-- The lexemes of a file, and where its lines are. -/
def lex (text : String) : Option (List Lexeme × LineTable) := do
  let (offset, cs) := match text.toList with
    | c :: cs => if c.toNat == 0xfeff then (3, cs) else (0, c :: cs)
    | [] => (0, [])
  if cs.any isRefused then none
  let pieces ← lexFrom (cs.length + 1) offset false cs
  let lines ← LineTable.of? text (pieces.filterMap Sum.getRight?)
  return (pieces.filterMap Sum.getLeft?, lines)

end Retarget.Source
