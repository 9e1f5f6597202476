/-
# Yaml.Writer -- documents as text

Mappings and sequences are written as blocks, two columns deeper for each level, and empty
ones between brackets. A text is written plain where that reads back as the same text; else
between single quotes, between double quotes when plain it would be no text or when it holds
characters that do not show, and as a literal block when it has several lines. A key that is
long or has several lines gets a line of its own.

A `Sheet` is what has been written, with as much of its last line as decides where the next
word goes.
-/
import Retarget.Text.Letter
import Retarget.Text.Quoted
import Retarget.Yaml.Cursor
import Retarget.Yaml.Scalar

namespace Retarget.Yaml

open Retarget.Text (join isLetter)

/-! ## What a text allows -/

/-- Characters that may be written as they are. -/
def isPrintable (c : Char) : Bool :=
  let n := c.toNat
  n == 10 || (0x20 ≤ n && n ≤ 0x7e) || (0xa0 ≤ n && n < 0xd800) || (0xe000 ≤ n && n ≤ 0xfffd &&
    n != 0xfeff)

/-- The characters that cannot begin a plain scalar. -/
def leadingIndicators : List Char :=
  ['#', ',', '[', ']', '\x7b', '\x7d', '&', '*', '!', '|', '>', '\'', '"', '%', '@', '\x60']

/-- An indicator that ends or changes a plain scalar; `before` is the character in front. -/
def indicatorsIn : Option Char → List Char → Bool
  | _, [] => false
  | before, c :: cs =>
    let spaced := endsWord cs
    let here := match before with
      | none => leadingIndicators.contains c || ((c == '?' || c == ':' || c == '-') && spaced)
      | some b => (c == ':' && spaced) || (c == '#' && endsWord [b])
    here || indicatorsIn (some c) cs

def hasIndicators (cs : List Char) : Bool :=
  ['-', '-', '-'].isPrefixOf cs || ['.', '.', '.'].isPrefixOf cs || indicatorsIn none cs

/-- Some neighbours of which the first satisfies `p` and the second `q`. -/
def adjacent (p q : Char → Bool) : List Char → Bool
  | a :: b :: cs => (p a && q b) || adjacent p q (b :: cs)
  | _ => false

def isSpace (c : Char) : Bool := c == ' '

/-- Whether a text has a character that must be escaped; tabs are told apart. -/
def hasSpecial (cs : List Char) : Bool := cs.any fun c => !isPrintable c && c != '\t'

def edgeIs (p : Char → Bool) (cs : List Char) : Bool := cs.head?.any p || cs.getLast?.any p

def plainAllowed (cs : List Char) : Bool :=
  !edgeIs (fun c => isSpace c || isBreak c) cs && !cs.contains '\t' && !hasSpecial cs &&
    !cs.any isBreak && !hasIndicators cs

def singleAllowed (cs : List Char) : Bool :=
  !adjacent isBreak isSpace cs && !adjacent isSpace isBreak cs && !cs.contains '\t' &&
    !hasSpecial cs

def literalAllowed (cs : List Char) : Bool :=
  !cs.isEmpty && !cs.getLast?.any isSpace && !adjacent isSpace isBreak cs && !hasSpecial cs

/-- How a text is written. -/
inductive Style where
  | plain | single | double | literal
deriving DecidableEq, Repr

/-- The style of a text; one that stands before a colon has to stay on its line. -/
def styleOf (isKey : Bool) (s : String) : Style :=
  let cs := s.toList
  if cs.contains '\n' then if !isKey && literalAllowed cs then .literal else .double
  else if !readsAsText s then .double
  else if plainAllowed cs then .plain
  else if singleAllowed cs then .single
  else .double

/-! ## Sheets -/

structure Sheet where
  text : String := ""
  column : Nat := 0
  /-- Whether a word may follow without a blank. -/
  spaced : Bool := true
  /-- Whether the line holds only blanks and the marks of items and keys. -/
  indented : Bool := true

namespace Sheet

variable (s : Sheet)

def put (c : Char) : Sheet := { s with text := s.text.push c, column := s.column + 1 }

def putAll (cs : List Char) : Sheet := cs.foldl put s

def lineEnd (c : Char) : Sheet := { s with text := s.text.push c, column := 0, indented := true }

/-- Write a mark. It may need a blank in front, stand for one, and leave the line indented. -/
def mark (m : String) (apart spaced indents : Bool) : Sheet :=
  let s := if apart && !s.spaced then s.put ' ' else s
  { s.putAll m.toList with spaced := spaced, indented := s.indented && indents }

def pad (n : Nat) : Sheet := s.putAll (List.replicate (n - s.column) ' ')

/-- Go to the given column, on a new line unless the present one has come to it with nothing
but indentation. -/
def indentTo (column : Nat) : Sheet :=
  let stays := s.indented && (s.column < column || (s.column == column && s.spaced))
  { (if stays then s else s.lineEnd '\n').pad column with spaced := true }

/-- The text of the last word is complete. -/
def closeWord : Sheet := { s with spaced := false, indented := false }

/-! ## Scalars -/

def plain (cs : List Char) : Sheet :=
  let s := if s.spaced || cs.isEmpty then s else s.put ' '
  (s.putAll cs).closeWord

/-- Write characters on lines indented to `column`. The flag tells whether the line has just
begun. -/
def lines (column : Nat) (double : Bool) : Bool → List Char → Sheet → Sheet
  | _, [], s => s
  | begun, c :: cs, s =>
    if isBreak c then lines column double true cs (s.lineEnd c)
    else
      let s := if begun then s.indentTo column else s
      let s := if double && c == '\'' then s.put '\'' else s
      lines column double false cs { s.put c with indented := false }

def single (column : Nat) (cs : List Char) : Sheet :=
  ((lines column true false cs (s.mark "'" true false false)).mark "'" false false false).closeWord

/-- The code of a character in upper-case hexadecimal with leading zeros. -/
def hexCode (width n : Nat) : String :=
  let digits := (Nat.toDigits 16 n).map Char.toUpper
  String.ofList (List.replicate (width - digits.length) '0' ++ digits)

def shortEscapes : List (Nat × String) := [
  (0, "\\0"), (7, "\\a"), (8, "\\b"), (9, "\\t"), (10, "\\n"), (11, "\\v"), (12, "\\f"), (13, "\\r"),
  (0x1b, "\\e"), (0x22, "\\\""), (0x5c, "\\\\"), (0x85, "\\N"), (0xa0, "\\_"), (0x2028, "\\L"),
  (0x2029, "\\P")]

def escapeChar (c : Char) : String :=
  match shortEscapes.lookup c.toNat with
  | some s => s
  | none =>
    if c.toNat ≤ 0xff then "\\x" ++ hexCode 2 c.toNat
    else if c.toNat ≤ 0xffff then "\\u" ++ hexCode 4 c.toNat
    else "\\U" ++ hexCode 8 c.toNat

/-- Characters that do not show are escaped, and all are in a text that starts with a byte
order mark. -/
def doubleText (cs : List Char) : String :=
  let marked := cs.head?.any (·.toNat == 0xfeff)
  String.join (cs.map fun c =>
    if marked || !isPrintable c || isBreak c || c == '"' || c == '\\' then escapeChar c
    else String.singleton c)

def double (cs : List Char) : Sheet :=
  ((s.mark "\"" true false false).putAll (doubleText cs).toList |>.mark "\"" false false false)
    |>.closeWord

/-- The header of a literal block: the indentation where the text does not show it, and what
becomes of the line ends behind the text. -/
def literalMark (cs : List Char) : String :=
  let hint := if cs.head?.any (fun c => isSpace c || isBreak c) then "2" else ""
  let last := cs.reverse
  let chomping :=
    if !last.head?.any isBreak then "-"
    else if (last.drop 1).isEmpty || (last.drop 1).head?.any isBreak then "+"
    else ""
  "|" ++ hint ++ chomping

/-- A literal block. A text that starts with a line end ends the line of the header with it. -/
def literal (column : Nat) (cs : List Char) : Sheet :=
  lines column false true cs { s.mark (literalMark cs) true false false with spaced := true }

def scalar (column : Nat) (isKey : Bool) (text : String) (form : Form) : Sheet :=
  let cs := text.toList
  match if form == .text then styleOf isKey text else .plain with
  | .plain => s.plain cs
  | .single => s.single column cs
  | .double => s.double cs
  | .literal => s.literal column cs

end Sheet

/-! ## Blocks -/

/-- A key stands before its colon when it is a scalar of one line and at most 128 bytes. -/
def isSimpleKey : Yaml → Bool
  | .scalar text _ => !text.toList.any isBreak && text.utf8ByteSize ≤ 128
  | _ => false

mutual

/-- Write a node whose own lines are indented to `column`. -/
def writeNode (column : Nat) (isKey : Bool) (s : Sheet) : Yaml → Sheet
  | .scalar text form => s.scalar column isKey text form
  | .sequence [] => (s.mark "[" true true false).mark "]" false false false
  | .mapping [] => (s.mark "\x7b" true true false).mark "\x7d" false false false
  | .sequence (x :: xs) => writeItems column s (x :: xs)
  | .mapping (e :: es) => writeEntries column s (e :: es)
  | .mention name _ => s.mark ("*" ++ name) true false false

def writeItems (column : Nat) (s : Sheet) : List Yaml → Sheet
  | [] => s
  | item :: items =>
    let s := (s.indentTo column).mark "-" true false true
    writeItems column (writeNode (column + 2) false s item) items

def writeEntries (column : Nat) (s : Sheet) : List (Yaml × Yaml) → Sheet
  | [] => s
  | (key, value) :: entries =>
    let s := s.indentTo column
    let s := if isSimpleKey key then
        (writeNode (column + 2) true s key).mark ":" false false false
      else
        let s := writeNode (column + 2) false (s.mark "?" true false true) key
        (s.indentTo column).mark ":" true false true
    writeEntries column (writeNode (column + 2) false s value) entries

end

/-- Write a document, whose last line is ended. -/
def writeDocument (s : Sheet) (node : Yaml) : Sheet := (writeNode 0 false s node).indentTo 0

/-- Documents with a mark between them. -/
def writeStream (documents : List Yaml) : String :=
  let write (s : Sheet) (node : Yaml) :=
    let s := if s.text.isEmpty then s else ((s.indentTo 0).mark "---" true false false).indentTo 0
    writeDocument s node
  (documents.foldl write {}).text

/-! ## The order of keys -/

/-- The number that the digits at the front of `cs` continue from `n`, in words of 64 bits, and
their count. Every digit counts by its distance from zero among all characters. -/
def leadingNumber (n : Int) (cs : List Char) : Int × Nat :=
  let digits := cs.takeWhile Text.isDigit
  (digits.foldl (fun n c => Int.bmod (n * 10 + (c.toNat - 48 : Int)) 18446744073709551616) n,
    digits.length)

/-- Letters after other characters, digits by the number they form, all else by code. The
characters already found equal are given from the last to the first. -/
def keyBefore (seen : List Char) : List Char → List Char → Bool
  | [], bs => !bs.isEmpty
  | _, [] => false
  | a :: as, b :: bs =>
    if a == b then keyBefore (a :: seen) as bs
    else if isLetter a && isLetter b then a < b
    else if isLetter a || isLetter b then
      if seen.head?.any Text.isDigit then isLetter a else isLetter b
    else
      let carried := (a == '0' || b == '0') && (seen.takeWhile Text.isDigit).any (· != '0')
      let start := if carried then 1 else 0
      let (an, ac) := leadingNumber start (a :: as)
      let (bn, bc) := leadingNumber start (b :: bs)
      if an != bn then an < bn else if ac != bc then ac < bc else a < b

def sortedKeys {α : Type} (entries : List (String × α)) : List (String × α) :=
  entries.mergeSort fun x y => !keyBefore [] y.1.toList x.1.toList

end Retarget.Yaml
