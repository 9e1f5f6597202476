/-
# Text.Quoted -- a text between double quotes, with escapes

Quotes and backslashes are escaped, the seven control characters with a letter of their own
get it, every other character that shows nothing is written by its code, and all else stands
for itself.
-/
import Retarget.Text.Visible

namespace Retarget.Text

/-- Lower-case hexadecimal digits, at least `width` of them. -/
def hex (width n : Nat) : String :=
  let digits := Nat.toDigits 16 n
  String.ofList (List.replicate (width - digits.length) '0' ++ digits)

def quoteChar (c : Char) : String :=
  match c with
  | '"' => "\\\""
  | '\\' => "\\\\"
  | '\n' => "\\n"
  | '\r' => "\\r"
  | '\t' => "\\t"
  | _ =>
    if c.toNat == 7 then "\\a"
    else if c.toNat == 8 then "\\b"
    else if c.toNat == 12 then "\\f"
    else if c.toNat == 11 then "\\v"
    else if isHidden c then
      if c.toNat < 0x20 || c.toNat == 0x7f then "\\x" ++ hex 2 c.toNat
      else if c.toNat < 0x10000 then "\\u" ++ hex 4 c.toNat
      else "\\U" ++ hex 8 c.toNat
    else String.singleton c

def quoted (s : String) : String :=
  "\"" ++ String.join (s.toList.map quoteChar) ++ "\""

/-- Whether a character can stand between back quotes, where nothing is escaped. -/
def isRaw (c : Char) : Bool :=
  c == '\t' || (0x20 ≤ c.toNat && c.toNat != 0x60 && c.toNat != 0x7f && c.toNat != 0xfeff)

/-- A text between back quotes, or quoted with escapes where it cannot stand there. -/
def rawQuoted (s : String) : String :=
  if s.toList.all isRaw then "`" ++ s ++ "`" else quoted s

end Retarget.Text
