/-
# Source.Token -- the lexemes of a kernel file

A token is a name, a literal kept verbatim, a reserved word, a symbol, or a semicolon. A
semicolon is also implied at the end of a line whose last token could end a statement.
-/
import Retarget.Source.Operator

namespace Retarget.Source

inductive Token where
  | name (text : String)
  | literal (kind : LiteralKind) (text : String)
  | word (text : String)
  | symbol (text : String)
  | semicolon (implied : Bool)
  | finish
deriving DecidableEq, Repr, Inhabited

/-- A token with the byte offsets of its first byte and of the byte after its last. -/
structure Lexeme where
  token : Token
  start : Nat
  stop : Nat
deriving Repr, Inhabited

namespace Token

def reserved : List String :=
  ["break", "case", "chan", "const", "continue", "default", "defer", "else", "fallthrough",
    "for", "func", "go", "goto", "if", "import", "interface", "map", "package", "range",
    "return", "select", "struct", "switch", "type", "var"]

/-- The symbols, each before every shorter one it starts with. -/
def symbols : List String :=
  ["<<=", ">>=", "&^=", "...", "&&", "||", "<-", "++", "--", "==", "!=", "<=", ">=", ":=",
    "+=", "-=", "*=", "/=", "%=", "&=", "|=", "^=", "<<", ">>", "&^", "+", "-", "*", "/", "%",
    "&", "|", "^", "~", "<", ">", "=", "!", "(", ")", "[", "]", "\x7b", "\x7d", ",", ".", ":"]

/-- A line that ends with such a token ends its statement. -/
def endsStatement : Token → Bool
  | name _ => true
  | literal _ _ => true
  | word w => ["break", "continue", "fallthrough", "return"].contains w
  | symbol s => ["++", "--", ")", "]", "\x7d"].contains s
  | _ => false

end Token

end Retarget.Source
