/-
# Text.Integer -- integers as text

Two readings: plain decimal with an optional sign, and the form of source literals, where a
prefix or a leading zero chooses the base and underscores may separate digits. Both hold the
result within 64 bits; a number beyond them is told apart from a text that is no number.
-/

namespace Retarget.Text

/-- What an integer text turns out to be. -/
inductive IntegerReading where
  | value (n : Int)
  /-- The bound nearest to a number that does not fit. -/
  | outOfRange (bound : Int)
  | malformed
deriving Repr, DecidableEq, Inhabited

def maxInt64 : Int := 9223372036854775807
def minInt64 : Int := -9223372036854775808
def maxWord64 : Nat := 18446744073709551615

/-- The number, clamped to 64 bits; zero when there is none. -/
def IntegerReading.clamped : IntegerReading → Int
  | value n => n
  | outOfRange bound => bound
  | malformed => 0

def IntegerReading.value? : IntegerReading → Option Int
  | value n => some n
  | _ => none

/-- The value of a digit in bases up to thirty-six. -/
def digitValue? (c : Char) : Option Nat :=
  if '0' ≤ c && c ≤ '9' then some (c.toNat - '0'.toNat)
  else if 'a' ≤ c && c ≤ 'z' then some (c.toNat - 'a'.toNat + 10)
  else if 'A' ≤ c && c ≤ 'Z' then some (c.toNat - 'A'.toNat + 10)
  else none

/-- An unsigned reading: nothing for a text with a foreign character before the number leaves
64 bits, and the largest word once it does. -/
def readDigits (base : Nat) (underscores : Bool) : Nat → List Char → Option (Nat × Bool)
  | n, [] => some (n, true)
  | n, c :: cs =>
    if c == '_' && underscores then readDigits base underscores n cs
    else match digitValue? c with
      | none => none
      | some d =>
        if base ≤ d then none
        else if maxWord64 < n * base + d then some (maxWord64, false)
        else readDigits base underscores (n * base + d) cs

/-- Whether every underscore stands between two digits; a base mark counts as a digit. -/
def underscoresSeparate (hex : Bool) : Char → List Char → Bool
  | last, [] => last != '_'
  | last, c :: cs =>
    if ('0' ≤ c && c ≤ '9') || (hex && ((digitValue? c).any fun d => 10 ≤ d && d < 16)) then
      underscoresSeparate hex '0' cs
    else if c == '_' then last == '0' && underscoresSeparate hex '_' cs
    else last != '_' && underscoresSeparate hex '!' cs

/-- The base a literal is written in, its digits, and what precedes them for the sake of
underscores. -/
def literalBase : List Char → Nat × List Char × Char
  | '0' :: m :: d :: cs =>
    if m == 'b' || m == 'B' then (2, d :: cs, '0')
    else if m == 'o' || m == 'O' then (8, d :: cs, '0')
    else if m == 'x' || m == 'X' then (16, d :: cs, '0')
    else (8, m :: d :: cs, '0')
  | '0' :: cs => (8, cs, '0')
  | cs => (10, cs, '^')

/-- Apply the sign and the bounds of 64 bits. -/
def signed (negative : Bool) (n : Nat) (fits : Bool) : IntegerReading :=
  if negative then
    if !fits || 9223372036854775808 < n then .outOfRange minInt64 else .value (-(n : Int))
  else if !fits || 9223372036854775807 < n then .outOfRange maxInt64
  else .value n

def splitSign : List Char → Bool × List Char
  | '-' :: cs => (true, cs)
  | '+' :: cs => (false, cs)
  | cs => (false, cs)

/-- Read a plain decimal number. -/
def readDecimal (s : String) : IntegerReading :=
  let (negative, digits) := splitSign s.toList
  if digits.isEmpty then .malformed
  else match readDigits 10 false 0 digits with
    | some (n, fits) => signed negative n fits
    | none => .malformed

/-- Read a number written as a source literal, with an optional sign. -/
def readLiteral (s : String) : IntegerReading :=
  let (negative, body) := splitSign s.toList
  if body.isEmpty then .malformed
  else
    let (base, digits, before) := literalBase body
    match readDigits base true 0 digits with
    | some (n, fits) =>
      if fits && digits.contains '_' && !underscoresSeparate (base == 16) before digits then
        .malformed
      else signed negative n fits
    | none => .malformed

end Retarget.Text
