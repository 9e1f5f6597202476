/-
# Yaml.Scalar -- what a plain scalar stands for

A plain scalar may stand for nothing, a truth value, a number, a point in time or, by default,
for its characters. `senseOf` decides; a writer asks the same question before it writes a text
without quotes.
-/
import Retarget.Text.Basic
import Retarget.Text.Decimal
import Retarget.Text.Integer
import Retarget.Yaml.Basic

namespace Retarget.Yaml

open Retarget.Text (readLiteral readDigits splitSign literalBase scaledWhole?)

/-- What a plain scalar stands for. -/
inductive Sense where
  | null
  | truth
  | integer (n : Int)
  /-- A number with a fraction or an exponent, cut to an integer. -/
  | decimal (whole : Int)
  | infinite (negative : Bool)
  | notANumber
  | time
  /-- The key that takes over the entries of another mapping. -/
  | merge
  | text
deriving Repr, DecidableEq, Inhabited

def words : List (String × Sense) := [
  ("", .null), ("~", .null), ("null", .null), ("Null", .null), ("NULL", .null),
  ("true", .truth), ("True", .truth), ("TRUE", .truth),
  ("false", .truth), ("False", .truth), ("FALSE", .truth),
  (".nan", .notANumber), (".NaN", .notANumber), (".NAN", .notANumber),
  (".inf", .infinite false), (".Inf", .infinite false), (".INF", .infinite false),
  ("+.inf", .infinite false), ("+.Inf", .infinite false), ("+.INF", .infinite false),
  ("-.inf", .infinite true), ("-.Inf", .infinite true), ("-.INF", .infinite true),
  ("<<", .merge)]

/-- Words that older readers take for truth values; they are quoted in writing. -/
def oldTruthWords : List String :=
  ["y", "Y", "yes", "Yes", "YES", "on", "On", "ON", "n", "N", "no", "No", "NO", "off", "Off", "OFF"]

def isDigit (c : Char) : Bool := '0' ≤ c && c ≤ '9'

def digitsValue (cs : List Char) : Nat := cs.foldl (fun n c => n * 10 + (c.toNat - '0'.toNat)) 0

/-! ## Decimals -/

/-- An exponent, or none: the power of ten. -/
def exponent? : List Char → Option Int
  | [] => some 0
  | e :: cs =>
    if e != 'e' && e != 'E' then none
    else
      let (negative, digits) := splitSign cs
      if digits.isEmpty || !digits.all isDigit then none
      else some (if negative then -(digitsValue digits : Int) else digitsValue digits)

/-- A number such as `1.5`, `.5`, `2.` or `1e3`. -/
def decimal? (text : List Char) : Option Int := do
  let (negative, body) := splitSign text
  let whole := body.takeWhile isDigit
  let rest := body.dropWhile isDigit
  let (fraction, rest) := match rest with
    | '.' :: r => (r.takeWhile isDigit, r.dropWhile isDigit)
    | r => ([], r)
  if whole.isEmpty && fraction.isEmpty then none
  let power ← exponent? rest
  let n ← scaledWhole? (digitsValue (whole ++ fraction)) (power - fraction.length)
  return if negative then -(n : Int) else n

/-- A number that starts with a point, where underscores may stand between digits. -/
def pointed? (text : List Char) : Option Int :=
  if text.contains '_' && !Text.underscoresSeparate false '^' text then none
  else decimal? (text.filter (· != '_'))

/-! ## Integers -/

/-- A sign behind the mark of base two or eight, such as `0b-11`. -/
def markedSign? (text : List Char) : Option Int :=
  let read (base : Nat) (cs : List Char) : Option Int :=
    let (negative, digits) := splitSign cs
    if digits.isEmpty then none
    else match readDigits base false 0 digits with
      | some (n, fits) => (Text.signed negative n fits).value?
      | none => none
  match text with
  | '0' :: 'b' :: cs => read 2 cs
  | '0' :: 'o' :: cs => read 8 cs
  | _ => none

/-- An integer of 64 bits, with a sign or without. -/
def integer? (text : List Char) : Option Int :=
  match (readLiteral (String.ofList text)).value? with
  | some n => some n
  | none =>
    let (base, digits, _) := literalBase text
    if text.isEmpty then none
    else match readDigits base false 0 digits with
      | some (n, true) => some n
      | _ => none

/-! ## Points in time -/

def daysIn (year month : Nat) : Nat :=
  if month == 2 then
    if year % 4 == 0 && (year % 100 != 0 || year % 400 == 0) then 29 else 28
  else if [4, 6, 9, 11].contains month then 30
  else 31

/-- One or two digits. -/
def shortNumber? : List Char → Option (Nat × List Char)
  | a :: b :: cs =>
    if !isDigit a then none
    else if isDigit b then some (digitsValue [a, b], cs)
    else some (digitsValue [a], b :: cs)
  | [a] => if isDigit a then some (digitsValue [a], []) else none
  | [] => none

def pastChar? (c : Char) : List Char → Option (List Char)
  | d :: cs => if c == d then some cs else none
  | [] => none

/-- A year of four digits, a month and a day, with what follows. -/
def date? (cs : List Char) : Option (List Char) := do
  let year := cs.takeWhile isDigit
  if year.length != 4 then none
  let (month, cs) ← shortNumber? (← pastChar? '-' (cs.drop 4))
  let (day, cs) ← shortNumber? (← pastChar? '-' cs)
  if 1 ≤ month && month ≤ 12 && 1 ≤ day && day ≤ daysIn (digitsValue year) month then some cs
  else none

/-- A fraction of a second, which may be left out. -/
def pastFraction : List Char → List Char
  | p :: d :: cs =>
    if (p == '.' || p == ',') && isDigit d then cs.dropWhile isDigit else p :: d :: cs
  | cs => cs

/-- Hour, minute and second, with what follows. -/
def clock? (cs : List Char) : Option (List Char) := do
  let (hour, cs) ← shortNumber? cs
  let (minute, cs) ← shortNumber? (← pastChar? ':' cs)
  let (second, cs) ← shortNumber? (← pastChar? ':' cs)
  if hour < 24 && minute < 60 && second < 60 then some (pastFraction cs) else none

/-- A zone that ends the text: the letter Z, or a sign, hours and minutes. -/
def isZone : List Char → Bool
  | ['Z'] => true
  | [sign, a, b, ':', c, d] =>
    (sign == '+' || sign == '-') && [a, b, c, d].all isDigit && digitsValue [a, b] ≤ 24 &&
      digitsValue [c, d] ≤ 60
  | _ => false

/-- A date, alone or with a time of day; the time has a zone if the letter T precedes it. -/
def isTime (text : List Char) : Bool :=
  match date? text with
  | none => false
  | some [] => true
  | some (c :: cs) =>
    if c == 'T' || c == 't' then (clock? cs).any isZone
    else c == ' ' && (clock? (cs.dropWhile (· == ' '))).any List.isEmpty

/-! ## Senses -/

def numberSense (text : List Char) : Sense :=
  let bare := text.filter (· != '_')
  match integer? bare with
  | some n => .integer n
  | none => match decimal? bare with
    | some n => .decimal n
    | none => match markedSign? bare with
      | some n => .integer n
      | none => .text

/-- The first character tells which senses are open to a word. -/
def senseOf (text : String) : Sense :=
  match words.lookup text with
  | some sense => sense
  | none => match text.toList with
    | [] => .null
    | c :: cs =>
      if isDigit c || c == '+' || c == '-' then
        if isTime (c :: cs) then .time else numberSense (c :: cs)
      else if c == '.' then
        match pointed? (c :: cs) with
        | some n => .decimal n
        | none => .text
      else .text

/-- Sexagesimal numbers such as `1:30`, which older readers know. -/
def isSexagesimal (text : String) : Bool :=
  let (_, body) := splitSign text.toList
  match Text.splitChars ':' body with
  | first :: part :: parts =>
    let tail := part :: parts
    let last := tail.getLast?.getD []
    let minutes (cs : List Char) :=
      cs.all isDigit && (cs.length == 1 || (cs.length == 2 && (cs.head?.any (· ≤ '5'))))
    (first.head?.any isDigit) && first.all (fun c => isDigit c || c == '_') &&
      (tail.dropLast.all minutes) && minutes (last.takeWhile (· != '.')) &&
      (last.dropWhile (· != '.')).all (fun c => isDigit c || c == '_' || c == '.') &&
      ((last.filter (· == '.')).length ≤ 1)
  | _ => false

/-- Whether a text may be written without quotes and still reads as text. -/
def readsAsText (text : String) : Bool :=
  senseOf text == .text && !isSexagesimal text && !oldTruthWords.contains text

end Retarget.Yaml
