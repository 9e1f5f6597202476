/-
# Proofs.CToken -- C text cut into tokens

What a C compiler does first with a text: comments and blanks separate tokens and vanish, and
every token takes as many characters as it can.  A name goes on with letters, digits and
underscores; a number also with points and with a sign right after an exponent mark; a literal
runs to its closing quote; every other character is a mark of its own unless it starts a longer
one.  Keywords are names here, told apart by whoever reads the tokens.

`lex` passes over a token by counting its characters, so it is a plain recursion on the text.  The
equations below give the first token of a text from the characters it starts with; later
statements use them and never open `lex`.
-/
import Retarget.Text.Letter
import Mathlib.Data.List.Basic

namespace Retarget.C

open Retarget.Text (isDecimal)

set_option autoImplicit false
set_option linter.dupNamespace false

/-! ## Tokens -/

inductive Token where
  | name (text : List Char)
  | number (text : List Char)
  | quoted (text : List Char)
  | mark (text : List Char)
deriving DecidableEq, Repr, Inhabited

def isSpace (c : Char) : Bool := [' ', '\n', '\t', '\r', '\x0b', '\x0c'].contains c

/-- What a name or a number may go on with.  Letters beyond ASCII are letters of names. -/
def isWordChar (c : Char) : Bool := c.isAlphanum || c == '_' || 0x80 ≤ c.toNat

/-- The marks of more than one character, each before every other one it starts with. -/
def longMarks : List (List Char) :=
  [['%', ':', '%', ':'], ['.', '.', '.'], ['<', '<', '='], ['>', '>', '='], ['-', '>'],
    ['+', '+'], ['-', '-'], ['<', '<'], ['>', '>'], ['<', '='], ['>', '='], ['=', '='],
    ['!', '='], ['&', '&'], ['|', '|'], ['*', '='], ['/', '='], ['%', '='], ['+', '='],
    ['-', '='], ['&', '='], ['^', '='], ['|', '='], ['#', '#'], ['<', ':'], [':', '>'],
    ['<', '%'], ['%', '>'], ['%', ':'], [':', ':']]

/-- How many characters after the first belong to the mark. -/
def markTail (cs : List Char) : Nat := ((longMarks.find? (·.isPrefixOf cs)).map (·.length - 1)).getD 0

def isExponentMark (c : Char) : Bool := c == 'e' || c == 'E' || c == 'p' || c == 'P'

/-- How many of the characters that follow belong to a number. -/
def numberTail : List Char → Nat
  | [] => 0
  | [c] => if isWordChar c || c == '.' then 1 else 0
  | c :: s :: cs =>
    if isExponentMark c && (s == '+' || s == '-') then numberTail cs + 2
    else if isWordChar c || c == '.' then numberTail (s :: cs) + 1
    else 0

/-- How many of the characters that follow belong to a literal closed by `quote`. -/
def quotedTail (quote : Char) : List Char → Option Nat
  | [] => none
  | [c] => if c == quote then some 1 else none
  | c :: s :: cs =>
    if c == quote then some 1
    else if c == '\n' then none
    else if c == '\\' then (quotedTail quote cs).map (· + 2)
    else (quotedTail quote (s :: cs)).map (· + 1)

/-- How many of the characters that follow belong to a comment closed by a star and a slash. -/
def commentTail : List Char → Nat
  | [] => 0
  | [_] => 1
  | c :: s :: cs => if c == '*' && s == '/' then 2 else commentTail (s :: cs) + 1

/-- The token that starts with `c`, if any does, and how many characters after `c` it takes. -/
def tokenAt (c : Char) (cs : List Char) : Option Token × Nat :=
  if isDecimal c || (c == '.' && cs.head?.any isDecimal) then
    (some (.number (c :: cs.take (numberTail cs))), numberTail cs)
  else if isWordChar c then
    (some (.name (c :: cs.takeWhile isWordChar)), (cs.takeWhile isWordChar).length)
  else if isSpace c then (none, 0)
  else if c == '/' && cs.head? == some '*' then (none, 1 + commentTail (cs.drop 1))
  else if c == '/' && cs.head? == some '/' then (none, (cs.takeWhile (· != '\n')).length)
  else
    match if c == '"' || c == '\'' then quotedTail c cs else none with
    | some n => (some (.quoted (c :: cs.take n)), n)
    | none => (some (.mark (c :: cs.take (markTail (c :: cs)))), markTail (c :: cs))

/-- The tokens after the next `skip` characters. -/
def lexFrom : Nat → List Char → List Token
  | _, [] => []
  | skip + 1, _ :: cs => lexFrom skip cs
  | 0, c :: cs => (tokenAt c cs).1.toList ++ lexFrom (tokenAt c cs).2 cs

def lex (cs : List Char) : List Token := lexFrom 0 cs

/-! ## The first token -/

theorem lexFrom_append (a rest : List Char) : lexFrom a.length (a ++ rest) = lex rest := by
  induction a with
  | nil => rfl
  | cons c a ih => exact ih

theorem lex_nil : lex [] = [] := rfl

theorem lex_cons (c : Char) (a rest : List Char) (token : Option Token)
    (starts : tokenAt c (a ++ rest) = (token, a.length)) :
    lex (c :: (a ++ rest)) = token.toList ++ lex rest := by
  show (tokenAt c (a ++ rest)).1.toList ++ lexFrom (tokenAt c (a ++ rest)).2 (a ++ rest) = _
  rw [starts, lexFrom_append]

theorem lex_space (rest : List Char) : lex (' ' :: rest) = lex rest :=
  lex_cons ' ' [] rest none rfl

theorem lex_newline (rest : List Char) : lex ('\n' :: rest) = lex rest :=
  lex_cons '\n' [] rest none rfl

theorem lex_spaces (n : Nat) (rest : List Char) :
    lex (List.replicate n ' ' ++ rest) = lex rest := by
  induction n with
  | zero => rfl
  | succ n ih => rw [List.replicate_succ, List.cons_append, lex_space, ih]

/-! ## Words -/

/-- The text after a word does not go on with it. -/
def EndsWord (rest : List Char) : Prop := ∀ c ∈ rest.head?, isWordChar c = false

/-- The text after a number does not go on with it, whatever the number ends with. -/
def EndsNumber (rest : List Char) : Prop :=
  ∀ c ∈ rest.head?, isWordChar c = false ∧ c ≠ '.' ∧ c ≠ '+' ∧ c ≠ '-'

theorem EndsNumber.endsWord {rest : List Char} (ends : EndsNumber rest) : EndsWord rest :=
  fun c first => (ends c first).1

theorem takeWhile_word {w rest : List Char} (word : ∀ c ∈ w, isWordChar c = true)
    (ends : EndsWord rest) : (w ++ rest).takeWhile isWordChar = w := by
  rw [List.takeWhile_append_of_pos word]
  cases rest with
  | nil => simp
  | cons c rest => simp [ends c rfl]

theorem lex_name {c : Char} {w rest : List Char} (first : isWordChar c = true)
    (letter : isDecimal c = false) (word : ∀ c ∈ w, isWordChar c = true) (ends : EndsWord rest) :
    lex (c :: (w ++ rest)) = .name (c :: w) :: lex rest := by
  have noPoint : (c == '.') = false := by
    refine beq_eq_false_iff_ne.mpr ?_
    rintro rfl
    exact absurd first (by decide)
  have starts : tokenAt c (w ++ rest) = (some (.name (c :: w)), w.length) := by
    simp [tokenAt, letter, noPoint, first, takeWhile_word word ends]
  exact lex_cons c w rest _ starts

theorem sign_not_word {s : Char} (sign : (s == '+' || s == '-') = true) : isWordChar s = false := by
  simp only [Bool.or_eq_true, beq_iff_eq] at sign
  rcases sign with rfl | rfl
  · decide
  · decide

theorem numberTail_word {w rest : List Char} (word : ∀ c ∈ w, isWordChar c = true)
    (ends : EndsNumber rest) : numberTail (w ++ rest) = w.length := by
  induction w with
  | nil =>
      cases rest with
      | nil => rfl
      | cons c rest =>
          obtain ⟨plain, point, -⟩ := ends c rfl
          have notMark : isExponentMark c = false := by
            refine Bool.eq_false_iff.mpr fun isMark => ?_
            simp only [isExponentMark, Bool.or_eq_true, beq_iff_eq] at isMark
            rcases isMark with ((rfl | rfl) | rfl) | rfl <;> exact absurd plain (by decide)
          cases rest <;> simp [numberTail, plain, point, notMark]
  | cons c w ih =>
      have isWord := word c List.mem_cons_self
      have tail := ih fun c member => word c (List.mem_cons_of_mem _ member)
      -- no sign follows `c`: the word has none, and what ends the number does not start with one
      cases next : w ++ rest with
      | nil =>
          have empty := (List.append_eq_nil_iff.mp next).1
          rw [List.cons_append, next, empty]
          simp [numberTail, isWord]
      | cons s more =>
          have noSign : (s == '+' || s == '-') = false := by
            refine Bool.eq_false_iff.mpr fun sign => ?_
            cases w with
            | nil =>
                have first : s ∈ rest.head? := by simp at next; simp [next]
                obtain ⟨-, -, plus, minus⟩ := ends s first
                simp [plus, minus] at sign
            | cons d w =>
                obtain rfl : d = s := (List.cons.inj next).1
                have := word d (List.mem_cons_of_mem _ List.mem_cons_self)
                rw [sign_not_word sign] at this
                cases this
          rw [next] at tail
          rw [List.cons_append, next]
          simp [numberTail, noSign, isWord, tail]

theorem lex_number {c : Char} {w rest : List Char} (digit : isDecimal c = true)
    (word : ∀ c ∈ w, isWordChar c = true) (ends : EndsNumber rest) :
    lex (c :: (w ++ rest)) = .number (c :: w) :: lex rest := by
  have starts : tokenAt c (w ++ rest) = (some (.number (c :: w)), w.length) := by
    simp [tokenAt, digit, numberTail_word word ends]
  exact lex_cons c w rest _ starts

/-! ## Marks -/

/-- A sign is a mark of its own unless it meets itself, an equals sign or an angle. -/
theorem lex_sign {c : Char} {rest : List Char} (sign : c = '+' ∨ c = '-')
    (apart : ∀ d ∈ rest.head?, d ≠ c ∧ d ≠ '=' ∧ d ≠ '>') :
    lex (c :: rest) = .mark [c] :: lex rest := by
  have alone : tokenAt c rest = (some (.mark [c]), 0) := by
    cases rest with
    | nil => rcases sign with rfl | rfl <;> rfl
    | cons d rest =>
        obtain ⟨self, equals, angle⟩ := apart d rfl
        rcases sign with rfl | rfl <;>
          simp [tokenAt, isDecimal, isWordChar, isSpace, markTail, longMarks, self.symm,
            equals.symm, angle.symm, Char.isAlphanum]
  exact lex_cons c [] rest _ alone

/-- A sign that meets itself is one mark with it. -/
theorem lex_doubled {c : Char} (rest : List Char) (sign : c = '+' ∨ c = '-') :
    lex (c :: c :: rest) = .mark [c, c] :: lex rest := by
  refine lex_cons c [c] rest (some (.mark [c, c])) ?_
  rcases sign with rfl | rfl <;> rfl

theorem lex_not {rest : List Char} (apart : ∀ d ∈ rest.head?, d ≠ '=') :
    lex ('!' :: rest) = .mark ['!'] :: lex rest := by
  have alone : tokenAt '!' rest = (some (.mark ['!']), 0) := by
    cases rest with
    | nil => rfl
    | cons d rest =>
        have equals := apart d rfl
        simp [tokenAt, isDecimal, isWordChar, isSpace, markTail, longMarks, equals.symm,
          Char.isAlphanum]
  exact lex_cons '!' [] rest _ alone

/-- Marks that start no longer one. -/
theorem lex_lone {c : Char} (rest : List Char)
    (lone : c ∈ ['(', ')', '{', '}', '[', ']', ';', ',', '~']) :
    lex (c :: rest) = .mark [c] :: lex rest := by
  refine lex_cons c [] rest (some (.mark [c])) ?_
  simp only [List.mem_cons, List.not_mem_nil, or_false] at lone
  rcases lone with rfl | rfl | rfl | rfl | rfl | rfl | rfl | rfl | rfl <;> rfl

end Retarget.C
