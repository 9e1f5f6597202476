/-
# Proofs.LiteralToken -- a literal of the kernel language is a token of C

A vector loop copies the literals of its source into C, and the two languages do not write literals
alike.  Still C cuts a copied literal off where the source did.  A number is digits, points, letters
and underscores with at most one sign, right after an exponent mark, and that is all C asks of a
number (`NumberText`).  A quoted literal ends at the first quote that no backslash takes along, and
the digits of a code are none of its marks (`quotedTail_readQuoted`).

So whatever literal the lexer of the source has read is one token of C (`lex_literal`), unless it is
a raw string: C knows no such quotes, and its first character is a mark of its own (`lex_raw`).
-/
import Mathlib.Data.List.TakeWhile
import Retarget.Proofs.CToken
import Retarget.Source.Lexer

namespace Retarget

open Retarget.Text (isDecimal)
open Retarget.Source (LiteralKind Radix digitRun hasDigit hexValue isHexDigit readCode readEscape
  readExponent readFraction readNumber readPower readQuoted readToken readUnit)
open Retarget.C (EndsNumber Token isWordChar lex numberTail quotedTail)

set_option autoImplicit false
set_option linter.dupNamespace false

/-! ## Numbers -/

/-- What a number goes on with, whatever stands before it. -/
def isNumberChar (c : Char) : Bool := isWordChar c || c == '.'

theorem isWordChar_of_isHexDigit {c : Char} (digit : isHexDigit c = true) :
    isWordChar c = true := by
  simp only [isHexDigit, isDecimal, Bool.or_eq_true, Bool.and_eq_true, decide_eq_true_eq,
    Char.le_def] at digit
  have f : ('f' : Char).val ≤ ('z' : Char).val := by decide
  have F : ('F' : Char).val ≤ ('Z' : Char).val := by decide
  have between {first last : UInt32} (above : first ≤ c.val) (below : c.val ≤ last) :
      (decide (c.val ≥ first) && decide (c.val ≤ last)) = true :=
    Bool.and_eq_true_iff.mpr ⟨decide_eq_true above, decide_eq_true below⟩
  have alphanumeric : c.isAlphanum = true := by
    rcases digit with (digit | lower) | upper
    · have decimal : c.isDigit = true := between digit.1 digit.2
      exact Bool.or_eq_true_iff.mpr (.inr decimal)
    · have letter : c.isLower = true := between lower.1 (UInt32.le_trans lower.2 f)
      exact Bool.or_eq_true_iff.mpr (.inl (Bool.or_eq_true_iff.mpr (.inr letter)))
    · have letter : c.isUpper = true := decide_eq_true ⟨upper.1, UInt32.le_trans upper.2 F⟩
      exact Bool.or_eq_true_iff.mpr (.inl (Bool.or_eq_true_iff.mpr (.inl letter)))
  simp [isWordChar, alphanumeric]

theorem digitRun_word {hex : Bool} {cs : List Char} {c : Char} (member : c ∈ (digitRun hex cs).1) :
    isWordChar c = true := by
  have ok := List.mem_takeWhile_imp member
  simp only [Bool.or_eq_true, beq_iff_eq] at ok
  rcases ok with rfl | digit
  · decide
  · refine isWordChar_of_isHexDigit ?_
    cases hex with
    | true => exact digit
    | false => simp [isHexDigit, show isDecimal c = true from digit]

theorem digitRun_append (hex : Bool) (cs : List Char) :
    (digitRun hex cs).1 ++ (digitRun hex cs).2 = cs :=
  List.takeWhile_append_dropWhile

/-- A number for C: the one sign it may have stands right after an exponent mark. -/
inductive NumberText : List Char → Prop where
  | plain {w : List Char} (chars : ∀ c ∈ w, isNumberChar c = true) : NumberText w
  | signed {front digits : List Char} {e s : Char} (chars : ∀ c ∈ front, isNumberChar c = true)
      (mark : C.isExponentMark e = true) (sign : s = '+' ∨ s = '-')
      (word : ∀ c ∈ digits, isNumberChar c = true) : NumberText (front ++ e :: s :: digits)

theorem NumberText.prepend {front w : List Char} (chars : ∀ c ∈ front, isNumberChar c = true)
    (text : NumberText w) : NumberText (front ++ w) := by
  cases text with
  | plain more =>
      exact .plain fun c member => (List.mem_append.mp member).elim (chars c) (more c)
  | @signed front' digits e s more mark sign word =>
      rw [← List.append_assoc]
      exact .signed (fun c member => (List.mem_append.mp member).elim (chars c) (more c)) mark sign
        word

theorem NumberText.append {w back : List Char} (text : NumberText w)
    (chars : ∀ c ∈ back, isNumberChar c = true) : NumberText (w ++ back) := by
  cases text with
  | plain more =>
      exact .plain fun c member => (List.mem_append.mp member).elim (more c) (chars c)
  | @signed front digits e s more mark sign word =>
      rw [List.append_assoc, List.cons_append, List.cons_append]
      exact .signed more mark sign fun c member =>
        (List.mem_append.mp member).elim (word c) (chars c)

theorem numberTail_append {w rest : List Char} (chars : ∀ c ∈ w, isNumberChar c = true)
    (unsigned : ∀ c ∈ rest.head?, c ≠ '+' ∧ c ≠ '-') :
    numberTail (w ++ rest) = w.length + numberTail rest := by
  induction w with
  | nil => simp
  | cons c w ih =>
      have here := chars c List.mem_cons_self
      have tail := ih fun c member => chars c (List.mem_cons_of_mem _ member)
      simp only [isNumberChar] at here
      cases next : w ++ rest with
      | nil =>
          obtain ⟨rfl, rfl⟩ := List.append_eq_nil_iff.mp next
          simp [numberTail, here]
      | cons s more =>
          have noSign : (s == '+' || s == '-') = false := by
            cases w with
            | nil =>
                have first : s ∈ rest.head? := by simp at next; simp [next]
                simp [unsigned s first]
            | cons d w =>
                obtain rfl : d = s := (List.cons.inj next).1
                refine Bool.eq_false_iff.mpr fun sign => ?_
                have word := chars d (List.mem_cons_of_mem _ List.mem_cons_self)
                rw [isNumberChar, C.sign_not_word sign] at word
                obtain rfl := beq_iff_eq.mp word
                cases sign
          rw [next] at tail
          rw [List.cons_append, next]
          simp [numberTail, noSign, here, tail]
          omega

theorem numberTail_ends {rest : List Char} (ends : EndsNumber rest) : numberTail rest = 0 :=
  C.numberTail_word (w := []) (by simp) ends

theorem NumberText.numberTail {w rest : List Char} (text : NumberText w) (ends : EndsNumber rest) :
    numberTail (w ++ rest) = w.length := by
  have unsigned : ∀ c ∈ rest.head?, c ≠ '+' ∧ c ≠ '-' := fun c first => (ends c first).2.2
  cases text with
  | plain chars => rw [numberTail_append chars unsigned, numberTail_ends ends, Nat.add_zero]
  | @signed front digits e s chars mark sign word =>
      have isWord : isWordChar e = true := by
        simp only [C.isExponentMark, Bool.or_eq_true, beq_iff_eq] at mark
        rcases mark with ((rfl | rfl) | rfl) | rfl <;> decide
      have apart : ∀ c ∈ (e :: s :: (digits ++ rest)).head?, c ≠ '+' ∧ c ≠ '-' := by
        rintro c ⟨⟩
        constructor <;> (rintro rfl; exact absurd isWord (by decide))
      have isSign : (s == '+' || s == '-') = true := by
        rcases sign with rfl | rfl <;> rfl
      have power : C.numberTail (e :: s :: (digits ++ rest)) = digits.length + 2 := by
        rw [C.numberTail, mark, isSign, Bool.and_self, if_pos rfl, numberTail_append word unsigned,
          numberTail_ends ends]
      rw [List.append_assoc, List.cons_append, List.cons_append, numberTail_append chars apart,
        power]
      simp

/-! ## The parts of a number -/

/-- The mark of a radix is spelled like a number; a leading zero is a digit. -/
theorem detect_mark (cs : List Char) :
    (∀ c ∈ cs.take (Radix.detect cs).2, isNumberChar c = true) ∧
      ((Radix.detect cs).1 = .leadingZero → '0' ∈ cs.take (Radix.detect cs).2) := by
  have announced {a b c : Char} {more : List Char} (mark : (c == a || c == b) = true)
      (left : isWordChar a = true) (right : isWordChar b = true) :
      ∀ d ∈ ('0' :: c :: more).take 2, isNumberChar d = true := by
    have word : isWordChar c = true := by
      simp only [Bool.or_eq_true, beq_iff_eq] at mark
      rcases mark with rfl | rfl <;> assumption
    have zero : isWordChar '0' = true := by decide
    simp [zero, isNumberChar, word]
  unfold Radix.detect
  split
  · split
    · exact ⟨announced ‹_› (by decide) (by decide), by simp⟩
    split
    · exact ⟨announced ‹_› (by decide) (by decide), by simp⟩
    split
    · exact ⟨announced ‹_› (by decide) (by decide), by simp⟩
    · exact ⟨by simp; decide, by simp⟩
  · exact ⟨by simp; decide, by simp⟩
  · exact ⟨by simp, by simp⟩

theorem readFraction_append (hex : Bool) (cs : List Char) :
    (readFraction hex cs).1 ++ ((readFraction hex cs).2.1 ++ (readFraction hex cs).2.2) = cs := by
  unfold readFraction
  split
  · exact congrArg _ (digitRun_append hex _)
  · rfl

theorem readFraction_chars (hex : Bool) (cs : List Char) :
    (∀ c ∈ (readFraction hex cs).1, c = '.') ∧
      ∀ c ∈ (readFraction hex cs).2.1, isWordChar c = true := by
  unfold readFraction
  split
  · exact ⟨by simp, fun c => digitRun_word⟩
  · exact ⟨by simp, by simp⟩

theorem readExponent_spelled {cs taken rest : List Char}
    (read : readExponent cs = some (taken, rest)) : taken ++ rest = cs ∧
      ∃ sign digits, taken = sign ++ digits ∧ (sign = [] ∨ sign = ['+'] ∨ sign = ['-']) ∧
        ∀ c ∈ digits, isNumberChar c = true := by
  have run {cs : List Char} (sign : List Char)
      (read : (if hasDigit (digitRun false cs).1 then
        some (sign ++ (digitRun false cs).1, (digitRun false cs).2) else none) =
          some (taken, rest)) : taken ++ rest = sign ++ cs ∧ ∃ digits, taken = sign ++ digits ∧
            ∀ c ∈ digits, isNumberChar c = true := by
    split at read
    · cases read
      refine ⟨by rw [List.append_assoc, digitRun_append], _, rfl, fun c member => ?_⟩
      simp [isNumberChar, digitRun_word member]
    · cases read
  unfold readExponent at read
  dsimp only at read
  split at read
  · obtain ⟨whole, digits, same, chars⟩ := run ['+'] read
    exact ⟨whole, _, digits, same, Or.inr (Or.inl rfl), chars⟩
  · obtain ⟨whole, digits, same, chars⟩ := run ['-'] read
    exact ⟨whole, _, digits, same, Or.inr (Or.inr rfl), chars⟩
  · obtain ⟨whole, digits, same, chars⟩ := run [] read
    exact ⟨whole, _, digits, same, Or.inl rfl, chars⟩

theorem readPower_spelled {radix : Radix} {isFloat : Bool} {cs power rest : List Char}
    (read : readPower radix isFloat cs = some (power, rest)) :
    power ++ rest = cs ∧ NumberText power := by
  unfold readPower at read
  split at read
  · split at read
    · dsimp only at read
      split at read
      · cases read
      split at read
      · cases read
      rename_i e more mark _ _
      obtain ⟨⟨taken, rest'⟩, exponent, same⟩ := Option.map_eq_some_iff.mp read
      cases same
      have word : isNumberChar e = true := by
        simp only [Source.isExponentMark, Bool.or_eq_true, beq_iff_eq] at mark
        rcases mark with ((rfl | rfl) | rfl) | rfl <;> decide
      obtain ⟨whole, sign, digits, rfl, isSign, chars⟩ := readExponent_spelled exponent
      refine ⟨by rw [List.cons_append, whole], ?_⟩
      rcases isSign with rfl | rfl | rfl
      · exact .plain (by simpa [word] using chars)
      · exact @NumberText.signed [] _ _ _ (by simp) mark (Or.inl rfl) chars
      · exact @NumberText.signed [] _ _ _ (by simp) mark (Or.inr rfl) chars
    · split at read
      · cases read
      · cases read
        exact ⟨rfl, .plain (by simp)⟩
  · split at read
    · cases read
    · cases read
      exact ⟨rfl, .plain (by simp)⟩

theorem readUnit_append (cs : List Char) : (readUnit cs).1 ++ (readUnit cs).2 = cs := by
  unfold readUnit
  split <;> rfl

theorem readUnit_chars (cs : List Char) : ∀ c ∈ (readUnit cs).1, isNumberChar c = true := by
  unfold readUnit
  split
  · simp [isNumberChar, isWordChar, Char.isAlphanum]
  · simp

/-- What the lexer cuts off as a number is the text of one, and has a digit. -/
theorem readNumber_spelled {cs body rest : List Char} {kind : LiteralKind}
    (read : readNumber cs = some (kind, body, rest)) :
    body ++ rest = cs ∧ NumberText body ∧ ∃ c ∈ body, isWordChar c = true := by
  unfold readNumber at read
  dsimp only at read
  split at read
  · cases read
  split at read
  · cases read
  rename_i digit
  obtain ⟨⟨power, after⟩, exponent, read⟩ := Option.bind_eq_some_iff.mp read
  split at read
  · cases read
  cases read
  obtain ⟨markChars, zero⟩ := detect_mark cs
  have wholeChars := @digitRun_word ((Radix.detect cs).1 == .hexadecimal)
    (cs.drop (Radix.detect cs).2)
  have fractionChars := readFraction_chars ((Radix.detect cs).1 == .hexadecimal)
    (digitRun ((Radix.detect cs).1 == .hexadecimal) (cs.drop (Radix.detect cs).2)).2
  obtain ⟨split, text⟩ := readPower_spelled exponent
  refine ⟨?_, (text.prepend ?_).append (readUnit_chars after), ?_⟩
  · simp only [List.append_assoc, readUnit_append, split, readFraction_append, digitRun_append,
      List.take_append_drop]
  · intro c member
    simp only [List.mem_append] at member
    rcases member with ((inMark | inWhole) | inPoint) | inFraction
    · exact markChars c inMark
    · simp [isNumberChar, wholeChars inWhole]
    · simp [isNumberChar, fractionChars.1 c inPoint]
    · simp [isNumberChar, fractionChars.2 c inFraction]
  · simp only [Bool.not_eq_true', Bool.not_eq_false, Bool.or_eq_true, hasDigit, List.any_eq_true,
      beq_iff_eq] at digit
    rcases digit with (⟨c, inWhole, -⟩ | ⟨c, inFraction, -⟩) | octal
    · exact ⟨c, by simp [inWhole], wholeChars inWhole⟩
    · exact ⟨c, by simp [inFraction], fractionChars.2 c inFraction⟩
    · exact ⟨'0', by simp [zero octal], by decide⟩

/-! ## Quoted literals -/

theorem plain_of_hexValue {c : Char} (digit : hexValue c < 16) :
    c ≠ '"' ∧ c ≠ '\'' ∧ c ≠ '\\' ∧ c ≠ '\n' := by
  refine ⟨?_, ?_, ?_, ?_⟩ <;> (rintro rfl; exact absurd digit (by decide))

theorem quotedTail_cons {quote c : Char} {w : List Char} (other : c ≠ quote) (plain : c ≠ '\\')
    (line : c ≠ '\n') (more : w ≠ []) :
    quotedTail quote (c :: w) = (quotedTail quote w).map (· + 1) := by
  obtain ⟨d, w, rfl⟩ := List.exists_cons_of_ne_nil more
  simp [quotedTail, other, plain, line]

theorem quotedTail_append {quote : Char} {digits w : List Char}
    (plain : ∀ c ∈ digits, c ≠ quote ∧ c ≠ '\\' ∧ c ≠ '\n') (more : w ≠ []) :
    quotedTail quote (digits ++ w) = (quotedTail quote w).map (· + digits.length) := by
  induction digits with
  | nil => simp
  | cons c digits ih =>
      obtain ⟨other, slash, line⟩ := plain c List.mem_cons_self
      rw [List.cons_append, quotedTail_cons other slash line (by simp [more]),
        ih fun c member => plain c (List.mem_cons_of_mem _ member), Option.map_map]
      refine congrArg (fun f => Option.map f _) (funext fun n => ?_)
      simp only [Function.comp_apply, List.length_cons]
      omega

theorem readCode_spelled {count base limit : Nat} {cs digits rest : List Char} (small : base ≤ 16)
    (read : readCode count base limit cs = some (digits, rest)) :
    digits ++ rest = cs ∧ (∀ d ∈ digits, hexValue d < 16) ∧ digits.length = count := by
  unfold readCode at read
  dsimp only at read
  split at read
  · rename_i ok
    cases read
    simp only [Bool.and_eq_true, beq_iff_eq, List.all_eq_true, decide_eq_true_eq] at ok
    exact ⟨List.take_append_drop .., fun d member => by have := ok.1.1.2 d member; omega, ok.1.1.1⟩
  · cases read

/-- A backslash takes a character along; the digits of a code go on after it. -/
theorem readEscape_spelled {quote : Char} (isQuote : quote = '"' ∨ quote = '\'')
    {cs escape rest : List Char} (read : readEscape quote cs = some (escape, rest)) :
    escape ++ rest = cs ∧ ∃ c digits, escape = c :: digits ∧
      ∀ d ∈ digits, d ≠ quote ∧ d ≠ '\\' ∧ d ≠ '\n' := by
  have mixed {digits : List Char} (hex : ∀ d ∈ digits, hexValue d < 16) :
      ∀ d ∈ digits, d ≠ quote ∧ d ≠ '\\' ∧ d ≠ '\n' := fun d member => by
    obtain ⟨double, single, plain⟩ := plain_of_hexValue (hex d member)
    exact ⟨by rcases isQuote with rfl | rfl <;> assumption, plain⟩
  have marked {count limit : Nat} {m : Char} {cs : List Char}
      (read : (readCode count 16 limit cs).map (fun x => (m :: x.1, x.2)) = some (escape, rest)) :
      escape ++ rest = m :: cs ∧ ∃ c digits, escape = c :: digits ∧
        ∀ d ∈ digits, d ≠ quote ∧ d ≠ '\\' ∧ d ≠ '\n' := by
    obtain ⟨⟨digits, after⟩, code, same⟩ := Option.map_eq_some_iff.mp read
    cases same
    obtain ⟨whole, hex, -⟩ := readCode_spelled (by decide) code
    exact ⟨by rw [List.cons_append, whole], m, digits, rfl, mixed hex⟩
  unfold readEscape at read
  split at read
  · cases read
  rename_i c more
  split at read
  · cases read
    exact ⟨rfl, c, [], rfl, by simp⟩
  split at read
  · obtain ⟨whole, hex, three⟩ := readCode_spelled (by decide) read
    cases escape with
    | nil => cases three
    | cons m digits =>
        exact ⟨whole, m, digits, rfl, mixed fun d member => hex d (List.mem_cons_of_mem _ member)⟩
  split at read
  · exact marked read
  split at read
  · exact marked read
  split at read
  · exact marked read
  · cases read

/-- A quoted literal ends in C where the lexer of the source has ended it. -/
theorem quotedTail_readQuoted {quote : Char} (isQuote : quote = '"' ∨ quote = '\'')
    {fuel count : Nat} {cs body rest : List Char}
    (read : readQuoted quote fuel cs = some (body, count, rest)) :
    body ++ rest = cs ∧ body ≠ [] ∧
      ∀ after, quotedTail quote (body ++ after) = some body.length := by
  induction fuel generalizing cs body count with
  | zero => simp [readQuoted] at read
  | succ fuel ih =>
      cases cs with
      | nil => simp [readQuoted] at read
      | cons c cs =>
          rw [readQuoted] at read
          split at read
          · rename_i closes
            cases read
            refine ⟨rfl, by simp, fun after => ?_⟩
            cases after <;> simp [quotedTail, closes]
          split at read
          · cases read
          split at read
          · rename_i other line slash
            obtain ⟨⟨escape, afterEscape⟩, escaped, read⟩ := Option.bind_eq_some_iff.mp read
            obtain ⟨⟨body, count, after⟩, inner, read⟩ := Option.bind_eq_some_iff.mp read
            cases read
            obtain ⟨wholeEscape, d, digits, rfl, plain⟩ := readEscape_spelled isQuote escaped
            obtain ⟨whole, some, tail⟩ := ih inner
            refine ⟨?_, by simp, fun more => ?_⟩
            · rw [← wholeEscape, ← whole]
              simp
            · have hidden : quotedTail quote ('\\' :: d :: (digits ++ (body ++ more))) =
                  (quotedTail quote (digits ++ (body ++ more))).map (· + 2) := by
                have slash : c = '\\' := beq_iff_eq.mp slash
                subst slash
                rw [quotedTail, if_neg other, if_neg line]
                rfl
              simp only [beq_iff_eq.mp slash, List.append_assoc, List.cons_append]
              rw [hidden, quotedTail_append plain (by simp [some]), tail more]
              simp
              omega
          · rename_i other line slash
            obtain ⟨⟨body, count, after⟩, inner, read⟩ := Option.bind_eq_some_iff.mp read
            cases read
            obtain ⟨whole, some, tail⟩ := ih inner
            refine ⟨by rw [List.cons_append, whole], by simp, fun after => ?_⟩
            rw [List.cons_append, quotedTail_cons (by simpa using other) (by simpa using slash)
              (by simpa using line) (by simp [some]), tail after]
            rfl

/-! ## Literals -/

/-- A literal of the kernel language. -/
def IsLiteral (text : String) : Prop :=
  ∃ c cs kind taken rest, readToken c cs = some (.literal kind text, taken, rest)

/-- A string between back quotes. -/
def isRaw (text : String) : Bool := text.toList.head?.any fun c => c.toNat == 0x60

/-- The token of C that a literal is. -/
def literalToken (text : String) : Token :=
  if text.toList.head?.any fun c => c == '"' || c == '\'' then .quoted text.toList
  else .number text.toList

theorem NumberText.tail {c : Char} {w : List Char} (text : NumberText (c :: w))
    (other : C.isExponentMark c = false) : NumberText w := by
  generalize whole : c :: w = v at text
  cases text with
  | plain chars =>
      subst whole
      exact .plain fun d member => chars d (List.mem_cons_of_mem _ member)
  | @signed front digits e s chars mark sign word =>
      cases front with
      | nil =>
          obtain ⟨rfl, -⟩ := List.cons.inj whole
          rw [other] at mark
          cases mark
      | cons d front =>
          obtain ⟨-, rfl⟩ := List.cons.inj whole
          exact .signed (fun d member => chars d (List.mem_cons_of_mem _ member)) mark sign word

theorem lex_numeral {c : Char} {w rest : List Char} (text : NumberText (c :: w))
    (starts : isDecimal c = true ∨ c = '.' ∧ w.head?.any isDecimal = true)
    (ends : EndsNumber rest) : lex (c :: (w ++ rest)) = .number (c :: w) :: lex rest := by
  have other : C.isExponentMark c = false := by
    refine Bool.eq_false_iff.mpr fun mark => ?_
    simp only [C.isExponentMark, Bool.or_eq_true, beq_iff_eq] at mark
    rcases mark with ((rfl | rfl) | rfl) | rfl <;> exact absurd starts (by simp; decide)
  have begins : (isDecimal c || (c == '.' && (w ++ rest).head?.any isDecimal)) = true := by
    rcases starts with digit | ⟨rfl, digit⟩
    · rw [digit, Bool.true_or]
    · cases w with
      | nil => cases digit
      | cons d w => simpa using Or.inr digit
  have tail := (text.tail other).numberTail ends
  refine C.lex_cons c w rest (some (.number (c :: w))) ?_
  rw [C.tokenAt, if_pos begins, tail, List.take_left]

theorem lex_quoted {quote : Char} {body rest : List Char} (isQuote : quote = '"' ∨ quote = '\'')
    (closes : quotedTail quote (body ++ rest) = some body.length) :
    lex (quote :: (body ++ rest)) = .quoted (quote :: body) :: lex rest := by
  refine C.lex_cons quote body rest (some (.quoted (quote :: body))) ?_
  rcases isQuote with rfl | rfl <;>
    simp [C.tokenAt, isDecimal, isWordChar, C.isSpace, Char.isAlphanum, closes]

theorem lex_readNumber {c : Char} {cs body after rest : List Char} {kind : LiteralKind}
    (starts : (isDecimal c || (c == '.' && cs.head?.any isDecimal)) = true)
    (read : readNumber (c :: cs) = some (kind, body, after)) (ends : EndsNumber rest) :
    lex (body ++ rest) = literalToken (String.ofList body) :: lex rest := by
  obtain ⟨whole, text, d, digit, word⟩ := readNumber_spelled read
  cases body with
  | nil => cases digit
  | cons c' w =>
      obtain ⟨rfl, same⟩ := List.cons.inj whole
      simp only [Bool.or_eq_true, Bool.and_eq_true, beq_iff_eq] at starts
      -- after a point the number goes on: it has a digit, and a point is none
      have first : isDecimal c' = true ∨ c' = '.' ∧ w.head?.any isDecimal = true := by
        refine starts.imp_right fun ⟨point, follows⟩ => ⟨point, ?_⟩
        cases w with
        | nil =>
            obtain rfl := List.mem_singleton.mp digit
            rw [point] at word
            cases word
        | cons e w => simpa [← same] using follows
      have unquoted : (c' == '"' || c' == '\'') = false := by
        refine Bool.eq_false_iff.mpr fun quote => ?_
        simp only [Bool.or_eq_true, beq_iff_eq] at quote
        rcases quote with rfl | rfl <;> exact absurd first (by simp; decide)
      rw [literalToken, String.toList_ofList, List.head?_cons, Option.any_some, unquoted]
      exact lex_numeral text first ends

theorem lex_readQuoted {quote : Char} (isQuote : quote = '"' ∨ quote = '\'') {fuel count : Nat}
    {cs body after : List Char} (read : readQuoted quote fuel cs = some (body, count, after))
    (rest : List Char) :
    lex (quote :: body ++ rest) = literalToken (String.ofList (quote :: body)) :: lex rest := by
  obtain ⟨-, -, closes⟩ := quotedTail_readQuoted isQuote read
  rw [literalToken, String.toList_ofList,
    if_pos (by rcases isQuote with rfl | rfl <;> rfl)]
  exact lex_quoted isQuote (closes rest)

/-- A literal is one token, wherever it is written. -/
theorem lex_literal {text : String} (literal : IsLiteral text) (plain : isRaw text = false)
    {rest : List Char} (ends : EndsNumber rest) :
    lex (text.toList ++ rest) = literalToken text :: lex rest := by
  obtain ⟨c, cs, kind, taken, after, read⟩ := literal
  unfold readToken at read
  dsimp only at read
  split at read
  · split at read <;> cases read
  split at read
  · obtain ⟨⟨kind, body, after⟩, number, read⟩ := Option.bind_eq_some_iff.mp read
    cases read
    rw [String.toList_ofList]
    exact lex_readNumber ‹_› number ends
  split at read
  · rename_i isQuote
    obtain ⟨⟨body, count, after⟩, quoted, read⟩ := Option.bind_eq_some_iff.mp read
    cases read
    obtain rfl := beq_iff_eq.mp isQuote
    rw [String.toList_ofList]
    exact lex_readQuoted (Or.inl rfl) quoted rest
  split at read
  · rename_i isQuote
    obtain ⟨⟨body, count, after⟩, quoted, read⟩ := Option.bind_eq_some_iff.mp read
    split at read
    · cases read
      obtain rfl := beq_iff_eq.mp isQuote
      rw [String.toList_ofList]
      exact lex_readQuoted (Or.inr rfl) quoted rest
    · cases read
  split at read
  · rename_i raw
    obtain ⟨⟨body, after⟩, -, read⟩ := Option.bind_eq_some_iff.mp read
    cases read
    simp [isRaw, beq_iff_eq.mp raw] at plain
  split at read
  · cases read
  · obtain ⟨⟨s, after⟩, -, read⟩ := Option.bind_eq_some_iff.mp read
    cases read

/-- A raw string falls apart. -/
theorem lex_raw {text : String} (raw : isRaw text = true) (rest : List Char) :
    ∃ mark tokens, lex (text.toList ++ rest) = .mark mark :: tokens := by
  obtain ⟨c, first, isQuote⟩ := (Option.any_eq_true ..).mp raw
  obtain ⟨cs, spelled⟩ := List.head?_eq_some_iff.mp first
  obtain rfl : c = Char.ofNat 0x60 := by rw [← beq_iff_eq.mp isQuote, Char.ofNat_toNat]
  rw [spelled, List.cons_append]
  refine ⟨[Char.ofNat 0x60], lex (cs ++ rest), C.lex_cons _ [] (cs ++ rest) (some _) ?_⟩
  simp [C.tokenAt, isDecimal, isWordChar, C.isSpace, C.markTail, C.longMarks, Char.isAlphanum]

end Retarget
