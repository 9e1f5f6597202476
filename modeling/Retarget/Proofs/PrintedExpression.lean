/-
# Proofs.PrintedExpression -- which printed expressions C reads as they were meant

An expression of names, integers, parentheses, the signs `+ - ! ^` and the binary operators has a
form in C, `cForm?`: `^x` becomes `~x`, `x &^ y` becomes `x & ~y`, everything else stays what it
is, so the form computes what the source computes.  The printer writes the form's operators in
order and adds no parentheses.  C reads the text back as the form exactly if C's grammar derives the
form as it stands and no sign meets itself: `printed_reads_back_iff`.  An update that clears bits
is read as one exactly if, in addition, the value is no binary expression.

The two languages order their operators differently, so `x & 1 == 0` is read back as another
expression: `printed_comparison_regroups`.
-/
import Retarget.Proofs.CExpression
import Retarget.Kernel.CText

namespace Retarget

open Retarget.Source (Node Mark BinaryOp UnaryOp AssignOp)
open Retarget.Text (isDecimal isNameChar startsName isLetter isDigit)
open Retarget.C (Expr PrefixOp Token isWordChar EndsNumber lex)

set_option autoImplicit false
set_option linter.dupNamespace false

/-! ## The form of an expression in C -/

def isIdentifier (text : String) : Bool :=
  match text.toList with
  | c :: cs => startsName c && cs.all isNameChar
  | [] => false

def isInteger (text : String) : Bool :=
  match text.toList with
  | c :: cs => isDecimal c && cs.all isWordChar
  | [] => false

/-- The signs an expression may have. -/
def prefixOf? : UnaryOp → Option PrefixOp
  | .plus => some .plus
  | .minus => some .minus
  | .not => some .not
  | .complement => some .complement
  | _ => none

/-- The one name that C spells otherwise. -/
def cName (text : String) : List Char := (if text == "nil" then "NULL" else text).toList

/-- What an expression is meant to be in C. -/
inductive CForm : Node → Expr → Prop where
  | name (m : Mark) {text : String} (ident : isIdentifier text = true) :
      CForm (.name m text) (.name (cName text))
  | number (m : Mark) {text : String} (integer : isInteger text = true) :
      CForm (.literal m .int text) (.number text.toList)
  | paren (m : Mark) {x : Node} {t : Expr} (inner : CForm x t) : CForm (.paren m x) (.paren t)
  | unary (m : Mark) {op : UnaryOp} {op' : PrefixOp} {x : Node} {t : Expr}
      (sign : prefixOf? op = some op') (inner : CForm x t) : CForm (.unary m op x) (.unary op' t)
  | clear (m : Mark) {x y : Node} {s t : Expr} (left : CForm x s) (right : CForm y t) :
      CForm (.binary m .andNot x y) (.binary .bitAnd s (.unary .complement t))
  | binary (m : Mark) {op : BinaryOp} {x y : Node} {s t : Expr} (other : op ≠ .andNot)
      (left : CForm x s) (right : CForm y t) : CForm (.binary m op x y) (.binary op s t)

/-! ## What it computes -/

/-- A meaning of the operators on values of some type; clearing bits is what its name says. -/
structure Arithmetic (α : Type) where
  name : List Char → α
  number : List Char → α
  unary : PrefixOp → α → α
  binary : BinaryOp → α → α → α
  clears : ∀ x y, binary .andNot x y = binary .bitAnd x (unary .complement y)

namespace Arithmetic

variable {α : Type} (A : Arithmetic α)

/-- The value of an expression as the source groups it. -/
def source? : Node → Option α
  | .name _ text => some (A.name (cName text))
  | .literal _ _ text => some (A.number text.toList)
  | .paren _ x => source? x
  | .unary _ op x =>
    match prefixOf? op, source? x with
    | some op, some x => some (A.unary op x)
    | _, _ => none
  | .binary _ op x y =>
    match source? x, source? y with
    | some x, some y => some (A.binary op x y)
    | _, _ => none
  | _ => none

/-- The value of a C expression. -/
def value : Expr → α
  | .name text => A.name text
  | .number text => A.number text
  | .paren x => value x
  | .unary op x => A.unary op (value x)
  | .binary op x y => A.binary op (value x) (value y)

end Arithmetic

/-! ## Signs that meet -/

/-- The sign that the text of an expression starts with. -/
def firstSign? : Node → Option UnaryOp
  | .unary _ op _ => some op
  | .binary _ _ x _ => firstSign? x
  | _ => none

/-- No plus stands right before a plus and no minus right before a minus. -/
def signsApart : Node → Bool
  | .paren _ x => signsApart x
  | .unary _ op x =>
    signsApart x && !((op == .plus || op == .minus) && firstSign? x == some op)
  | .binary _ _ x y => signsApart x && signsApart y
  | _ => true

/-! ## Leaves -/

theorem isWordChar_of_isNameChar {c : Char} (inName : isNameChar c = true) : isWordChar c = true := by
  by_cases ascii : c.toNat < 0x80
  · simp only [isNameChar, startsName, isLetter, isDigit, isDecimal, ascii, if_true, Bool.or_eq_true,
      beq_iff_eq, Bool.and_eq_true, decide_eq_true_eq] at inName
    rcases inName with (alpha | rfl) | digit
    · simp [isWordChar, Char.isAlphanum, alpha]
    · decide
    · have isDigit : c.isDigit = true := by simpa [Char.isDigit, Char.le_def] using digit
      simp [isWordChar, Char.isAlphanum, isDigit]
  · simp only [isWordChar, Bool.or_eq_true, decide_eq_true_eq]
    exact Or.inr (Nat.le_of_not_lt ascii)

theorem isDecimal_of_startsName {c : Char} (starts : startsName c = true) : isDecimal c = false := by
  refine Bool.eq_false_iff.mpr fun digit => ?_
  simp only [isDecimal, Bool.and_eq_true, decide_eq_true_eq, Char.le_def, UInt32.le_iff_toNat_le]
    at digit
  have same : c.toNat = c.val.toNat := rfl
  have zero : ('0' : Char).val.toNat = 48 := rfl
  have nine : ('9' : Char).val.toNat = 57 := rfl
  have ascii : c.toNat < 0x80 := by omega
  have letter : c.isAlpha = (decide ('A'.val ≤ c.val ∧ c.val ≤ 'Z'.val) ||
      (decide ('a'.val ≤ c.val) && decide (c.val ≤ 'z'.val))) := rfl
  simp only [startsName, isLetter, ascii, if_true, letter, Bool.or_eq_true, Bool.and_eq_true,
    decide_eq_true_eq, beq_iff_eq, UInt32.le_iff_toNat_le] at starts
  rcases starts with (upper | lower) | rfl
  · have : ('A' : Char).val.toNat = 65 := rfl
    omega
  · have : ('a' : Char).val.toNat = 97 := rfl
    omega
  · exact absurd digit (by decide)

theorem isWordChar_of_isDecimal {c : Char} (digit : isDecimal c = true) : isWordChar c = true := by
  have isDigit : c.isDigit = true := by
    simpa [isDecimal, Char.isDigit, Char.le_def] using digit
  simp [isWordChar, Char.isAlphanum, isDigit]

theorem identifier_spelled {text : String} (ident : isIdentifier text = true) :
    ∃ c cs, text.toList = c :: cs ∧ isWordChar c = true ∧ isDecimal c = false ∧
      ∀ d ∈ cs, isWordChar d = true := by
  unfold isIdentifier at ident
  split at ident
  · rename_i c cs spelled
    simp only [Bool.and_eq_true, List.all_eq_true] at ident
    refine ⟨c, cs, spelled, ?_, isDecimal_of_startsName ident.1, ?_⟩
    · exact isWordChar_of_isNameChar (by simp [isNameChar, ident.1])
    · exact fun d member => isWordChar_of_isNameChar (ident.2 d member)
  · cases ident

theorem cName_spelled {text : String} (ident : isIdentifier text = true) :
    ∃ c cs, cName text = c :: cs ∧ isWordChar c = true ∧ isDecimal c = false ∧
      ∀ d ∈ cs, isWordChar d = true := by
  by_cases isNil : text = "nil"
  · subst isNil
    exact ⟨'N', ['U', 'L', 'L'], by simp [cName], rfl, rfl,
      List.all_eq_true.mp (show ['U', 'L', 'L'].all isWordChar = true from rfl)⟩
  · have same : cName text = text.toList := by simp [cName, isNil]
    exact same ▸ identifier_spelled ident

theorem integer_spelled {text : String} (integer : isInteger text = true) :
    ∃ c cs, text.toList = c :: cs ∧ isDecimal c = true ∧ ∀ d ∈ cs, isWordChar d = true := by
  unfold isInteger at integer
  split at integer
  · rename_i c cs spelled
    simp only [Bool.and_eq_true, List.all_eq_true] at integer
    exact ⟨c, cs, spelled, integer⟩
  · cases integer

theorem lex_cName {text : String} (ident : isIdentifier text = true) {rest : List Char}
    (ends : EndsNumber rest) : lex (cName text ++ rest) = .name (cName text) :: lex rest := by
  obtain ⟨c, cs, spelled, first, letter, word⟩ := cName_spelled ident
  rw [spelled]
  exact C.lex_name first letter word ends.endsWord

theorem lex_integer {text : String} (integer : isInteger text = true) {rest : List Char}
    (ends : EndsNumber rest) : lex (text.toList ++ rest) = .number text.toList :: lex rest := by
  obtain ⟨c, cs, spelled, digit, word⟩ := integer_spelled integer
  rw [spelled]
  exact C.lex_number digit word ends

/-! ## Texts -/

namespace CPrinter

variable (p : CPrinter)

theorem toList_name (m : Mark) (text : String) :
    (p.expr (.name m text)).toList = cName text := by
  rw [expr_name, cName]

theorem toList_number (m : Mark) (kind : Source.LiteralKind) (text : String) :
    (p.expr (.literal m kind text)).toList = text.toList :=
  rfl

theorem toList_paren (m : Mark) (x : Node) :
    (p.expr (.paren m x)).toList = '(' :: ((p.expr x).toList ++ [')']) := by
  show ("(" ++ p.expr x ++ ")").toList = _
  simp

theorem toList_unary {op : UnaryOp} {op' : PrefixOp} (sign : prefixOf? op = some op')
    (m : Mark) (x : Node) :
    (p.expr (.unary m op x)).toList = op'.mark ++ (p.expr x).toList := by
  have shown : p.expr (.unary m op x) = String.ofList op'.mark ++ p.expr x := by
    cases op <;> cases sign <;> rfl
  rw [shown, String.toList_append, String.toList_ofList]

theorem toList_andNot (m : Mark) (x y : Node) :
    (p.expr (.binary m .andNot x y)).toList =
      (p.expr x).toList ++ ' ' :: '&' :: ' ' :: '~' :: (p.expr y).toList := by
  show (p.expr x ++ " & ~" ++ p.expr y).toList = _
  simp

theorem toList_binary {op : BinaryOp} (other : op ≠ .andNot) (m : Mark) (x y : Node) :
    (p.expr (.binary m op x y)).toList =
      (p.expr x).toList ++ ' ' :: (op.text.toList ++ ' ' :: (p.expr y).toList) := by
  have shown : p.expr (.binary m op x y) = p.expr x ++ " " ++ op.text ++ " " ++ p.expr y := by
    cases op <;> first | exact absurd rfl other | rfl
  rw [shown]
  simp

end CPrinter

/-- Between blanks, a binary operator is one mark. -/
theorem lex_binaryOp {op : BinaryOp} (other : op ≠ .andNot) (rest : List Char) :
    lex (op.text.toList ++ ' ' :: rest) = .mark op.text.toList :: lex rest := by
  obtain ⟨c, a, spelled, starts⟩ : ∃ c a, op.text.toList = c :: a ∧
      ∀ rest, C.tokenAt c (a ++ ' ' :: rest) = (some (.mark (c :: a)), a.length) := by
    cases op <;> first
      | exact absurd rfl other
      | exact ⟨_, _, rfl, fun _ => rfl⟩
  rw [spelled, List.cons_append, C.lex_cons c a (' ' :: rest) _ (starts rest), C.lex_space]
  rfl

/-! ## How a text starts -/

/-- The first character is the sign, if there is one, and is never taken for the end of a longer
mark by anything but that sign. -/
structure Starts (cs : List Char) (sign : Option UnaryOp) : Prop where
  nonempty : cs ≠ []
  plain : ∀ c ∈ cs.head?, c ≠ '=' ∧ c ≠ '>'
  plus : '+' ∈ cs.head? ↔ sign = some .plus
  minus : '-' ∈ cs.head? ↔ sign = some .minus

theorem Starts.append {cs : List Char} {sign : Option UnaryOp} (starts : Starts cs sign)
    (rest : List Char) : Starts (cs ++ rest) sign := by
  obtain ⟨c, cs, rfl⟩ := List.exists_cons_of_ne_nil starts.nonempty
  exact ⟨by simp, starts.plain, starts.plus, starts.minus⟩

theorem starts_word {c : Char} (word : isWordChar c = true) (cs : List Char) :
    Starts (c :: cs) none := by
  have ne (d : Char) (notWord : isWordChar d = false) : c ≠ d := by
    rintro rfl
    rw [word] at notWord
    cases notWord
  refine ⟨by simp, ?_, ?_, ?_⟩
  · rintro d ⟨⟩
    exact ⟨ne _ (by decide), ne _ (by decide)⟩
  · simpa using ne '+' (by decide)
  · simpa using ne '-' (by decide)

theorem starts_sign {op : UnaryOp} {op' : PrefixOp} (sign : prefixOf? op = some op')
    (rest : List Char) : Starts (op'.mark ++ rest) (some op) := by
  cases op <;> cases sign <;> constructor <;> simp [PrefixOp.mark]

theorem expr_starts (p : CPrinter) {e : Node} {t : Expr} (form : CForm e t) :
    Starts (p.expr e).toList (firstSign? e) := by
  induction form with
  | name m ident =>
      obtain ⟨c, cs, spelled, first, -⟩ := cName_spelled ident
      rw [CPrinter.toList_name, spelled]
      exact starts_word first cs
  | number m integer =>
      obtain ⟨c, cs, spelled, digit, -⟩ := integer_spelled integer
      rw [CPrinter.toList_number, spelled]
      exact starts_word (isWordChar_of_isDecimal digit) cs
  | paren m inner ih =>
      rw [CPrinter.toList_paren]
      constructor <;> simp [firstSign?]
  | unary m sign inner ih =>
      rw [CPrinter.toList_unary p sign]
      exact starts_sign sign _
  | clear m left right ihx ihy =>
      rw [CPrinter.toList_andNot]
      exact ihx.append _
  | binary m other left right ihx ihy =>
      rw [CPrinter.toList_binary p other]
      exact ihx.append _

/-! ## The tokens of a text -/

/-- A sign whose operand does not start with it is a mark of its own. -/
theorem lex_prefixOp {op : UnaryOp} {op' : PrefixOp} (sign : prefixOf? op = some op')
    {cs : List Char} {first : Option UnaryOp} (starts : Starts cs first)
    (apart : ((op == .plus || op == .minus) && first == some op) = false) :
    lex (op'.mark ++ cs) = .mark op'.mark :: lex cs := by
  have plain := starts.plain
  cases op <;> cases sign
  case plus =>
    refine C.lex_sign (Or.inl rfl) fun d isFirst => ⟨?_, plain d isFirst⟩
    rintro rfl
    simp [starts.plus.mp isFirst] at apart
  case minus =>
    refine C.lex_sign (Or.inr rfl) fun d isFirst => ⟨?_, plain d isFirst⟩
    rintro rfl
    simp [starts.minus.mp isFirst] at apart
  case not => exact C.lex_not fun d isFirst => (plain d isFirst).1
  case complement => exact C.lex_lone cs (by decide)

/-- A sign that meets itself is read as one mark with it. -/
theorem lex_meeting {op : UnaryOp} {op' : PrefixOp} (sign : prefixOf? op = some op')
    {cs : List Char} {first : Option UnaryOp} (starts : Starts cs first)
    (meets : ((op == .plus || op == .minus) && first == some op) = true) :
    ∃ c, (c = '+' ∨ c = '-') ∧ Token.mark [c, c] ∈ lex (op'.mark ++ cs) := by
  obtain ⟨c, cs, rfl⟩ := List.exists_cons_of_ne_nil starts.nonempty
  have isFirst {d : Char} (same : d ∈ (c :: cs).head?) : c = d := Option.some.inj same
  simp only [Bool.and_eq_true, Bool.or_eq_true, beq_iff_eq] at meets
  obtain ⟨rfl | rfl, same⟩ := meets
  · cases sign
    obtain rfl := isFirst (starts.plus.mpr same)
    exact ⟨'+', Or.inl rfl, by rw [show PrefixOp.plus.mark ++ '+' :: cs = '+' :: '+' :: cs from rfl,
      C.lex_doubled cs (Or.inl rfl)]; exact List.mem_cons_self⟩
  · cases sign
    obtain rfl := isFirst (starts.minus.mpr same)
    exact ⟨'-', Or.inr rfl, by rw [show PrefixOp.minus.mark ++ '-' :: cs = '-' :: '-' :: cs from rfl,
      C.lex_doubled cs (Or.inr rfl)]; exact List.mem_cons_self⟩

/-- A text that starts with an expression starts with the tokens of its form, or a sign in it meets
itself. -/
inductive Lexes (e : Node) (t : Expr) (text rest : List Char) : Prop where
  | apart (yes : signsApart e = true) (same : lex text = t.tokens ++ lex rest)
  | meeting (no : signsApart e = false) (c : Char) (sign : c = '+' ∨ c = '-')
      (member : Token.mark [c, c] ∈ lex text)

theorem endsNumber_space (rest : List Char) : EndsNumber (' ' :: rest) := by
  rintro c ⟨⟩
  decide

theorem endsNumber_closing (rest : List Char) : EndsNumber (')' :: rest) := by
  rintro c ⟨⟩
  decide

/-- Two expressions with the tokens `between` in the middle. -/
theorem Lexes.join {x y e : Node} {s t u : Expr} {text after second rest : List Char}
    (between : List Token) (first : Lexes x s text after)
    (middle : lex after = between ++ lex second) (last : Lexes y t second rest)
    (signs : signsApart e = (signsApart x && signsApart y))
    (tokens : u.tokens = s.tokens ++ between ++ t.tokens) : Lexes e u text rest := by
  cases first with
  | meeting no c sign member => exact .meeting (by simp [signs, no]) c sign member
  | apart yes same =>
      cases last with
      | meeting no c sign member =>
          refine .meeting (by simp [signs, no]) c sign ?_
          rw [same, middle]
          simp [member]
      | apart yes' same' =>
          refine .apart (by simp [signs, yes, yes']) ?_
          rw [same, middle, same', tokens]
          simp

theorem lex_expr (p : CPrinter) {e : Node} {t : Expr} (form : CForm e t) {rest : List Char}
    (ends : EndsNumber rest) : Lexes e t ((p.expr e).toList ++ rest) rest := by
  induction form generalizing rest with
  | name m ident => exact .apart rfl (by rw [CPrinter.toList_name, lex_cName ident ends]; rfl)
  | number m integer =>
      exact .apart rfl (by rw [CPrinter.toList_number, lex_integer integer ends]; rfl)
  | @paren m x t inner ih =>
      have opened : lex ((p.expr (.paren m x)).toList ++ rest) =
          .mark ['('] :: lex ((p.expr x).toList ++ ')' :: rest) := by
        rw [CPrinter.toList_paren, ← C.lex_lone _ (by decide)]
        simp
      rcases ih (endsNumber_closing rest) with ⟨yes, same⟩ | ⟨no, c, sign, member⟩
      · refine .apart yes ?_
        rw [opened, same, C.lex_lone rest (by decide)]
        simp [Expr.tokens]
      · exact .meeting no c sign (by rw [opened]; exact List.mem_cons_of_mem _ member)
  | @unary m op op' x t sign inner ih =>
      have starts := (expr_starts p inner).append rest
      rw [CPrinter.toList_unary p sign, List.append_assoc]
      by_cases meets : ((op == .plus || op == .minus) && firstSign? x == some op) = true
      · obtain ⟨c, isSign, member⟩ := lex_meeting sign starts meets
        exact .meeting (by simp only [signsApart, meets]; simp) c isSign member
      · have apart := Bool.eq_false_iff.mpr meets
        have taken := lex_prefixOp sign starts apart
        rcases ih ends with ⟨yes, same⟩ | ⟨no, c, isSign, member⟩
        · refine .apart (by rw [signsApart, apart, yes]; rfl) ?_
          rw [taken, same]
          rfl
        · refine .meeting (by simp [signsApart, no]) c isSign ?_
          rw [taken]
          exact List.mem_cons_of_mem _ member
  | @clear m x y s t left right ihx ihy =>
      rw [CPrinter.toList_andNot, List.append_assoc]
      refine (ihx (endsNumber_space _)).join [.mark ['&'], .mark ['~']] ?_ (ihy ends) rfl ?_
      · have op := lex_binaryOp (show BinaryOp.bitAnd ≠ .andNot by decide)
          ('~' :: ((p.expr y).toList ++ rest))
        rw [C.lex_lone _ (by decide)] at op
        exact (C.lex_space _).trans op
      · simp [Expr.tokens, BinaryOp.text, PrefixOp.mark]
  | @binary m op x y s t other left right ihx ihy =>
      rw [CPrinter.toList_binary p other, List.append_assoc]
      refine (ihx (endsNumber_space _)).join [.mark op.text.toList] ?_ (ihy ends) rfl ?_
      · have op' := lex_binaryOp other ((p.expr y).toList ++ rest)
        refine (C.lex_space _).trans ?_
        simpa using op'
      · simp [Expr.tokens]

/-! ## Reading back -/

namespace C

/-- The expression that a text is in C. -/
def readText? (text : String) : Option Expr := readExpr? (lex text.toList)

end C

theorem no_doubled_sign {e : Node} {t : Expr} (form : CForm e t) {c : Char} (sign : c = '+' ∨ c = '-') :
    Token.mark [c, c] ∉ t.tokens := by
  induction form with
  | name m ident => simp [Expr.tokens]
  | number m integer => simp [Expr.tokens]
  | paren m inner ih => simp [Expr.tokens, ih]
  | @unary m op op' x t isSign inner ih =>
      have other : [c, c] ≠ op'.mark := by
        rcases sign with rfl | rfl <;> cases op <;> cases isSign <;> decide
      simp [Expr.tokens, ih, other]
  | clear m left right ihx ihy =>
      have other : [c, c] ≠ BinaryOp.bitAnd.text.toList := by
        rcases sign with rfl | rfl <;> decide
      simp [Expr.tokens, ihx, ihy, other, PrefixOp.mark]
  | @binary m op x y s t isOp left right ihx ihy =>
      have other : [c, c] ≠ op.text.toList := by
        rcases sign with rfl | rfl <;> cases op <;> decide
      simp [Expr.tokens, ihx, ihy, other]

/-- The tokens of the text are those of the form exactly if no sign meets itself. -/
theorem lex_expr_eq_iff (p : CPrinter) {e : Node} {t : Expr} (form : CForm e t) :
    lex (p.expr e).toList = t.tokens ↔ signsApart e = true := by
  have text : (p.expr e).toList ++ [] = (p.expr e).toList := List.append_nil _
  have ended : EndsNumber [] := by rintro c ⟨⟩
  rcases lex_expr p form ended with ⟨yes, same⟩ | ⟨no, c, sign, member⟩
  · rw [text, C.lex_nil, List.append_nil] at same
    exact iff_of_true same yes
  · rw [text] at member
    refine iff_of_false (fun same => ?_) (by simp [no])
    rw [same] at member
    exact no_doubled_sign form sign member

theorem readText?_expr_iff (p : CPrinter) {e : Node} {t : Expr} (form : CForm e t) :
    C.readText? (p.expr e) = some t ↔ t.shaped = true ∧ signsApart e = true := by
  rw [C.readText?, C.readExpr?_eq_some_iff, C.Reads, ← lex_expr_eq_iff p form, eq_comm (a := t.tokens)]

/-- The form computes what the source computes. -/
theorem source?_eq {α : Type} (A : Arithmetic α) {e : Node} {t : Expr} (form : CForm e t) :
    A.source? e = some (A.value t) := by
  induction form with
  | name m ident => rfl
  | number m integer => rfl
  | paren m inner ih => exact ih
  | unary m sign inner ih =>
      dsimp only [Arithmetic.source?, Arithmetic.value]
      simp [sign, ih]
  | clear m left right ihx ihy =>
      dsimp only [Arithmetic.source?, Arithmetic.value]
      simp [ihx, ihy, A.clears]
  | binary m other left right ihx ihy =>
      dsimp only [Arithmetic.source?, Arithmetic.value]
      simp [ihx, ihy]

/-! ## Updates -/

namespace C

/-- An update of a variable. -/
structure Update where
  target : List Char
  op : BinaryOp
  value : Expr
deriving DecidableEq, Repr

/-- The operators that combine with an assignment. -/
def updateOps : List BinaryOp :=
  [.mul, .div, .rem, .add, .sub, .shl, .shr, .bitAnd, .bitXor, .bitOr]

/-- The update that a text is in C. -/
def readUpdate? (text : String) : Option Update :=
  match lex text.toList with
  | .name x :: .mark m :: rest =>
    if keywords.contains x then none
    else match updateOps.find? (fun op => op.text.toList ++ ['='] == m), readExpr? rest with
      | some op, some v => some ⟨x, op, v⟩
      | _, _ => none
  | _ => none

end C

theorem toList_clearing (p : CPrinter) (m : Mark) (x : String) (e : Node) :
    (p.assign (.update .andNot) [.name m x] [e]).toList =
      cName x ++ ' ' :: '&' :: '=' :: ' ' :: '~' :: (p.expr e).toList := by
  simp [CPrinter.assign, CPrinter.assignPart, Text.join, CPrinter.toList_name]

theorem lex_clearing (p : CPrinter) (m : Mark) {x : String} (ident : isIdentifier x = true)
    (e : Node) :
    lex (p.assign (.update .andNot) [.name m x] [e]).toList =
      .name (cName x) :: .mark ['&', '='] :: .mark ['~'] :: lex (p.expr e).toList := by
  have op (rest : List Char) : lex ('&' :: '=' :: rest) = .mark ['&', '='] :: lex rest :=
    C.lex_cons '&' ['='] rest (some (.mark ['&', '='])) rfl
  rw [toList_clearing, lex_cName ident (endsNumber_space _), C.lex_space, op, C.lex_space,
    C.lex_lone _ (by decide)]

/-- An update that clears the bits of a value is read as one exactly if the value is read back and
is no binary expression. -/
theorem readUpdate?_clearing_iff (p : CPrinter) (m : Mark) {x : String} (ident : isIdentifier x = true)
    (plain : cName x ∉ C.keywords) {e : Node} {t : Expr} (form : CForm e t) :
    C.readUpdate? (p.assign (.update .andNot) [.name m x] [e]) =
        some ⟨cName x, .bitAnd, .unary .complement t⟩ ↔
      t.shaped = true ∧ signsApart e = true ∧ C.prefixStrength ≤ t.level := by
  have op : C.updateOps.find? (fun op => op.text.toList ++ ['='] == ['&', '=']) = some .bitAnd := by
    decide
  have whole : C.readUpdate? (p.assign (.update .andNot) [.name m x] [e]) =
      (C.readExpr? (.mark ['~'] :: lex (p.expr e).toList)).map fun v => ⟨cName x, .bitAnd, v⟩ := by
    have isName : C.keywords.contains (cName x) = false := by simpa using plain
    simp only [C.readUpdate?, lex_clearing p m ident, isName, op]
    cases C.readExpr? (.mark ['~'] :: lex (p.expr e).toList) <;> rfl
  have given : (Option.map (fun v => (⟨cName x, .bitAnd, v⟩ : C.Update))
      (C.readExpr? (.mark ['~'] :: lex (p.expr e).toList)) =
        some ⟨cName x, .bitAnd, .unary .complement t⟩) ↔
      C.readExpr? (.mark ['~'] :: lex (p.expr e).toList) = some (.unary .complement t) := by
    simp
  rw [whole, given, C.readExpr?_eq_some_iff, C.Reads, ← lex_expr_eq_iff p form]
  simp only [Expr.shaped, Expr.tokens, PrefixOp.mark, Bool.and_eq_true, decide_eq_true_eq,
    List.cons.injEq, true_and]
  rw [eq_comm (a := t.tokens)]
  exact and_right_comm.trans and_assoc

/-! ## Printed nodes -/

theorem print_expr (p : CPrinter) {e : Node} {t : Expr} (form : CForm e t) : p.print e = p.expr e := by
  cases form <;> rfl

/-- An expression printed as C is read back as its form exactly if C derives the form as it stands
and no sign meets itself.  The form computes what the source computes, whatever the operators
mean.  An update that clears the bits of the expression is read back as that exactly if, in
addition, the expression is no binary one. -/
theorem printed_reads_back_iff (u : SourceUnit) {e : Node} {t : Expr} (form : CForm e t) :
    (C.readText? (u.print e) = some t ↔ t.shaped = true ∧ signsApart e = true) ∧
    (∀ {α : Type} (A : Arithmetic α), A.source? e = some (A.value t)) ∧
    ∀ (m m' : Mark) {x : String}, isIdentifier x = true → cName x ∉ C.keywords →
      (C.readUpdate? (u.print (.assign m (.update .andNot) [.name m' x] [e])) =
          some ⟨cName x, .bitAnd, .unary .complement t⟩ ↔
        t.shaped = true ∧ signsApart e = true ∧ C.prefixStrength ≤ t.level) ∧
      ∀ {α : Type} (A : Arithmetic α),
        A.binary .bitAnd (A.name (cName x)) (A.value (.unary .complement t)) =
          A.binary .andNot (A.name (cName x)) (A.value t) := by
  refine ⟨?_, fun A => source?_eq A form, fun m m' x ident plain => ⟨?_, fun A => ?_⟩⟩
  · rw [SourceUnit.print, print_expr _ form]
    exact readText?_expr_iff _ form
  · exact readUpdate?_clearing_iff _ m' ident plain form
  · exact (A.clears _ _).symm

/-- The expression `^(low &^ mask | 1)`. -/
def clearedBits : Node :=
  .unary ⟨1, 0, 0⟩ .complement (.paren ⟨2, 0, 0⟩ (.binary ⟨3, 0, 0⟩ .bitOr
    (.binary ⟨4, 0, 0⟩ .andNot (.name ⟨5, 0, 0⟩ "low") (.name ⟨6, 0, 0⟩ "mask"))
    (.literal ⟨7, 0, 0⟩ .int "1")))

def clearedBitsForm : Expr :=
  .unary .complement (.paren (.binary .bitOr
    (.binary .bitAnd (.name "low".toList) (.unary .complement (.name "mask".toList)))
    (.number "1".toList)))

theorem clearedBits_form : CForm clearedBits clearedBitsForm :=
  .unary _ rfl (.paren _ (.binary _ (by decide) (.clear _ (.name _ (by decide))
    (.name _ (by decide))) (.number _ (by decide))))

theorem printed_reads_back_cleared :
    C.readText? (SourceUnit.print default clearedBits) = some clearedBitsForm ∧
    C.readUpdate? (SourceUnit.print default
        (.assign ⟨8, 0, 0⟩ (.update .andNot) [.name ⟨9, 0, 0⟩ "flags"] [clearedBits])) =
      some ⟨"flags".toList, .bitAnd, .unary .complement clearedBitsForm⟩ := by
  obtain ⟨whole, -, update⟩ := printed_reads_back_iff default clearedBits_form
  have free : cName "flags" ∉ C.keywords := C.toList_mem_map.not.mpr (by decide +kernel)
  have flags := update ⟨8, 0, 0⟩ ⟨9, 0, 0⟩ (by decide +kernel) free
  have shaped : clearedBitsForm.shaped = true := by
    decide +kernel
  exact ⟨whole.mpr ⟨shaped, rfl⟩, flags.1.mpr ⟨shaped, rfl, by decide⟩⟩

/-- The test `x & 1 == 0`, which the source reads as `(x & 1) == 0`. -/
def evenTest : Node :=
  .binary ⟨1, 0, 0⟩ .eq
    (.binary ⟨2, 0, 0⟩ .bitAnd (.name ⟨3, 0, 0⟩ "x") (.literal ⟨4, 0, 0⟩ .int "1"))
    (.literal ⟨5, 0, 0⟩ .int "0")

/-- C compares first: the printed test is read back as `x & (1 == 0)`. -/
theorem printed_comparison_regroups :
    CForm evenTest
        (.binary .eq (.binary .bitAnd (.name ['x']) (.number ['1'])) (.number ['0'])) ∧
    C.readText? (SourceUnit.print default evenTest) =
      some (.binary .bitAnd (.name ['x']) (.binary .eq (.number ['1']) (.number ['0']))) := by
  constructor
  · exact .binary _ (by decide) (.binary _ (by decide) (.name _ (by decide)) (.number _ (by decide)))
      (.number _ (by decide))
  · decide +kernel

end Retarget
