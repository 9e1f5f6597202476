/-
# Proofs.CExpression -- how C reads an expression

Expressions made of names, numbers, parentheses, prefix operators and binary operators, as C
groups them: ten strengths of binary operators, all left associative, every prefix operator
tighter than all of them.  `Expr.shaped` says of a tree that C's grammar derives it: a left operand
is at least as tight as its operator, a right operand tighter, an operand of a prefix operator is
no binary expression, and names are no keywords.

`readExpr?` reads tokens with a stack of what still waits for an operand.  It gives the tree that
the grammar derives and no other: `readExpr?_eq_some_iff`.
-/
import Retarget.Proofs.CToken
import Retarget.Source.Operator

namespace Retarget.C

open Retarget.Source (BinaryOp)

set_option autoImplicit false
set_option linter.dupNamespace false

/-! ## Trees -/

inductive PrefixOp where
  | increment | decrement | plus | minus | complement | not | address | indirect
deriving DecidableEq, Repr, Inhabited

def PrefixOp.mark : PrefixOp → List Char
  | increment => ['+', '+']
  | decrement => ['-', '-']
  | plus => ['+']
  | minus => ['-']
  | complement => ['~']
  | not => ['!']
  | address => ['&']
  | indirect => ['*']

def PrefixOp.all : List PrefixOp :=
  [increment, decrement, plus, minus, complement, not, address, indirect]

def prefixOp? (m : List Char) : Option PrefixOp := PrefixOp.all.find? (·.mark == m)

/-- The binary operators of C; it has none that clears bits. -/
def binaryOps : List BinaryOp :=
  [.or, .and, .eq, .ne, .lt, .le, .gt, .ge, .add, .sub, .bitOr, .bitXor, .mul, .div, .rem, .shl,
    .shr, .bitAnd]

def binaryOp? (m : List Char) : Option BinaryOp := binaryOps.find? (·.text.toList == m)

/-- How tightly C binds a binary operator; larger is tighter. -/
def strength : BinaryOp → Nat
  | .or => 1
  | .and => 2
  | .bitOr => 3
  | .bitXor => 4
  | .bitAnd | .andNot => 5
  | .eq | .ne => 6
  | .lt | .le | .gt | .ge => 7
  | .shl | .shr => 8
  | .add | .sub => 9
  | .mul | .div | .rem => 10

def prefixStrength : Nat := 11

def atomStrength : Nat := 12

/-- Words that are no names in C. -/
def keywords : List (List Char) :=
  ["auto", "break", "case", "char", "const", "continue", "default", "do", "double", "else", "enum",
    "extern", "float", "for", "goto", "if", "inline", "int", "long", "register", "restrict",
    "return", "short", "signed", "sizeof", "static", "struct", "switch", "typedef", "union",
    "unsigned", "void", "volatile", "while", "_Alignas", "_Alignof", "_Atomic", "_Bool", "_Complex",
    "_Generic", "_Imaginary", "_Noreturn", "_Static_assert", "_Thread_local"].map String.toList

theorem toList_mem_map {text : String} {texts : List String} :
    text.toList ∈ texts.map String.toList ↔ text ∈ texts :=
  List.mem_map_of_injective fun _ _ => String.toList_inj.mp

inductive Expr where
  | name (text : List Char)
  | number (text : List Char)
  | paren (x : Expr)
  | unary (op : PrefixOp) (x : Expr)
  | binary (op : BinaryOp) (x y : Expr)
deriving DecidableEq, Repr, Inhabited

namespace Expr

/-- How tightly the outermost operator binds. -/
def level : Expr → Nat
  | name _ | number _ | paren _ => atomStrength
  | unary _ _ => prefixStrength
  | binary op _ _ => strength op

def tokens : Expr → List Token
  | name text => [.name text]
  | number text => [.number text]
  | paren x => .mark ['('] :: x.tokens ++ [.mark [')']]
  | unary op x => .mark op.mark :: x.tokens
  | binary op x y => x.tokens ++ .mark op.text.toList :: y.tokens

/-- Whether C's grammar derives the tree as it stands. -/
def shaped : Expr → Bool
  | name text => !keywords.contains text
  | number _ => true
  | paren x => x.shaped
  | unary _ x => x.shaped && prefixStrength ≤ x.level
  | binary op x y =>
    binaryOps.contains op && x.shaped && y.shaped && strength op ≤ x.level && strength op < y.level

end Expr

/-! ## Operators by their marks -/

theorem prefixOp?_mark (op : PrefixOp) : prefixOp? op.mark = some op := by
  cases op <;> rfl

theorem mark_of_prefixOp? {m : List Char} {op : PrefixOp} (known : prefixOp? m = some op) :
    op.mark = m := by
  have found := List.find?_some known
  exact beq_iff_eq.mp found

theorem binaryOp?_text {op : BinaryOp} (known : op ∈ binaryOps) :
    binaryOp? op.text.toList = some op := by
  revert op
  decide

theorem of_binaryOp? {m : List Char} {op : BinaryOp} (known : binaryOp? m = some op) :
    op ∈ binaryOps ∧ op.text.toList = m := by
  have found := List.find?_some known
  exact ⟨List.mem_of_find?_eq_some known, beq_iff_eq.mp found⟩

theorem strength_pos (op : BinaryOp) : 0 < strength op := by cases op <;> decide

theorem strength_lt (op : BinaryOp) : strength op < prefixStrength := by cases op <;> decide

theorem binaryOp?_paren : binaryOp? ['('] = none ∧ binaryOp? [')'] = none := by decide

theorem text_ne_closing {op : BinaryOp} (known : op ∈ binaryOps) : op.text.toList ≠ [')'] := by
  revert op
  decide

theorem mark_ne_opening (op : PrefixOp) : op.mark ≠ ['('] := by cases op <;> decide

/-! ## Reading -/

/-- What waits for an operand: an open parenthesis, a prefix operator, or a binary operator with
its left operand. -/
inductive Frame where
  | group
  | unary (op : PrefixOp)
  | left (x : Expr) (op : BinaryOp)
deriving Repr, Inhabited

/-- Give `x` to the operators that bind it at least as tightly as `level`. -/
def settle (level : Nat) : List Frame → Expr → List Frame × Expr
  | .unary op :: frames, x => settle level frames (.unary op x)
  | .left y op :: frames, x =>
    if level ≤ strength op then settle level frames (.binary op y x) else (.left y op :: frames, x)
  | frames, x => (frames, x)

/-- Read on with the frames that wait, the innermost first, and the operand just read, if any. -/
def readFrom : List Frame → Option Expr → List Token → Option Expr
  | frames, none, .name text :: rest =>
    if keywords.contains text then none else readFrom frames (some (.name text)) rest
  | frames, none, .number text :: rest => readFrom frames (some (.number text)) rest
  | frames, none, .mark m :: rest =>
    if m = ['('] then readFrom (.group :: frames) none rest
    else match prefixOp? m with
      | some op => readFrom (.unary op :: frames) none rest
      | none => none
  | frames, some x, .mark m :: rest =>
    if m = [')'] then
      match settle 0 frames x with
      | (.group :: frames, x) => readFrom frames (some (.paren x)) rest
      | _ => none
    else match binaryOp? m with
      | some op =>
        readFrom (.left (settle (strength op) frames x).2 op :: (settle (strength op) frames x).1)
          none rest
      | none => none
  | frames, some x, [] =>
    match settle 0 frames x with
    | ([], x) => some x
    | _ => none
  | _, _, _ => none

/-- The expression that a whole run of tokens is. -/
def readExpr? (tokens : List Token) : Option Expr := readFrom [] none tokens

/-! ## Every shaped tree is read -/

/-- The innermost frame does not reach into an operand of this level. -/
def Admits (level : Nat) : List Frame → Prop
  | .unary _ :: _ => prefixStrength ≤ level
  | .left _ op :: _ => strength op < level
  | _ => True

/-- The operator that follows, if one does, leaves an operand of this level whole. -/
def Follows (level : Nat) : List Token → Prop
  | .mark m :: _ => ∀ op, binaryOp? m = some op → strength op ≤ level
  | _ => True

theorem Admits.mono {level level' : Nat} {frames : List Frame} (admits : Admits level frames)
    (le : level ≤ level') : Admits level' frames := by
  match frames with
  | [] => trivial
  | .group :: _ => trivial
  | .unary _ :: _ => exact Nat.le_trans admits le
  | .left _ _ :: _ => exact Nat.lt_of_lt_of_le admits le

theorem Follows.mono {level level' : Nat} {rest : List Token} (follows : Follows level rest)
    (le : level ≤ level') : Follows level' rest := by
  match rest with
  | [] => trivial
  | .name _ :: _ => trivial
  | .number _ :: _ => trivial
  | .quoted _ :: _ => trivial
  | .mark _ :: _ => exact fun op known => Nat.le_trans (follows op known) le

theorem settle_admitted {op : BinaryOp} {frames : List Frame} (admits : Admits (strength op) frames)
    (x : Expr) : settle (strength op) frames x = (frames, x) := by
  match frames with
  | [] => rfl
  | .group :: _ => rfl
  | .unary _ :: _ => exact absurd admits (Nat.not_le.mpr (strength_lt op))
  | .left _ other :: _ => exact if_neg (Nat.not_le.mpr admits)

/-- A prefix operator takes its operand, whatever follows. -/
theorem readFrom_unary (op : PrefixOp) (frames : List Frame) (x : Expr) (rest : List Token) :
    readFrom (.unary op :: frames) (some x) rest = readFrom frames (some (.unary op x)) rest := by
  match rest with
  | [] => simp only [readFrom, settle]
  | .name _ :: _ => rfl
  | .number _ :: _ => rfl
  | .quoted _ :: _ => rfl
  | .mark _ :: _ => simp only [readFrom, settle]

/-- A binary operator takes its right operand unless a tighter one follows. -/
theorem readFrom_left {op : BinaryOp} {rest : List Token} (follows : Follows (strength op) rest)
    (frames : List Frame) (x y : Expr) :
    readFrom (.left x op :: frames) (some y) rest = readFrom frames (some (.binary op x y)) rest := by
  have whole (level : Nat) (le : level ≤ strength op) :
      settle level (.left x op :: frames) y = settle level frames (.binary op x y) := if_pos le
  match rest with
  | [] => simp only [readFrom, whole 0 (Nat.zero_le _)]
  | .name _ :: _ => rfl
  | .number _ :: _ => rfl
  | .quoted _ :: _ => rfl
  | .mark m :: _ =>
      simp only [readFrom]
      split
      · rw [whole 0 (Nat.zero_le _)]
      · split
        · rename_i next known
          rw [whole _ (follows next known)]
        · rfl

/-- The tokens of a shaped tree are read as that tree. -/
theorem readFrom_tokens (t : Expr) (shaped : t.shaped = true) (frames : List Frame)
    (rest : List Token) (admits : Admits t.level frames) (follows : Follows t.level rest) :
    readFrom frames none (t.tokens ++ rest) = readFrom frames (some t) rest := by
  induction t generalizing frames rest with
  | name text =>
      have plain : keywords.contains text = false := by simpa [Expr.shaped] using shaped
      show readFrom frames none (.name text :: rest) = _
      rw [readFrom, plain]
      rfl
  | number text => rfl
  | paren x ih =>
      have inner := ih (by simpa [Expr.shaped] using shaped) (.group :: frames)
        (.mark [')'] :: rest) trivial
        (fun op known => by rw [binaryOp?_paren.2] at known; cases known)
      show readFrom frames none (.mark ['('] :: (x.tokens ++ [Token.mark [')']] ++ rest)) = _
      rw [List.append_assoc, readFrom, if_pos rfl]
      refine inner.trans ?_
      rw [readFrom, if_pos rfl]
      rfl
  | unary op x ih =>
      simp only [Expr.shaped, Bool.and_eq_true, decide_eq_true_eq] at shaped
      have inner := ih shaped.1 (.unary op :: frames) rest shaped.2 (follows.mono shaped.2)
      show readFrom frames none (.mark op.mark :: (x.tokens ++ rest)) = _
      rw [readFrom, if_neg (mark_ne_opening op), prefixOp?_mark]
      exact inner.trans (readFrom_unary op frames x rest)
  | binary op x y ihx ihy =>
      simp only [Expr.shaped, Bool.and_eq_true, decide_eq_true_eq, List.contains_iff_mem] at shaped
      obtain ⟨⟨⟨⟨known, shapedX⟩, shapedY⟩, left⟩, right⟩ := shaped
      have first := ihx shapedX frames (.mark op.text.toList :: (y.tokens ++ rest))
        (admits.mono left)
        (fun next found => by
          rw [binaryOp?_text known] at found
          cases found
          exact left)
      have second := ihy shapedY (.left x op :: frames) rest right
        (follows.mono (Nat.le_of_lt right))
      have split : (Expr.binary op x y).tokens ++ rest =
          x.tokens ++ .mark op.text.toList :: (y.tokens ++ rest) := by simp [Expr.tokens]
      rw [split, first, readFrom, if_neg (text_ne_closing known), binaryOp?_text known]
      dsimp only
      rw [settle_admitted admits]
      exact second.trans (readFrom_left follows frames x y)

/-! ## Nothing else is read -/

/-- The tokens that the frames stand for, the innermost last. -/
def pending : List Frame → List Token
  | [] => []
  | .group :: frames => pending frames ++ [.mark ['(']]
  | .unary op :: frames => pending frames ++ [.mark op.mark]
  | .left x op :: frames => pending frames ++ x.tokens ++ [.mark op.text.toList]

/-- The frames can take an operand of this level, and what comes of it fits in its turn. -/
def Fits : Nat → List Frame → Prop
  | _, [] => True
  | _, .group :: frames => Fits atomStrength frames
  | level, .unary _ :: frames => prefixStrength ≤ level ∧ Fits prefixStrength frames
  | level, .left x op :: frames =>
    strength op < level ∧ op ∈ binaryOps ∧ x.shaped = true ∧ strength op ≤ x.level ∧
      Fits (strength op) frames

theorem Fits.mono {level level' : Nat} {frames : List Frame} (fits : Fits level frames)
    (le : level ≤ level') : Fits level' frames := by
  match frames with
  | [] => trivial
  | .group :: _ => exact fits
  | .unary _ :: _ => exact ⟨Nat.le_trans fits.1 le, fits.2⟩
  | .left _ _ :: _ => exact ⟨Nat.lt_of_lt_of_le fits.1 le, fits.2⟩

/-- What settling an operand keeps. -/
structure Settled (level : Nat) (frames : List Frame) (x : Expr) (after : List Frame × Expr) :
    Prop where
  shaped : after.2.shaped = true
  tokens : pending after.1 ++ after.2.tokens = pending frames ++ x.tokens
  bound : level ≤ after.2.level
  fits : Fits level after.1

theorem settle_spec {level : Nat} {frames : List Frame} {x : Expr} (shaped : x.shaped = true)
    (fits : Fits x.level frames) (le : level ≤ x.level) (below : level ≤ prefixStrength) :
    Settled level frames x (settle level frames x) := by
  induction frames generalizing x with
  | nil => exact ⟨shaped, rfl, le, trivial⟩
  | cons frame frames ih =>
      cases frame with
      | group => exact ⟨shaped, rfl, le, fits⟩
      | unary op =>
          have taken := ih (x := .unary op x) (by simp [Expr.shaped, shaped, fits.1]) fits.2 below
          have tokens : pending frames ++ (Expr.unary op x).tokens =
              pending (.unary op :: frames) ++ x.tokens := by simp [pending, Expr.tokens]
          exact ⟨taken.shaped, taken.tokens.trans tokens, taken.bound, taken.fits⟩
      | left y op =>
          obtain ⟨right, known, shapedY, left, outer⟩ := fits
          by_cases reaches : level ≤ strength op
          · have taken := ih (x := .binary op y x)
              (by simp [Expr.shaped, shaped, shapedY, known, left, right]) outer reaches
            simp only [settle, if_pos reaches]
            exact ⟨taken.shaped, by simpa [pending, Expr.tokens] using taken.tokens, taken.bound,
              taken.fits⟩
          · simp only [settle, if_neg reaches]
            exact ⟨shaped, rfl, le, Nat.lt_of_not_le reaches, known, shapedY, left, outer⟩

/-- What is read is shaped, and has the tokens it was read from. -/
def Reads (t : Expr) (tokens : List Token) : Prop := t.shaped = true ∧ t.tokens = tokens

theorem readFrom_sound (rest : List Token) :
    (∀ frames t, Fits prefixStrength frames → readFrom frames none rest = some t →
      Reads t (pending frames ++ rest)) ∧
    (∀ frames x t, x.shaped = true → x.level = atomStrength → Fits atomStrength frames →
      readFrom frames (some x) rest = some t → Reads t (pending frames ++ x.tokens ++ rest)) := by
  induction rest with
  | nil =>
      refine ⟨fun frames t _ read => by simp [readFrom] at read, ?_⟩
      intro frames x t shaped atom fits read
      have settled := settle_spec shaped (atom ▸ fits) (Nat.zero_le x.level) (Nat.zero_le _)
      simp only [readFrom] at read
      split at read
      · rename_i y settles
        rw [settles] at settled
        cases read
        exact ⟨settled.shaped, by simpa [pending] using settled.tokens⟩
      · cases read
  | cons token rest ih =>
      constructor
      · intro frames t fits read
        have fitsAtom : Fits atomStrength frames := fits.mono (by decide)
        cases token with
        | name text =>
            simp only [readFrom] at read
            split at read
            · cases read
            · rename_i plain
              simpa [Expr.tokens] using
                ih.2 frames (.name text) t (by simpa [Expr.shaped] using plain) rfl fitsAtom read
        | number text =>
            simpa [Expr.tokens] using ih.2 frames (.number text) t rfl rfl fitsAtom read
        | quoted text => simp [readFrom] at read
        | mark m =>
            simp only [readFrom] at read
            split at read
            · rename_i opening
              subst opening
              simpa [pending] using ih.1 (.group :: frames) t fitsAtom read
            · split at read
              · rename_i op known
                obtain rfl := mark_of_prefixOp? known
                simpa [pending] using ih.1 (.unary op :: frames) t ⟨Nat.le_refl _, fits⟩ read
              · cases read
      · intro frames x t shaped atom fits read
        cases token with
        | name text => simp [readFrom] at read
        | number text => simp [readFrom] at read
        | quoted text => simp [readFrom] at read
        | mark m =>
            simp only [readFrom] at read
            split at read
            · rename_i closing
              subst closing
              have settled :=
                settle_spec shaped (atom ▸ fits) (Nat.zero_le x.level) (Nat.zero_le _)
              split at read
              · rename_i outer y settles
                rw [settles] at settled
                have whole := ih.2 outer (.paren y) t settled.shaped rfl settled.fits read
                have tokens := settled.tokens
                simp only [pending] at tokens
                simpa [Reads, Expr.tokens, ← tokens] using whole
              · cases read
            · split at read
              · rename_i op known
                obtain ⟨isOp, rfl⟩ := of_binaryOp? known
                have below : strength op ≤ x.level := by
                  rw [atom]
                  exact Nat.le_of_lt (Nat.lt_trans (strength_lt op) (by decide))
                have settled := settle_spec shaped (atom ▸ fits) below (Nat.le_of_lt (strength_lt op))
                have fitsLeft : Fits prefixStrength
                    (.left (settle (strength op) frames x).2 op :: (settle (strength op) frames x).1) :=
                  ⟨strength_lt op, isOp, settled.shaped, settled.bound, settled.fits⟩
                have whole := ih.1 _ t fitsLeft read
                simpa [Reads, pending, ← settled.tokens] using whole
              · cases read

/-- Tokens are read as a tree exactly if C's grammar derives it from them; there is no other
reading. -/
theorem readExpr?_eq_some_iff {tokens : List Token} {t : Expr} :
    readExpr? tokens = some t ↔ Reads t tokens := by
  constructor
  · intro read
    simpa [pending] using (readFrom_sound tokens).1 [] t trivial read
  · rintro ⟨shaped, rfl⟩
    have whole := readFrom_tokens t shaped [] [] trivial trivial
    rw [List.append_nil] at whole
    exact whole

example : readExpr? (lex "x & 1 == 0".toList) =
    some (.binary .bitAnd (.name ['x']) (.binary .eq (.number ['1']) (.number ['0']))) := by
  decide +kernel

end Retarget.C
