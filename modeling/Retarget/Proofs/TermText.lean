/-
# Proofs.TermText -- the text of a vector term is read back as the term

In the text of a term every operation is the call of an intrinsic, and loads have gone into
registers.  A reader that knows the intrinsics of a profile takes such a text apart again
(`Profile.readToken`): a name that ends like a register is a load, the name of an intrinsic opens
its operands, and the predicate before them is passed over.

Intrinsics have different names and none is named like a register (`Profile.readable_of_find?`), and
names and literals are each one token of C.  So the reader gets the term back that was printed, its
operands in their order and its nesting as it was (`Profile.readTerm?_termText`).  Only a scalar
whose name is a keyword of C and a raw string are no operands.
-/
import Retarget.Proofs.CStatement
import Retarget.Proofs.LiteralToken
import Retarget.Proofs.PrintedExpression
import Retarget.Proofs.TermForm

namespace Retarget

open Retarget.Source (Node)
open Retarget.C (Token EndsNumber EndsWord lex openParen closeParen comma)

set_option autoImplicit false
set_option linter.dupNamespace false

/-! ## Names -/

def VecOp.all : List VecOp := [.add, .sub, .mul, .div]

theorem VecOp.mem_all (op : VecOp) : op ∈ VecOp.all := by cases op <;> decide

/-- The array of a register, by the name of the register. -/
def register? (name : List Char) : Option String :=
  if "_vec".toList.isSuffixOf name then some (String.ofList (name.take (name.length - 4))) else none

namespace Profile

variable (prof : Profile)

/-- The operation of an intrinsic, by its name. -/
def operation? (fn : List Char) : Option VecOp :=
  VecOp.all.find? fun op => prof.arithmeticFn op != "" && (prof.arithmeticFn op).toList == fn

/-- Intrinsics are known by their names, and none is named like a register. -/
structure Readable : Prop where
  broadcast : isIdentifier prof.dupFn = true ∧ register? prof.dupFn.toList = none
  minus : prof.subFn ≠ ""
  arithmetic : ∀ op, prof.arithmeticFn op ≠ "" →
    isIdentifier (prof.arithmeticFn op) = true ∧ register? (prof.arithmeticFn op).toList = none ∧
      (prof.arithmeticFn op).toList ≠ prof.dupFn.toList ∧
      prof.operation? (prof.arithmeticFn op).toList = some op

/-- The characters of a text of which each is one byte. -/
def byteChars (s : String) : List Char :=
  s.toByteArray.data.toList.map fun b => Char.ofNat b.toNat

/-- An identifier of one byte a character that is not named like a register. -/
def isPlainName (s : String) : Bool :=
  String.ofList (byteChars s) == s && (register? (byteChars s)).isNone &&
    match byteChars s with
    | c :: cs => Text.startsName c && cs.all Text.isNameChar
    | [] => false

theorem isPlainName_spec {s : String} (plain : isPlainName s = true) :
    isIdentifier s = true ∧ register? s.toList = none := by
  obtain ⟨same, word⟩ := Bool.and_eq_true_iff.mp plain
  obtain ⟨same, other⟩ := Bool.and_eq_true_iff.mp same
  have chars : s.toList = byteChars s :=
    (congrArg String.toList (beq_iff_eq.mp same)).symm.trans String.toList_ofList
  rw [isIdentifier, chars]
  exact ⟨word, Option.isNone_iff_eq_none.mp other⟩

variable {prof} in
/-- An operation is told by the name of its intrinsic if no other operation has that name. -/
theorem operation?_of_unique {op : VecOp} (given : prof.arithmeticFn op ≠ "")
    (only : ∀ o ∈ VecOp.all, prof.arithmeticFn o = prof.arithmeticFn op → o = op) :
    prof.operation? (prof.arithmeticFn op).toList = some op := by
  cases found : prof.operation? (prof.arithmeticFn op).toList with
  | none =>
      have missed := List.find?_eq_none.mp found op op.mem_all
      exact absurd (Bool.and_eq_true_iff.mpr ⟨bne_iff_ne.mpr given, beq_self_eq_true _⟩) missed
  | some o =>
      have holds := List.find?_some found
      obtain ⟨-, same⟩ := Bool.and_eq_true_iff.mp holds
      rw [only o o.mem_all (String.toList_injective (beq_iff_eq.mp same))]

theorem readable_of_find? {prof : Profile} {target elem : String}
    (found : find? target elem = some prof) : prof.Readable := by
  have names : ∀ q ∈ all, isPlainName q.dupFn = true ∧ q.subFn ≠ "" ∧
      ∀ op ∈ VecOp.all, q.arithmeticFn op ≠ "" → isPlainName (q.arithmeticFn op) = true ∧
        q.arithmeticFn op ≠ q.dupFn ∧
        ∀ o ∈ VecOp.all, q.arithmeticFn o = q.arithmeticFn op → o = op := by
    decide +kernel
  obtain ⟨broadcast, minus, arithmetic⟩ := names prof (List.mem_of_find?_eq_some found)
  refine ⟨isPlainName_spec broadcast, minus, fun op given => ?_⟩
  obtain ⟨plain, apart, only⟩ := arithmetic op op.mem_all given
  obtain ⟨ident, other⟩ := isPlainName_spec plain
  exact ⟨ident, other, fun same => apart (String.toList_injective same),
    operation?_of_unique given only⟩

end Profile

theorem register?_vecName (array : String) :
    register? (LoopPattern.vecName array).toList = some array := by
  have spelled : (LoopPattern.vecName array).toList = array.toList ++ ['_', 'v', 'e', 'c'] := by
    simp [LoopPattern.vecName]
  rw [spelled]
  simp [register?]

/-! ## The tokens of a text -/

theorem lex_identifier {text : String} (ident : isIdentifier text = true) {rest : List Char}
    (ends : EndsWord rest) : lex (text.toList ++ rest) = .name text.toList :: lex rest := by
  obtain ⟨c, cs, spelled, first, letter, word⟩ := identifier_spelled ident
  rw [spelled]
  exact C.lex_name first letter word ends

theorem isIdentifier_vecName {array : String} (ident : isIdentifier array = true) :
    isIdentifier (LoopPattern.vecName array) = true := by
  unfold isIdentifier at ident
  split at ident
  · rename_i c cs spelled
    have whole : (LoopPattern.vecName array).toList = c :: (cs ++ ['_', 'v', 'e', 'c']) := by
      simp [LoopPattern.vecName, spelled]
    simp only [Bool.and_eq_true, List.all_eq_true] at ident
    have tail : ∀ d ∈ ['_', 'v', 'e', 'c'], Text.isNameChar d = true :=
      List.all_eq_true.mp (show ['_', 'v', 'e', 'c'].all Text.isNameChar = true from rfl)
    simp only [isIdentifier, whole, ident.1, Bool.true_and, List.all_append, Bool.and_eq_true,
      List.all_eq_true]
    exact ⟨ident.2, tail⟩
  · cases ident

theorem endsNumber_openParen (rest : List Char) : EndsNumber ('(' :: rest) := by
  rintro c ⟨⟩
  decide

theorem endsNumber_comma (rest : List Char) : EndsNumber (',' :: rest) := by
  rintro c ⟨⟩
  decide

theorem lex_openParen (rest : List Char) : lex ('(' :: rest) = openParen :: lex rest :=
  C.lex_lone rest (by decide)

theorem lex_closeParen (rest : List Char) : lex (')' :: rest) = closeParen :: lex rest :=
  C.lex_lone rest (by decide)

theorem lex_comma (rest : List Char) : lex (',' :: ' ' :: rest) = comma :: lex rest := by
  rw [C.lex_lone _ (by decide), C.lex_space]
  rfl

/-- The predicate stands before the operands of an intrinsic. -/
def predicateTokens (prof : Profile) (pred : String) : List Token :=
  if prof.isPredicated then [.name pred.toList, comma] else []

/-- The text of the predicate before the operands. -/
def predicateText (prof : Profile) (pred : String) : List Char :=
  if prof.isPredicated then pred.toList ++ [',', ' '] else []

theorem lex_predicateText (prof : Profile) {pred : String} (ident : isIdentifier pred = true)
    (rest : List Char) :
    lex (predicateText prof pred ++ rest) = predicateTokens prof pred ++ lex rest := by
  unfold predicateText predicateTokens
  split
  · rw [List.append_assoc]
    exact (lex_identifier ident (endsNumber_comma _).endsWord).trans (congrArg _ (lex_comma rest))
  · rfl

theorem toList_broadcast (prof : Profile) (text : String) :
    (prof.dupFn ++ "(" ++ text ++ ")").toList =
      prof.dupFn.toList ++ '(' :: (text.toList ++ [')']) := by
  simp

open LoopPattern (termText callText) in
theorem toList_arith (prof : Profile) (pred : String) (op : VecOp) (x y : VecTerm) :
    (termText prof pred (.arith op x y)).toList =
      (prof.arithmeticFn op).toList ++ '(' :: (predicateText prof pred ++
        ((termText prof pred x).toList ++ ',' :: ' ' ::
          ((termText prof pred y).toList ++ [')']))) := by
  by_cases predicated : prof.isPredicated = true <;>
    simp [termText, callText, predicateText, predicated, Text.join, String.intercalate_cons_cons]

/-! ## Reading a term -/

/-- What is broadcast: a scalar, or a literal. -/
def leaf? : Token → Option VecTerm
  | .name text => if C.keywords.contains text then none else some (.scalar (String.ofList text))
  | .number text | .quoted text => some (.literal (String.ofList text))
  | .mark _ => none

theorem leaf?_literalToken (text : String) : leaf? (literalToken text) = some (.literal text) := by
  unfold literalToken
  split <;> rw [leaf?, String.ofList_toList]

/-- An operation whose operands are not all read. -/
inductive Pending where
  | left (op : VecOp)
  | right (op : VecOp) (x : VecTerm)
deriving Repr, DecidableEq

/-- A term or a leaf is to be read, or a term has been. -/
inductive Goal where
  | term
  | leaf
  | read (x : VecTerm)
deriving Repr, DecidableEq

/-- Where a reader stands: some tokens have to come first, and the innermost operation is the first
that waits. -/
structure Reader where
  /-- The parenthesis and the predicate of a call, or the parenthesis that closes a broadcast. -/
  expected : List Token
  goal : Goal
  waiting : List Pending
deriving Repr, DecidableEq

namespace Profile

variable (prof : Profile) (pred : String)

def readToken : Reader → Token → Option Reader
  | ⟨first :: more, goal, waiting⟩, token =>
    if token = first then some ⟨more, goal, waiting⟩ else none
  | ⟨[], .term, waiting⟩, .name text =>
    match register? text with
    | some array => some ⟨[], .read (.load array), waiting⟩
    | none =>
      if text = prof.dupFn.toList then some ⟨[openParen], .leaf, waiting⟩
      else (prof.operation? text).map fun op =>
        ⟨openParen :: predicateTokens prof pred, .term, .left op :: waiting⟩
  | ⟨[], .leaf, waiting⟩, token => (leaf? token).map fun x => ⟨[closeParen], .read x, waiting⟩
  | ⟨[], .read x, .left op :: waiting⟩, token =>
    if token = comma then some ⟨[], .term, .right op x :: waiting⟩ else none
  | ⟨[], .read y, .right op x :: waiting⟩, token =>
    if token = closeParen then some ⟨[], .read (.arith op x y), waiting⟩ else none
  | _, _ => none

def readTokens (reader : Reader) (tokens : List Token) : Option Reader :=
  tokens.foldlM (prof.readToken pred) reader

/-- The term that a whole text is. -/
def readTerm? (text : String) : Option VecTerm :=
  match prof.readTokens pred ⟨[], .term, []⟩ (lex text.toList) with
  | some ⟨[], .read x, []⟩ => some x
  | _ => none

end Profile

/-! ## Terms that can be read -/

namespace VecTerm

/-- The target has an instruction for every operation. -/
def Supported (prof : Profile) : VecTerm → Prop
  | load _ | scalar _ | literal _ => True
  | arith op x y => prof.arithmeticFn op ≠ "" ∧ x.Supported prof ∧ y.Supported prof

/-- Names and literals are spelled as the kernel language spells them. -/
def Written : VecTerm → Prop
  | load array => isIdentifier array = true
  | scalar x => isIdentifier x = true
  | literal text => IsLiteral text
  | arith _ x y => x.Written ∧ y.Written

/-- No scalar is a keyword of C, and no literal is a raw string. -/
def isReadable : VecTerm → Bool
  | load _ => true
  | scalar x => !C.keywords.contains x.toList
  | literal text => !isRaw text
  | arith _ x y => x.isReadable && y.isReadable

end VecTerm

/-! ## Reading a text -/

namespace Profile

variable {prof : Profile} {pred : String} {goal : Goal} {waiting : List Pending}

theorem readTokens_cons (reader : Reader) (token : Token) (rest : List Token) :
    prof.readTokens pred reader (token :: rest) =
      (prof.readToken pred reader token).bind fun reader => prof.readTokens pred reader rest :=
  List.foldlM_cons ..

theorem readTokens_expected (tokens rest : List Token) :
    prof.readTokens pred ⟨tokens, goal, waiting⟩ (tokens ++ rest) =
      prof.readTokens pred ⟨[], goal, waiting⟩ rest := by
  induction tokens with
  | nil => rfl
  | cons token tokens ih =>
      rw [List.cons_append, readTokens_cons, readToken, if_pos rfl]
      exact ih

/-- A broadcast is read if what is broadcast is. -/
theorem readTokens_broadcast (readable : prof.Readable) (token : Token) (rest : List Token) :
    prof.readTokens pred ⟨[], .term, waiting⟩
        (.name prof.dupFn.toList :: openParen :: token :: rest) =
      (leaf? token).bind fun x => prof.readTokens pred ⟨[closeParen], .read x, waiting⟩ rest := by
  rw [readTokens_cons, readToken, readable.broadcast.2]
  simp only [if_true, Option.bind_some]
  rw [readTokens_cons, readToken, if_pos rfl, Option.bind_some, readTokens_cons, readToken,
    Option.bind_map]
  rfl

theorem readTokens_arith (readable : prof.Readable) {op : VecOp} (some : prof.arithmeticFn op ≠ "")
    (rest : List Token) :
    prof.readTokens pred ⟨[], .term, waiting⟩ (.name (prof.arithmeticFn op).toList :: openParen ::
        (predicateTokens prof pred ++ rest)) =
      prof.readTokens pred ⟨[], .term, .left op :: waiting⟩ rest := by
  obtain ⟨-, other, apart, known⟩ := readable.arithmetic op some
  rw [readTokens_cons, readToken, other]
  simp only [if_neg apart, known, Option.map_some, Option.bind_some]
  rw [← List.cons_append, readTokens_expected]

/-- The text of a broadcast is read up to its closing parenthesis. -/
theorem readTokens_broadcastText (readable : prof.Readable) (waiting : List Pending)
    {text : String} {rest : List Char} {token : Token} {more : List Token}
    (starts : lex (text.toList ++ ')' :: rest) = token :: more) :
    prof.readTokens pred ⟨[], .term, waiting⟩
        (lex ((prof.dupFn ++ "(" ++ text ++ ")").toList ++ rest)) =
      (leaf? token).bind fun x => prof.readTokens pred ⟨[closeParen], .read x, waiting⟩ more := by
  rw [toList_broadcast, List.append_assoc, List.cons_append,
    lex_identifier readable.broadcast.1 (endsNumber_openParen _).endsWord, lex_openParen,
    List.append_assoc, List.cons_append, List.nil_append, starts, readTokens_broadcast readable]

theorem readTokens_closed (waiting : List Pending) (rest : List Char) (x : VecTerm) :
    prof.readTokens pred ⟨[closeParen], .read x, waiting⟩ (lex (')' :: rest)) =
      prof.readTokens pred ⟨[], .read x, waiting⟩ (lex rest) := by
  rw [lex_closeParen]
  exact readTokens_expected [closeParen] _

open LoopPattern (termText) in
/-- The text of a term is read as the term, whatever follows. -/
theorem readTokens_termText (readable : prof.Readable) (ident : isIdentifier pred = true)
    {t : VecTerm} (supported : t.Supported prof) (written : t.Written) {rest : List Char}
    (ends : EndsNumber rest) :
    prof.readTokens pred ⟨[], .term, waiting⟩ (lex ((termText prof pred t).toList ++ rest)) =
      if t.isReadable then prof.readTokens pred ⟨[], .read t, waiting⟩ (lex rest) else none := by
  induction t generalizing rest waiting with
  | load array =>
      rw [termText, lex_identifier (isIdentifier_vecName written) ends.endsWord, readTokens_cons,
        readToken, register?_vecName]
      rfl
  | scalar x =>
      rw [termText, readTokens_broadcastText readable waiting
        (lex_identifier written (endsNumber_closing _).endsWord)]
      cases keyword : C.keywords.contains x.toList with
      | true =>
          rw [leaf?, keyword, VecTerm.isReadable, keyword]
          rfl
      | false =>
          rw [leaf?, keyword, VecTerm.isReadable, keyword, String.ofList_toList]
          exact readTokens_closed waiting rest (.scalar x)
  | literal text =>
      rw [termText]
      cases raw : isRaw text with
      | true =>
          obtain ⟨mark, more, falls⟩ := lex_raw raw (')' :: rest)
          rw [readTokens_broadcastText readable waiting falls]
          simp [leaf?, VecTerm.isReadable, raw]
      | false =>
          rw [readTokens_broadcastText readable waiting
            (lex_literal written raw (endsNumber_closing _)), leaf?_literalToken,
            VecTerm.isReadable, raw]
          exact readTokens_closed waiting rest (.literal text)
  | arith op x y ihx ihy =>
      obtain ⟨some, left, right⟩ := supported
      rw [toList_arith, List.append_assoc, List.cons_append,
        lex_identifier (readable.arithmetic op some).1 (endsNumber_openParen _).endsWord,
        lex_openParen, List.append_assoc, lex_predicateText prof ident,
        readTokens_arith readable some, List.append_assoc, List.cons_append, List.cons_append,
        ihx left written.1 (endsNumber_comma _)]
      cases readableX : x.isReadable with
      | false => simp [VecTerm.isReadable, readableX]
      | true =>
          rw [if_pos rfl, lex_comma, readTokens_cons, readToken, if_pos rfl, Option.bind_some,
            List.append_assoc, List.cons_append, List.nil_append,
            ihy right written.2 (endsNumber_closing _), lex_closeParen, readTokens_cons, readToken,
            if_pos rfl, Option.bind_some, VecTerm.isReadable, readableX, Bool.true_and]

/-- The text of a term is read back as the term exactly if it is readable. -/
theorem readTerm?_termText (readable : prof.Readable) (ident : isIdentifier pred = true)
    {t : VecTerm} (supported : t.Supported prof) (written : t.Written) :
    prof.readTerm? pred (LoopPattern.termText prof pred t) =
      if t.isReadable then some t else none := by
  have whole : prof.readTokens pred ⟨[], .term, []⟩
      (lex ((LoopPattern.termText prof pred t).toList ++ [])) = _ :=
    readTokens_termText readable ident supported written (by simp [EndsNumber])
  rw [List.append_nil] at whole
  rw [readTerm?, whole]
  cases t.isReadable <;> rfl

end Profile

/-! ## The term of an expression -/

/-- Names and literals are spelled as the kernel language spells them. -/
def Source.Node.Written (n : Node) : Prop :=
  ∀ x ∈ n.preorder, match x with
    | .name _ text => isIdentifier text = true
    | .literal _ _ text => IsLiteral text
    | _ => True

theorem isLiteral_zero : IsLiteral "0" := ⟨'0', [], .int, ['0'], [], by decide⟩

namespace LoopPattern

variable {p : LoopPattern} {u : SourceUnit} {prof : Profile}

theorem term_supported (readable : prof.Readable) {n : Node} {t : VecTerm}
    (ok : p.term u prof n = .ok t) : t.Supported prof := by
  fun_induction LoopPattern.term p u prof n generalizing t with
  | case1 m x ih => exact ih ok
  | case2 => cases ok; trivial
  | case3 => cases ok
  | case4 => cases ok
  | case5 => cases ok; trivial
  | case6 => cases ok; trivial
  | case7 m x ih =>
      obtain ⟨s, inner, rfl⟩ := term_minus m ok
      exact ⟨readable.minus, trivial, ih inner⟩
  | case8 m op x y ihx ihy =>
      obtain ⟨o, l, r, -, some, left, right, rfl⟩ := term_binary m ok
      exact ⟨some, ihx left, ihy right⟩
  | case9 => cases ok

end LoopPattern

theorem Source.Node.Written.child {n c : Node} (written : n.Written) (child : c ∈ n.children) :
    c.Written := fun x below => written x (Node.child_preorder child below)

theorem LaneForm.written {iterator : String} {n : Node} {t : VecTerm} (form : LaneForm iterator n t)
    (written : n.Written) : t.Written := by
  induction form with
  | paren m inner ih => exact ih (written.child (by simp [Node.children]))
  | load m m₁ m₂ array =>
      have name : (Node.name m₁ array).Written := written.child (by simp [Node.children])
      exact name _ (Node.self_mem_preorder _)
  | scalar m x => exact written _ (Node.self_mem_preorder _)
  | literal m kind text => exact written _ (Node.self_mem_preorder _)
  | minus m inner ih => exact ⟨isLiteral_zero, ih (written.child (by simp [Node.children]))⟩
  | binary m known left right ihx ihy =>
      exact ⟨ihx (written.child (by simp [Node.children])),
        ihy (written.child (by simp [Node.children]))⟩

/-- The text of an expression in vectors is read back as its term exactly if that is readable. -/
theorem LoopPattern.readTerm?_term {p : LoopPattern} {u : SourceUnit} {prof : Profile}
    {pred : String} (readable : prof.Readable) (ident : isIdentifier pred = true) {n : Node}
    {t : VecTerm} (ok : p.term u prof n = .ok t) (written : n.Written) :
    prof.readTerm? pred (termText prof pred t) = some t ↔ t.isReadable = true := by
  rw [Profile.readTerm?_termText readable ident (term_supported readable ok)
    ((laneForm_term ok).written written)]
  cases t.isReadable <;> simp

end Retarget
