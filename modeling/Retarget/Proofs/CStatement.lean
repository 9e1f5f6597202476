/-
# Proofs.CStatement -- how C reads statements

Blocks, conditionals, loops, switches, labels and the two branches that need no label; everything
else up to its semicolon is a run of tokens, as everything between the parentheses of a head is.
What a run or a head means is not looked at here, only where it ends: `upTo` passes over brackets
that match.  C knows no clauses: the labels of a switch stand among the statements of its body, and
an `else` belongs to the conditional right before it.

`readStmt` follows the grammar with one unit of fuel for each token at least.  `readBlock?_tokens` says
that a block of statements whose parts end where they should is read back from its own tokens.
-/
import Retarget.Proofs.CToken

namespace Retarget.C

set_option autoImplicit false
set_option linter.dupNamespace false

/-! ## Tokens that carry structure -/

def semicolon : Token := .mark [';']
def colon : Token := .mark [':']
def comma : Token := .mark [',']
def openParen : Token := .mark ['(']
def closeParen : Token := .mark [')']
def openBrace : Token := .mark ['{']
def closeBrace : Token := .mark ['}']

def word (text : String) : Token := .name text.toList

def opens (t : Token) : Bool :=
  [openParen, openBrace, .mark ['['], .mark ['<', ':'], .mark ['<', '%']].contains t

def closes (t : Token) : Bool :=
  [closeParen, closeBrace, .mark [']'], .mark [':', '>'], .mark ['%', '>']].contains t

/-- How many brackets are open after a token; none if it closes one that was never opened. -/
def depthAfter? (depth : Nat) (t : Token) : Option Nat :=
  if opens t then some (depth + 1)
  else if closes t then (if depth == 0 then none else some (depth - 1))
  else some depth

/-- The tokens before the next `stop` outside of brackets, and those after it. -/
def upTo (stop : Token) : Nat → List Token → Option (List Token × List Token)
  | _, [] => none
  | depth, t :: ts =>
    if depth == 0 && t == stop then some ([], ts)
    else match depthAfter? depth t with
      | none => none
      | some depth => (upTo stop depth ts).map fun (before, after) => (t :: before, after)

/-- The brackets of the tokens match, and `stop` stands between brackets only. -/
def contained (stop : Token) : Nat → List Token → Bool
  | depth, [] => depth == 0
  | depth, t :: ts =>
    !(depth == 0 && t == stop) && match depthAfter? depth t with
      | none => false
      | some depth => contained stop depth ts

theorem upTo_contained {stop : Token} {depth : Nat} {ts : List Token} (rest : List Token)
    (inside : contained stop depth ts = true) :
    upTo stop depth (ts ++ stop :: rest) = some (ts, rest) := by
  induction ts generalizing depth with
  | nil =>
      have outside : depth = 0 := by simpa [contained] using inside
      simp [upTo, outside]
  | cons t ts ih =>
      simp only [contained, Bool.and_eq_true, Bool.not_eq_true'] at inside
      obtain ⟨other, next⟩ := inside
      rw [List.cons_append, upTo, other]
      cases after : depthAfter? depth t with
      | none => simp [after] at next
      | some depth =>
          rw [after] at next
          simp [ih next]

/-! ## Statements -/

inductive Stmt where
  | run (tokens : List Token)
  | exit
  | next
  | label (name : List Char)
  /-- A case label with its value, or the default label. -/
  | caseLabel (value : Option (List Token))
  | block (items : List Stmt)
  | choose (head : List Token) (yes : Stmt) (no : Option Stmt)
  /-- A `for` if `counted`, otherwise a `while`. -/
  | loop (counted : Bool) (head : List Token) (body : Stmt)
  | switch (head : List Token) (body : Stmt)
deriving Inhabited

namespace Stmt

/-- A label is no statement of its own. -/
def isLabel : Stmt → Bool
  | label _ | caseLabel _ => true
  | _ => false

def isBlock : Stmt → Bool
  | block _ => true
  | _ => false

def loopWord (counted : Bool) : Token := if counted then word "for" else word "while"

mutual

def tokens : Stmt → List Token
  | run ts => ts ++ [semicolon]
  | exit => [word "break", semicolon]
  | next => [word "continue", semicolon]
  | label name => [.name name, colon]
  | caseLabel none => [word "default", colon]
  | caseLabel (some value) => word "case" :: (value ++ [colon])
  | block items => openBrace :: (tokensAll items ++ [closeBrace])
  | choose head yes no =>
    word "if" :: openParen :: (head ++ closeParen :: (tokens yes ++ elseTokens no))
  | loop counted head body => loopWord counted :: openParen :: (head ++ closeParen :: tokens body)
  | switch head body => word "switch" :: openParen :: (head ++ closeParen :: tokens body)

def tokensAll : List Stmt → List Token
  | [] => []
  | s :: ss => tokens s ++ tokensAll ss

def elseTokens : Option Stmt → List Token
  | none => []
  | some s => word "else" :: tokens s

end

theorem tokens_run (ts : List Token) : (run ts).tokens = ts ++ [semicolon] := by rw [tokens]

theorem tokensAll_append (ss ss' : List Stmt) : tokensAll (ss ++ ss') = tokensAll ss ++ tokensAll ss' := by
  induction ss with
  | nil => rfl
  | cons s ss ih => rw [List.cons_append, tokensAll, tokensAll, ih, List.append_assoc]

end Stmt

/-! ## Reading -/

/-- What a statement is, told by its first token. -/
inductive Starter where
  | block | exit | next | case | default | test | loop (counted : Bool) | switch | refused | other
deriving DecidableEq, Repr

/-- The words that no run of tokens starts with.  Jumps to labels and loops with their test at the
end are not read. -/
def starters : List (List Char × Starter) :=
  [("break".toList, .exit), ("continue".toList, .next), ("case".toList, .case),
    ("default".toList, .default), ("if".toList, .test), ("while".toList, .loop false),
    ("for".toList, .loop true), ("switch".toList, .switch), ("else".toList, .refused),
    ("do".toList, .refused), ("goto".toList, .refused)]

def starter (t : Token) : Starter :=
  match t with
  | .name text => (starters.lookup text).getD .other
  | t => if t == openBrace then .block else .other

def readHead : List Token → Option (List Token × List Token)
  | t :: ts => if t == openParen then upTo closeParen 0 ts else none
  | [] => none

/-- The tokens after an expected one. -/
def after? (expected : Token) : List Token → Option (List Token)
  | t :: ts => if t == expected then some ts else none
  | [] => none

/-- A label, or a run of tokens up to its semicolon. -/
def readPlain (ts : List Token) : Option (Stmt × List Token) :=
  match ts with
  | .name text :: .mark [':'] :: rest => some (.label text, rest)
  | ts => (upTo semicolon 0 ts).map fun (run, rest) => (.run run, rest)

/-- What may follow a head: a statement without labels. -/
def asBranch (read : Option (Stmt × List Token)) : Option (Stmt × List Token) :=
  read.filter fun (s, _) => !s.isLabel

mutual

def readStmt : Nat → List Token → Option (Stmt × List Token)
  | 0, _ => none
  | _ + 1, [] => none
  | fuel + 1, t :: ts =>
    match starter t with
    | .block => (readItems fuel ts).map fun (items, rest) => (.block items, rest)
    | .exit => (after? semicolon ts).map fun rest => (.exit, rest)
    | .next => (after? semicolon ts).map fun rest => (.next, rest)
    | .case => (upTo colon 0 ts).map fun (value, rest) => (.caseLabel (some value), rest)
    | .default => (after? colon ts).map fun rest => (.caseLabel none, rest)
    | .test => do
      let (head, ts) ← readHead ts
      let (yes, ts) ← asBranch (readStmt fuel ts)
      match after? (word "else") ts with
      | some ts =>
        let (no, ts) ← asBranch (readStmt fuel ts)
        return (.choose head yes (some no), ts)
      | none => return (.choose head yes none, ts)
    | .loop counted => do
      let (head, ts) ← readHead ts
      let (body, ts) ← asBranch (readStmt fuel ts)
      return (.loop counted head body, ts)
    | .switch => do
      let (head, ts) ← readHead ts
      let (body, ts) ← asBranch (readStmt fuel ts)
      return (.switch head body, ts)
    | .refused => none
    | .other => readPlain (t :: ts)

/-- Statements up to the brace that closes them. -/
def readItems : Nat → List Token → Option (List Stmt × List Token)
  | 0, _ => none
  | fuel + 1, ts =>
    match after? closeBrace ts with
    | some rest => some ([], rest)
    | none => do
      let (s, ts) ← readStmt fuel ts
      let (ss, ts) ← readItems fuel ts
      return (s :: ss, ts)

end

theorem readStmt_other {fuel : Nat} {t : Token} (ts : List Token) (other : starter t = .other) :
    readStmt (fuel + 1) (t :: ts) = readPlain (t :: ts) := by
  simp only [readStmt, other]

/-- The statements of the one block that a text consists of. -/
def readBlock? (ts : List Token) : Option (List Stmt) :=
  match readStmt (ts.length + 1) ts with
  | some (.block items, []) => some items
  | _ => none

/-! ## Reading back -/

namespace Stmt

/-- Tokens that start neither a statement of another kind nor a label. -/
def startsRun : List Token → Bool
  | [] => true
  | [t] => starter t == .other
  | t :: u :: _ => starter t == .other && u != colon

mutual

/-- Statements that their tokens say: runs and heads end where they should, and no conditional
takes the `else` of another one. -/
def regular : Stmt → Bool
  | run ts => contained semicolon 0 ts && startsRun ts
  | exit | next => true
  | label name => starter (.name name) == .other
  | caseLabel value => value.all (contained colon 0)
  | block items => regularAll items
  | choose head yes no => contained closeParen 0 head && yes.isBlock && regular yes && regularElse no
  | loop _ head body | switch head body =>
    contained closeParen 0 head && !body.isLabel && regular body

def regularAll : List Stmt → Bool
  | [] => true
  | s :: ss => regular s && regularAll ss

def regularElse : Option Stmt → Bool
  | none => true
  | some s => !s.isLabel && regular s

end

theorem first_token {s : Stmt} (good : s.regular = true) :
    ∃ t ts, s.tokens = t :: ts ∧ t ≠ closeBrace ∧ t ≠ word "else" := by
  cases s with
  | run ts =>
      cases ts with
      | nil => exact ⟨_, _, rfl, by decide, by decide⟩
      | cons t ts =>
          simp only [regular, Bool.and_eq_true] at good
          refine ⟨t, ts ++ [semicolon], rfl, ?_, ?_⟩
          · rintro rfl
            simp [contained, depthAfter?, show opens closeBrace = false by decide,
              show closes closeBrace = true by decide] at good
          · rintro rfl
            cases ts with
            | nil => exact absurd good.2 (by decide)
            | cons u ts => simp [startsRun, show starter (word "else") = .refused by decide] at good
  | exit => exact ⟨_, _, rfl, by decide, by decide⟩
  | next => exact ⟨_, _, rfl, by decide, by decide⟩
  | label name =>
      refine ⟨_, _, rfl, by simp [closeBrace], ?_⟩
      intro isElse
      rw [regular, isElse] at good
      exact absurd good (by decide)
  | caseLabel value => cases value <;> exact ⟨_, _, rfl, by decide, by decide⟩
  | block items => exact ⟨_, _, rfl, by decide, by decide⟩
  | choose head yes no => exact ⟨_, _, rfl, by decide, by decide⟩
  | loop counted head body => cases counted <;> exact ⟨_, _, rfl, by decide, by decide⟩
  | switch head body => exact ⟨_, _, rfl, by decide, by decide⟩

end Stmt

theorem after?_cons_ne {expected t : Token} (ts : List Token) (other : t ≠ expected) :
    after? expected (t :: ts) = none := by
  simp [after?, other]

theorem after?_cons_self (expected : Token) (ts : List Token) :
    after? expected (expected :: ts) = some ts := by
  simp [after?]

theorem readHead_tokens {head : List Token} (rest : List Token)
    (inside : contained closeParen 0 head = true) :
    readHead (openParen :: (head ++ closeParen :: rest)) = some (head, rest) :=
  upTo_contained rest inside

theorem readPlain_run {ts : List Token} (rest : List Token) (inside : contained semicolon 0 ts = true)
    (plain : Stmt.startsRun ts = true) :
    readPlain (ts ++ semicolon :: rest) = some (.run ts, rest) := by
  have whole := upTo_contained rest inside
  unfold readPlain
  split
  case h_1 text rest' same =>
    -- a label would have its colon second
    cases ts with
    | nil => cases same
    | cons t ts =>
        cases ts with
        | nil => cases same
        | cons u ts =>
            obtain ⟨-, second, -⟩ := by simpa using same
            simp [Stmt.startsRun, second, colon] at plain
  case h_2 => rw [whole]; rfl

/-- A run starts with no token that tells another statement. -/
theorem starter_run {ts : List Token} (plain : Stmt.startsRun ts = true) (rest : List Token) :
    ∃ t more, ts ++ semicolon :: rest = t :: more ∧ starter t = .other := by
  match ts, plain with
  | [], _ => exact ⟨_, _, rfl, by decide⟩
  | [t], plain => exact ⟨_, _, rfl, by simpa [Stmt.startsRun] using plain⟩
  | t :: u :: ts, plain =>
      refine ⟨_, _, rfl, ?_⟩
      simp only [Stmt.startsRun, Bool.and_eq_true, beq_iff_eq] at plain
      exact plain.1

theorem asBranch_some {s : Stmt} {rest : List Token} (plain : s.isLabel = false) :
    asBranch (some (s, rest)) = some (s, rest) := by
  simp [asBranch, plain]

theorem isLabel_of_isBlock {s : Stmt} (block : s.isBlock = true) : s.isLabel = false := by
  cases s <;> simp_all [Stmt.isBlock, Stmt.isLabel]

/-- No `else` follows that a conditional at the end of `s` would take. -/
def Free (s : Stmt) (rest : List Token) : Prop := s.isBlock = true ∨ rest.head? ≠ some (word "else")

/-! ### One statement, from what its parts read as -/

section parts

open Stmt

variable {fuel : Nat} {rest : List Token}

theorem readStmt_run {ts : List Token} (inside : contained semicolon 0 ts = true)
    (plain : startsRun ts = true) :
    readStmt (fuel + 1) ((run ts).tokens ++ rest) = some (.run ts, rest) := by
  obtain ⟨t, more, whole, other⟩ := starter_run plain rest
  have read := readPlain_run rest inside plain
  rw [tokens_run, List.append_assoc, List.singleton_append, whole, readStmt_other _ other, ← whole]
  exact read

theorem readStmt_label {name : List Char} (other : starter (.name name) = .other) :
    readStmt (fuel + 1) ((label name).tokens ++ rest) = some (.label name, rest) := by
  simp only [tokens, List.cons_append, List.nil_append, readStmt_other _ other]
  rfl

theorem readStmt_case {value : List Token} (inside : contained colon 0 value = true) :
    readStmt (fuel + 1) ((caseLabel (some value)).tokens ++ rest) =
      some (.caseLabel (some value), rest) := by
  simp only [tokens, List.cons_append, List.append_assoc, List.nil_append, readStmt,
    show starter (word "case") = .case by decide, upTo_contained rest inside]
  rfl

theorem readStmt_block {items : List Stmt}
    (read : readItems fuel (tokensAll items ++ closeBrace :: rest) = some (items, rest)) :
    readStmt (fuel + 1) ((block items).tokens ++ rest) = some (.block items, rest) := by
  simp only [tokens, List.cons_append, List.append_assoc, List.nil_append, readStmt,
    show starter openBrace = .block by decide, read]
  rfl

/-- A conditional without an `else`, where none follows. -/
theorem readStmt_choose {head : List Token} {yes : Stmt}
    (inside : contained closeParen 0 head = true) (braced : yes.isBlock = true)
    (read : readStmt fuel (yes.tokens ++ rest) = some (yes, rest))
    (free : rest.head? ≠ some (word "else")) :
    readStmt (fuel + 1) ((choose head yes none).tokens ++ rest) = some (.choose head yes none, rest) := by
  have notElse : after? (word "else") rest = none := by
    cases rest with
    | nil => rfl
    | cons t rest => exact after?_cons_ne rest (by simpa using free)
  simp only [tokens, elseTokens, List.append_nil, List.cons_append, List.append_assoc, readStmt,
    show starter (word "if") = .test by decide, readHead_tokens _ inside, Option.bind_eq_bind,
    Option.bind_some, read, asBranch_some (isLabel_of_isBlock braced), notElse]
  rfl

theorem readStmt_chooseElse {head : List Token} {yes no : Stmt}
    (inside : contained closeParen 0 head = true) (braced : yes.isBlock = true)
    (plain : no.isLabel = false)
    (readYes : readStmt fuel (yes.tokens ++ (word "else" :: (no.tokens ++ rest))) =
      some (yes, word "else" :: (no.tokens ++ rest)))
    (readNo : readStmt fuel (no.tokens ++ rest) = some (no, rest)) :
    readStmt (fuel + 1) ((choose head yes (some no)).tokens ++ rest) =
      some (.choose head yes (some no), rest) := by
  simp only [tokens, elseTokens, List.cons_append, List.append_assoc, readStmt,
    show starter (word "if") = .test by decide, readHead_tokens _ inside, Option.bind_eq_bind,
    Option.bind_some, readYes, readNo, asBranch_some (isLabel_of_isBlock braced),
    after?_cons_self, asBranch_some plain]
  rfl

theorem readStmt_loop {counted : Bool} {head : List Token} {body : Stmt}
    (inside : contained closeParen 0 head = true) (plain : body.isLabel = false)
    (read : readStmt fuel (body.tokens ++ rest) = some (body, rest)) :
    readStmt (fuel + 1) ((loop counted head body).tokens ++ rest) =
      some (.loop counted head body, rest) := by
  have starts : starter (loopWord counted) = .loop counted := by cases counted <;> decide
  simp only [tokens, List.cons_append, List.append_assoc, readStmt, starts,
    readHead_tokens _ inside, Option.bind_eq_bind, Option.bind_some, read, asBranch_some plain]
  rfl

theorem readStmt_switch {head : List Token} {body : Stmt}
    (inside : contained closeParen 0 head = true) (plain : body.isLabel = false)
    (read : readStmt fuel (body.tokens ++ rest) = some (body, rest)) :
    readStmt (fuel + 1) ((switch head body).tokens ++ rest) = some (.switch head body, rest) := by
  simp only [tokens, List.cons_append, List.append_assoc, readStmt,
    show starter (word "switch") = .switch by decide, readHead_tokens _ inside,
    Option.bind_eq_bind, Option.bind_some, read, asBranch_some plain]
  rfl

theorem readItems_cons {s : Stmt} {ss : List Stmt} (good : s.regular = true)
    (readFirst : readStmt fuel (s.tokens ++ (tokensAll ss ++ closeBrace :: rest)) =
      some (s, tokensAll ss ++ closeBrace :: rest))
    (readRest : readItems fuel (tokensAll ss ++ closeBrace :: rest) = some (ss, rest)) :
    readItems (fuel + 1) (tokensAll (s :: ss) ++ closeBrace :: rest) = some (s :: ss, rest) := by
  obtain ⟨t, ts, starts, notClose, -⟩ := first_token good
  have goesOn : after? closeBrace (s.tokens ++ (tokensAll ss ++ closeBrace :: rest)) = none := by
    rw [starts]
    exact after?_cons_ne _ notClose
  simp only [tokensAll, List.append_assoc, readItems, goesOn, Option.bind_eq_bind,
    Option.bind_some, readFirst, readRest]
  rfl

/-- What follows a statement of a block starts with the next one or with the brace. -/
theorem no_else {ss : List Stmt} (good : regularAll ss = true) :
    (tokensAll ss ++ closeBrace :: rest).head? ≠ some (word "else") := by
  cases ss with
  | nil => simp [tokensAll, closeBrace, word]
  | cons s ss =>
      simp only [regularAll, Bool.and_eq_true] at good
      obtain ⟨t, ts, starts, -, notElse⟩ := first_token good.1
      simp [tokensAll, starts, notElse]

end parts

/-! ### Whole statements -/

open Stmt in
/-- Enough fuel reads a statement and a list of statements back from their tokens. -/
theorem read_all (fuel : Nat) :
    (∀ (s : Stmt) (rest : List Token), s.regular = true → Free s rest → s.tokens.length < fuel →
      readStmt fuel (s.tokens ++ rest) = some (s, rest)) ∧
    ∀ (ss : List Stmt) (rest : List Token), regularAll ss = true →
      (tokensAll ss).length + 1 < fuel →
      readItems fuel (tokensAll ss ++ closeBrace :: rest) = some (ss, rest) := by
  induction fuel with
  | zero =>
      exact ⟨fun s rest good free short => absurd short (by omega),
        fun ss rest good short => absurd short (by omega)⟩
  | succ fuel ih =>
    obtain ⟨stmt, items⟩ := ih
    constructor
    · intro s rest good free short
      cases s with
      | run ts =>
          simp only [regular, Bool.and_eq_true] at good
          exact readStmt_run good.1 good.2
      | exit => rfl
      | next => rfl
      | label name => exact readStmt_label (by simpa [regular] using good)
      | caseLabel value =>
          cases value with
          | none => rfl
          | some value => exact readStmt_case (by simpa [regular] using good)
      | block ss =>
          exact readStmt_block (items ss rest (by simpa [regular] using good)
            (by simp [tokens] at short; omega))
      | choose head yes no =>
          simp only [regular, Bool.and_eq_true] at good
          obtain ⟨⟨⟨inside, braced⟩, goodYes⟩, goodNo⟩ := good
          simp only [tokens, List.length_cons, List.length_append] at short
          have notElse := free.resolve_left (by simp [isBlock])
          cases no with
          | none => exact readStmt_choose inside braced (stmt yes rest goodYes (.inl braced) (by omega)) notElse
          | some no =>
              simp only [regularElse, Bool.and_eq_true, Bool.not_eq_true'] at goodNo
              simp only [elseTokens, List.length_cons] at short
              exact readStmt_chooseElse inside braced goodNo.1
                (stmt yes _ goodYes (.inl braced) (by omega))
                (stmt no rest goodNo.2 (.inr notElse) (by omega))
      | loop counted head body =>
          simp only [regular, Bool.and_eq_true, Bool.not_eq_true'] at good
          simp only [tokens, List.length_cons, List.length_append] at short
          have notElse := free.resolve_left (by simp [isBlock])
          exact readStmt_loop good.1.1 good.1.2 (stmt body rest good.2 (.inr notElse) (by omega))
      | switch head body =>
          simp only [regular, Bool.and_eq_true, Bool.not_eq_true'] at good
          simp only [tokens, List.length_cons, List.length_append] at short
          have notElse := free.resolve_left (by simp [isBlock])
          exact readStmt_switch good.1.1 good.1.2 (stmt body rest good.2 (.inr notElse) (by omega))
    · intro ss rest good short
      cases ss with
      | nil => simp only [tokensAll, List.nil_append, readItems, after?_cons_self]
      | cons s ss =>
          simp only [regularAll, Bool.and_eq_true] at good
          obtain ⟨t, ts, starts, -, -⟩ := first_token good.1
          have oneToken : 1 ≤ s.tokens.length := by simp [starts]
          simp only [tokensAll, List.length_append] at short
          exact readItems_cons good.1 (stmt s _ good.1 (.inr (no_else good.2)) (by omega))
            (items ss rest good.2 (by omega))

/-- A block of regular statements is read back from its tokens. -/
theorem readBlock?_tokens {items : List Stmt} (good : Stmt.regularAll items = true) :
    readBlock? (Stmt.block items).tokens = some items := by
  have read := (read_all ((Stmt.block items).tokens.length + 1)).1 (.block items) [] good (.inl rfl)
    (by omega)
  rw [List.append_nil] at read
  rw [readBlock?, read]

end Retarget.C
