/-
# Proofs.PrintedStatement -- what a printed body is in C

`Forms` gives the C statements that a body is printed as.  It asks of the straight-line parts only
that their texts end where the printer ends them: expressions in heads and case labels are tokens
whose brackets match, a simple statement is one run of tokens or several with semicolons between
them.  Labels are names in C too, and what follows an else is a block or a conditional.

An else that is printed right before a conditional takes one statement.  If the conditional has a
statement in front of its condition, that one is the whole else-arm and the conditional comes after
the outer one; `Forms` says so, because the text does.

C reads the printed text back as these statements: `printed_reads_statements`.
-/
import Retarget.Proofs.ControlTransfer
import Retarget.Proofs.PrintedExpression

namespace Retarget

open Retarget.Source (Node Mark BranchKind AssignOp)
open Retarget.C (Control Stmt Token lex semicolon colon openParen closeParen openBrace closeBrace word
  contained)

set_option autoImplicit false
set_option linter.dupNamespace false

/-! ## Texts that end where they should -/

/-- The tokens of the text stay what they are when the character `stop` follows. -/
def Ended (stop : Char) (text : String) : Prop :=
  ∀ rest, lex (text.toList ++ stop :: rest) = lex text.toList ++ lex (stop :: rest)

/-- What may stand where C looks for the mark `stop`: tokens whose brackets match. -/
structure Closed (stop : Char) (text : String) : Prop where
  ended : Ended stop text
  inside : contained (.mark [stop]) 0 (lex text.toList) = true
  someToken : lex text.toList ≠ []

/-- Runs of tokens with a semicolon after each. -/
def lined (runs : List (List Token)) : List Token := runs.flatMap (· ++ [semicolon])

/-- The text of a line that C takes as the given runs. -/
structure Line (text : String) (runs : List (List Token)) : Prop where
  ended : Ended ';' text
  tokens : lex text.toList ++ [semicolon] = lined runs
  inside : ∀ run ∈ runs, contained semicolon 0 run = true
  starts : ∀ run ∈ runs, Stmt.startsRun run = true

/-! ## The statements that a body is printed as -/

/-- Statements that the printer gives a line. -/
def isSimple : Node → Bool
  | .assign .. | .step .. | .exprStmt .. | .ret .. | .declStmt .. | .empty _ | .branch _ .fall _ => true
  | _ => false

/-- The labels of a clause. -/
def caseLabels (p : CPrinter) (values : List Node) : List Stmt :=
  (p.caseValues values).map .caseLabel

/-- The parts of a body that the printer has a function for. -/
inductive Part where
  | stmt (n : Node)
  | stmts (ns : List Node)
  | clauses (ns : List Node)
  | otherwise (orElse : Option Node)
  | before (init : Option Node)

/-- The C statements that a part is printed as.  Those of an else-arm are the arm and then what C
takes as following the conditional. -/
inductive Forms (p : CPrinter) : Part → List Stmt → Prop where
  | nil : Forms p (.stmts []) []
  | cons {n : Node} {ns : List Node} {ss more : List Stmt} (first : Forms p (.stmt n) ss)
      (rest : Forms p (.stmts ns) more) : Forms p (.stmts (n :: ns)) (ss ++ more)
  | silent {n : Node} (simple : isSimple n = true) (empty : p.simple n = "") : Forms p (.stmt n) []
  | line {n : Node} {runs : List (List Token)} (simple : isSimple n = true) (text : p.simple n ≠ "")
      (spelled : Line (p.simple n) runs) : Forms p (.stmt n) (runs.map .run)
  | exit (m : Mark) (l : Option Node) : Forms p (.stmt (.branch m .exit l)) [.exit]
  | next (m : Mark) (l : Option Node) : Forms p (.stmt (.branch m .next l)) [.next]
  | labeled (m m' : Mark) {text : String} {s : Node} {ss : List Stmt}
      (ident : isIdentifier text = true) (free : text.toList ∉ C.keywords)
      (inner : Forms p (.stmt s) ss) :
      Forms p (.stmt (.labeled m (.name m' text) s)) (.label text.toList :: ss)
  | block (m : Mark) {ns : List Node} {ss : List Stmt} (inner : Forms p (.stmts ns) ss) :
      Forms p (.stmt (.block m ns)) [.block ss]
  | choose (m m' : Mark) {init orElse : Option Node} {cond : Node} {body : List Node}
      {first ss arm : List Stmt} (before : Forms p (.before init) first)
      (head : Closed ')' (p.expr cond)) (yes : Forms p (.stmts body) ss)
      (no : Forms p (.otherwise orElse) arm) :
      Forms p (.stmt (.ifStmt m init cond (.block m' body) orElse))
        (first ++ .choose (lex (p.expr cond).toList) (.block ss) arm.head? :: arm.tail)
  | loop (m m' : Mark) {init cond post : Option Node} {body : List Node} {ss : List Stmt}
      (head : Closed ')' (p.loopHead init cond post)) (inner : Forms p (.stmts body) ss) :
      Forms p (.stmt (.forStmt m init cond post (.block m' body)))
        [.loop (CPrinter.counted init cond post) (lex (p.loopHead init cond post).toList) (.block ss)]
  | range (m m' : Mark) {key value : Option Node} {x : Node} {body : List Node} {ss : List Stmt}
      (head : Closed ')' (p.rangeHead key x)) (inner : Forms p (.stmts body) ss) :
      Forms p (.stmt (.rangeStmt m key value x (.block m' body)))
        [.loop true (lex (p.rangeHead key x).toList) (.block ss)]
  | switch (m m' : Mark) {init tag : Option Node} {list : List Node} {first ss : List Stmt}
      (before : Forms p (.before init) first) (head : ∀ t ∈ tag, Closed ')' (p.expr t))
      (inner : Forms p (.clauses list) ss) :
      Forms p (.stmt (.switchStmt m init tag (.block m' list)))
        (first ++ [.switch (lex (p.exprOpt tag).toList) (.block ss)])
  | noClause : Forms p (.clauses []) []
  | clause (m : Mark) {values body rest : List Node} {ss more : List Stmt}
      (labels : ∀ v ∈ values, Closed ':' (p.expr v)) (inner : Forms p (.stmts body) ss)
      (others : Forms p (.clauses rest) more) :
      Forms p (.clauses (.caseClause m values body :: rest))
        (caseLabels p values ++ (ss ++ .exit :: more))
  | noElse : Forms p (.otherwise none) []
  | elseBlock (m : Mark) {ns : List Node} {ss : List Stmt} (inner : Forms p (.stmts ns) ss) :
      Forms p (.otherwise (some (.block m ns))) [.block ss]
  | elseIf {m : Mark} {init orElse : Option Node} {cond body : Node} {ss : List Stmt}
      (inner : Forms p (.stmt (.ifStmt m init cond body orElse)) ss) :
      Forms p (.otherwise (some (.ifStmt m init cond body orElse))) ss
  | atTest : Forms p (.before none) []
  | silentBefore {n : Node} (simple : isSimple n = true) (empty : p.simple n = "") :
      Forms p (.before (some n)) []
  | lineBefore {n : Node} {run : List Token} (simple : isSimple n = true) (text : p.simple n ≠ "")
      (spelled : Line (p.simple n) [run]) : Forms p (.before (some n)) [.run run]

/-! ## Printed lines -/

/-- The tokens of a text that ends in a new line. -/
def Lexed (text : String) (tokens : List Token) : Prop :=
  ∀ rest, lex (text.toList ++ rest) = tokens ++ lex rest

theorem Lexed.append {a b : String} {as bs : List Token} (first : Lexed a as) (second : Lexed b bs) :
    Lexed (a ++ b) (as ++ bs) := by
  intro rest
  rw [String.toList_append, List.append_assoc, first, second, List.append_assoc]

theorem Lexed.congr {a b : String} {as bs : List Token} (lexed : Lexed a as) (text : b = a)
    (tokens : bs = as) : Lexed b bs :=
  text ▸ tokens ▸ lexed

theorem Lexed.empty : Lexed "" [] := fun _ => rfl

theorem lex_indent (n : Nat) (rest : List Char) :
    lex ((Text.repeated "    " n).toList ++ rest) = lex rest := by
  induction n with
  | zero => rfl
  | succ n ih =>
      have level : (Text.repeated "    " (n + 1)).toList =
          [' ', ' ', ' ', ' '] ++ (Text.repeated "    " n).toList := by
        simp [Text.repeated, List.replicate_succ, String.join_cons]
      rw [level, List.append_assoc]
      simp only [List.cons_append, List.nil_append, C.lex_space, ih]

theorem lexed_line (indent : Nat) {text : String} {tokens : List Token}
    (same : ∀ rest, lex (text.toList ++ '\n' :: rest) = tokens ++ lex rest) :
    Lexed (CPrinter.line indent text) tokens := by
  intro rest
  have whole : (CPrinter.line indent text).toList ++ rest =
      (Text.repeated "    " indent).toList ++ (text.toList ++ '\n' :: rest) := by
    simp [CPrinter.line]
  rw [whole, lex_indent, same]

theorem lex_word {c : Char} {w : List Char}
    (spelled : (!Text.isDecimal c && (c :: w).all C.isWordChar) = true) {rest : List Char}
    (ends : C.EndsWord rest) : lex (c :: (w ++ rest)) = .name (c :: w) :: lex rest := by
  simp only [List.all_cons, Bool.and_eq_true, Bool.not_eq_true', List.all_eq_true] at spelled
  exact C.lex_name spelled.2.1 spelled.1 spelled.2.2 ends

theorem lex_brace (rest : List Char) : lex ('{' :: rest) = openBrace :: lex rest :=
  C.lex_lone rest (by decide)

theorem lex_closing (rest : List Char) : lex ('}' :: rest) = closeBrace :: lex rest :=
  C.lex_lone rest (by decide)

theorem lex_semicolon (rest : List Char) : lex (';' :: rest) = semicolon :: lex rest :=
  C.lex_lone rest (by decide)

/-- A colon at the end of a line is a mark of its own. -/
theorem lex_colon (rest : List Char) : lex (':' :: '\n' :: rest) = colon :: lex rest := by
  rw [← C.lex_newline rest]
  exact C.lex_cons ':' [] ('\n' :: rest) (some colon) rfl

/-- A keyword with a head in parentheses and an opening brace. -/
theorem lexed_head (indent : Nat) (text : String) {c : Char} {w : List Char}
    (spelled : (!Text.isDecimal c && (c :: w).all C.isWordChar) = true) {head : String}
    (ended : Ended ')' head)
    (same : text.toList = c :: (w ++ ' ' :: '(' :: (head.toList ++ [')', ' ', '{']))) :
    Lexed (CPrinter.line indent text)
      (.name (c :: w) :: openParen :: (lex head.toList ++ [closeParen, openBrace])) := by
  refine lexed_line indent fun rest => ?_
  have space : C.EndsWord (' ' :: '(' :: (head.toList ++ ')' :: ' ' :: '{' :: '\n' :: rest)) := by
    rintro d ⟨⟩
    decide
  have whole : text.toList ++ '\n' :: rest =
      c :: (w ++ ' ' :: '(' :: (head.toList ++ ')' :: ' ' :: '{' :: '\n' :: rest)) := by
    simp [same]
  rw [whole, lex_word spelled space, C.lex_space, C.lex_lone _ (by decide), ended,
    C.lex_lone _ (by decide), C.lex_space, lex_brace, C.lex_newline]
  simp [openParen, closeParen]

theorem lexed_open (indent : Nat) : Lexed (CPrinter.line indent "\x7b") [openBrace] :=
  lexed_line indent fun rest => by
    show lex ('{' :: '\n' :: rest) = _
    rw [lex_brace, C.lex_newline]
    rfl

theorem lexed_close (indent : Nat) : Lexed (CPrinter.line indent "\x7d") [closeBrace] :=
  lexed_line indent fun rest => by
    show lex ('}' :: '\n' :: rest) = _
    rw [lex_closing, C.lex_newline]
    rfl

theorem lex_else {rest : List Char} (ends : C.EndsWord rest) :
    lex ('}' :: ' ' :: 'e' :: 'l' :: 's' :: 'e' :: rest) = closeBrace :: word "else" :: lex rest := by
  rw [lex_closing, C.lex_space]
  exact congrArg (closeBrace :: ·) (lex_word (c := 'e') (w := ['l', 's', 'e']) (by decide) ends)

theorem lexed_else (indent : Nat) :
    Lexed (CPrinter.line indent "\x7d else") [closeBrace, word "else"] :=
  lexed_line indent fun rest => by
    show lex ('}' :: ' ' :: 'e' :: 'l' :: 's' :: 'e' :: '\n' :: rest) = _
    rw [lex_else (by rintro d ⟨⟩; decide), C.lex_newline]
    rfl

theorem lexed_elseOpen (indent : Nat) :
    Lexed (CPrinter.line indent "\x7d else \x7b") [closeBrace, word "else", openBrace] :=
  lexed_line indent fun rest => by
    show lex ('}' :: ' ' :: 'e' :: 'l' :: 's' :: 'e' :: ' ' :: '{' :: '\n' :: rest) = _
    rw [lex_else (by rintro d ⟨⟩; decide), C.lex_space, lex_brace, C.lex_newline]
    rfl

/-- A statement of one word. -/
theorem lexed_branch (indent : Nat) (text : String) {c : Char} {w : List Char}
    (spelled : (!Text.isDecimal c && (c :: w).all C.isWordChar) = true)
    (same : text.toList = c :: (w ++ [';'])) :
    Lexed (CPrinter.line indent text) [.name (c :: w), semicolon] :=
  lexed_line indent fun rest => by
    rw [same, List.cons_append, List.append_assoc, List.singleton_append,
      lex_word spelled (by rintro d ⟨⟩; decide), lex_semicolon, C.lex_newline]
    rfl

theorem lexed_colon (indent : Nat) (text : String) {c : Char} {w : List Char}
    (spelled : (!Text.isDecimal c && (c :: w).all C.isWordChar) = true)
    (same : text.toList = c :: (w ++ [':'])) :
    Lexed (CPrinter.line indent text) [.name (c :: w), colon] :=
  lexed_line indent fun rest => by
    rw [same, List.cons_append, List.append_assoc, List.singleton_append,
      lex_word spelled (by rintro d ⟨⟩; decide), lex_colon]
    rfl

theorem lexed_case (indent : Nat) {value : String} (ended : Ended ':' value) :
    Lexed (CPrinter.line indent ("case " ++ value ++ ":"))
      (word "case" :: (lex value.toList ++ [colon])) := by
  refine lexed_line indent fun rest => ?_
  have whole : ("case " ++ value ++ ":").toList ++ '\n' :: rest =
      'c' :: (['a', 's', 'e'] ++ ' ' :: (value.toList ++ ':' :: '\n' :: rest)) := by
    simp
  rw [whole, lex_word (by decide) (by rintro d ⟨⟩; decide), C.lex_space, ended, lex_colon]
  simp [word]

theorem lexed_simple (p : CPrinter) (indent : Nat) {n : Node} {runs : List (List Token)}
    (text : p.simple n ≠ "") (spelled : Line (p.simple n) runs) :
    Lexed (p.simpleLine indent n) (lined runs) := by
  have shown : p.simpleLine indent n = CPrinter.line indent (p.simple n ++ ";") := by
    simp [CPrinter.simpleLine, text]
  rw [shown]
  refine lexed_line indent fun rest => ?_
  have whole : (p.simple n ++ ";").toList ++ '\n' :: rest =
      (p.simple n).toList ++ ';' :: '\n' :: rest := by
    simp
  rw [whole, spelled.ended, lex_semicolon, C.lex_newline, ← spelled.tokens, List.append_assoc]
  rfl

/-! ## The printed text in tokens -/

namespace Part

def text (p : CPrinter) (indent : Nat) : Part → String
  | stmt n => p.stmt indent n
  | stmts ns => p.stmtAll indent ns
  | clauses ns => p.clauseAll indent ns
  | otherwise orElse => p.otherwise indent orElse
  | before init => p.stmtOpt indent init

/-- The tokens of the statements of a part; an else-arm starts with the brace it follows. -/
def tokens : Part → List Stmt → List Token
  | otherwise _, ss => closeBrace :: (Stmt.elseTokens ss.head? ++ Stmt.tokensAll ss.tail)
  | _, ss => Stmt.tokensAll ss

end Part

theorem stmt_simple (p : CPrinter) (indent : Nat) {n : Node} (simple : isSimple n = true) :
    p.stmt indent n = p.simpleLine indent n := by
  cases n <;> first | rfl | cases simple

theorem simpleLine_empty (p : CPrinter) (indent : Nat) {n : Node} (empty : p.simple n = "") :
    p.simpleLine indent n = "" := by
  simp [CPrinter.simpleLine, empty]

theorem tokensAll_runs (runs : List (List Token)) :
    Stmt.tokensAll (runs.map .run) = lined runs := by
  induction runs with
  | nil => rfl
  | cons run runs ih => rw [List.map_cons, Stmt.tokensAll, ih]; rfl

theorem lexed_labels (p : CPrinter) (indent : Nat) {values : List Node}
    (labels : ∀ v ∈ values, Closed ':' (p.expr v)) :
    Lexed (if values.isEmpty then CPrinter.line indent "default:"
      else String.join (values.map fun v => CPrinter.line indent ("case " ++ p.expr v ++ ":")))
      (Stmt.tokensAll (caseLabels p values)) := by
  have each : Lexed (String.join (values.map fun v => CPrinter.line indent ("case " ++ p.expr v ++ ":")))
      (Stmt.tokensAll (values.map fun v => .caseLabel (some (lex (p.expr v).toList)))) := by
    induction values with
    | nil => exact Lexed.empty.congr rfl rfl
    | cons v values ih =>
        have first := lexed_case indent (labels v List.mem_cons_self).ended
        have more := ih fun v member => labels v (List.mem_cons_of_mem _ member)
        exact (first.append more).congr (by simp [String.join_cons]) rfl
  cases values with
  | nil => exact lexed_colon indent _ (c := 'd') (w := ['e', 'f', 'a', 'u', 'l', 't']) (by decide) (by simp)
  | cons v values =>
      exact each.congr rfl (by simp [caseLabels, CPrinter.caseValues, Function.comp_def])

/-- The word before a loop's head. -/
def loopChars (counted : Bool) : List Char :=
  if counted then ['f', 'o', 'r'] else ['w', 'h', 'i', 'l', 'e']

theorem stmt_for (p : CPrinter) (indent : Nat) (m : Mark) (init cond post : Option Node) (body : Node) :
    ∃ text, p.stmt indent (.forStmt m init cond post body) =
        CPrinter.line indent text ++ p.inner indent body ++ CPrinter.line indent "\x7d" ∧
      text.toList = loopChars (CPrinter.counted init cond post) ++
        ' ' :: '(' :: ((p.loopHead init cond post).toList ++ [')', ' ', '{']) := by
  cases init <;> cases cond <;> cases post <;>
    exact ⟨_, rfl, by simp [CPrinter.counted, CPrinter.loopHead, loopChars]⟩

theorem lexed_loopHead (indent : Nat) (text : String) (counted : Bool) {head : String}
    (ended : Ended ')' head)
    (same : text.toList = loopChars counted ++ ' ' :: '(' :: (head.toList ++ [')', ' ', '{'])) :
    Lexed (CPrinter.line indent text)
      (Stmt.loopWord counted :: openParen :: (lex head.toList ++ [closeParen, openBrace])) := by
  cases counted with
  | false => exact lexed_head indent _ (c := 'w') (w := ['h', 'i', 'l', 'e']) (by decide) ended same
  | true => exact lexed_head indent _ (c := 'f') (w := ['o', 'r']) (by decide) ended same

/-! ### Straight-line text -/

theorem controlAll_runs (loops : List Bool) (runs : List (List Token)) :
    C.controlAll loops (runs.map .run) = (lined runs).map .token := by
  induction runs with
  | nil => rfl
  | cons run runs ih =>
      rw [List.map_cons, C.controlAll, ih]
      simp [lined, Stmt.control]

theorem straight_line (p : CPrinter) {n : Node} {runs : List (List Token)} (text : p.simple n ≠ "")
    (spelled : Line (p.simple n) runs) : p.straight n = (lined runs).map .token := by
  simp [CPrinter.straight, text, spelled.tokens]

theorem straight_empty (p : CPrinter) {n : Node} (empty : p.simple n = "") : p.straight n = [] := by
  simp [CPrinter.straight, empty]

theorem unbraced_tokens (ts : List Token) :
    Control.unbraced (ts.map .token) = ts.map .token := by
  cases ts <;> rfl

/-- What a conditional is printed as starts with a statement, which takes as many pieces of control
as stand before the condition, or one. -/
theorem Forms.conditional {p : CPrinter} {m : Mark} {init orElse : Option Node} {cond body : Node}
    {ss : List Stmt} (forms : Forms p (.stmt (.ifStmt m init cond body orElse)) ss) :
    ∃ s more, ss = s :: more ∧ s.isLabel = false ∧ ∀ loops,
      Control.unbraced (s.control loops) = s.control loops ∧
        (s.control loops).length = max 1 (p.before init).length := by
  cases forms with
  | silent simple => cases simple
  | line simple => cases simple
  | choose m m' before head yes no =>
      cases before with
      | atTest => exact ⟨_, _, rfl, rfl, fun loops => ⟨rfl, rfl⟩⟩
      | silentBefore simple empty =>
          have nothing : p.before (some _) = [] := straight_empty p empty
          exact ⟨_, _, rfl, rfl, fun loops => ⟨rfl, by rw [nothing]; rfl⟩⟩
      | @lineBefore n run simple text spelled =>
          have line : p.before (some n) = (lined [run]).map .token := straight_line p text spelled
          refine ⟨_, _, rfl, rfl, fun loops => ⟨unbraced_tokens _, ?_⟩⟩
          rw [line]
          simp [Stmt.control, lined]

theorem Forms.lexed {p : CPrinter} {part : Part} {ss : List Stmt} (forms : Forms p part ss) :
    ∀ indent, Lexed (part.text p indent) (part.tokens ss) := by
  induction forms with
  | nil => exact fun indent => Lexed.empty
  | @cons n ns ss more first rest ihFirst ihRest =>
      intro indent
      exact ((ihFirst indent).append (ihRest indent)).congr rfl (Stmt.tokensAll_append ss more)
  | @silent n simple empty =>
      intro indent
      exact Lexed.empty.congr
        ((stmt_simple p indent simple).trans (simpleLine_empty p indent empty)) rfl
  | @line n runs simple text spelled =>
      intro indent
      exact (lexed_simple p indent text spelled).congr (stmt_simple p indent simple)
        (tokensAll_runs runs)
  | exit m l =>
      intro indent
      exact (lexed_branch indent "break;" (c := 'b') (w := ['r', 'e', 'a', 'k']) (by decide)
        (by simp)).congr rfl rfl
  | next m l =>
      intro indent
      exact (lexed_branch indent "continue;" (c := 'c') (w := ['o', 'n', 't', 'i', 'n', 'u', 'e'])
        (by decide) (by simp)).congr rfl rfl
  | @labeled m m' text s ss ident free inner ih =>
      intro indent
      obtain ⟨c, w, spelled, first, letter, isWord⟩ := identifier_spelled ident
      have label := lexed_colon indent (text ++ ":") (c := c) (w := w)
        (by simpa [first, letter] using isWord) (by simp [spelled])
      exact (label.append (ih indent)).congr rfl
        (by simp [Part.tokens, Stmt.tokensAll, Stmt.tokens, spelled])
  | @block m ns ss inner ih =>
      intro indent
      have braced := ((lexed_open indent).append (ih (indent + 1))).append (lexed_close indent)
      exact braced.congr rfl (by simp [Part.tokens, Stmt.tokensAll, Stmt.tokens])
  | @choose m m' init orElse cond body first ss arm before head yes no ihBefore ihYes ihNo =>
      intro indent
      have opened := lexed_head indent ("if (" ++ p.expr cond ++ ") \x7b") (c := 'i') (w := ['f'])
        (by decide) head.ended (by simp)
      have whole := (((ihBefore indent).append opened).append (ihYes (indent + 1))).append (ihNo indent)
      exact whole.congr rfl
        (by simp [Stmt.tokensAll_append, Part.tokens, Stmt.tokensAll, Stmt.tokens, word])
  | @loop m m' init cond post body ss head inner ih =>
      intro indent
      obtain ⟨text, shown, spelled⟩ := stmt_for p indent m init cond post (.block m' body)
      have opened := lexed_loopHead indent text _ head.ended spelled
      have whole := (opened.append (ih (indent + 1))).append (lexed_close indent)
      exact whole.congr shown (by simp [Part.tokens, Stmt.tokensAll, Stmt.tokens])
  | @range m m' key value x body ss head inner ih =>
      intro indent
      let iter := (key.map p.expr).getD "_i"
      have opened := lexed_loopHead indent ("for (long " ++ iter ++ " = 0; " ++ iter ++ " < " ++
        p.expr x ++ "; " ++ iter ++ "++) \x7b") true head.ended
        (by unfold CPrinter.rangeHead; simp [loopChars, iter])
      have whole := (opened.append (ih (indent + 1))).append (lexed_close indent)
      exact whole.congr rfl (by simp [Part.tokens, Stmt.tokensAll, Stmt.tokens])
  | @switch m m' init tag list first ss before head inner ihBefore ihInner =>
      intro indent
      have ended : Ended ')' (p.exprOpt tag) := by
        cases tag with
        | none => exact fun rest => rfl
        | some t => exact (head t rfl).ended
      have opened := lexed_head indent ("switch (" ++ p.exprOpt tag ++ ") \x7b") (c := 's')
        (w := ['w', 'i', 't', 'c', 'h']) (by decide) ended (by simp)
      have whole := (((ihBefore indent).append opened).append (ihInner indent)).append
        (lexed_close indent)
      exact whole.congr rfl
        (by simp [Stmt.tokensAll_append, Part.tokens, Stmt.tokensAll, Stmt.tokens, word])
  | noClause => exact fun indent => Lexed.empty
  | @clause m values body rest ss more labels inner others ihInner ihOthers =>
      intro indent
      have exits := lexed_branch (indent + 1) "break;" (c := 'b') (w := ['r', 'e', 'a', 'k'])
        (by decide) (by simp)
      have whole := (((lexed_labels p indent labels).append (ihInner (indent + 1))).append exits).append
        (ihOthers indent)
      exact whole.congr rfl
        (by simp [Stmt.tokensAll_append, Part.tokens, Stmt.tokensAll, Stmt.tokens, word])
  | noElse => exact fun indent => lexed_close indent
  | @elseBlock m ns ss inner ih =>
      intro indent
      have whole := ((lexed_elseOpen indent).append (ih (indent + 1))).append (lexed_close indent)
      exact whole.congr rfl
        (by simp [Part.tokens, Stmt.tokensAll, Stmt.tokens, Stmt.elseTokens])
  | @elseIf m init orElse cond body ss inner ih =>
      intro indent
      obtain ⟨s, more, rfl, -, -⟩ := inner.conditional
      exact ((lexed_else indent).append (ih indent)).congr rfl
        (by simp [Part.tokens, Stmt.tokensAll, Stmt.elseTokens])
  | atTest => exact fun indent => Lexed.empty
  | @silentBefore n simple empty =>
      intro indent
      exact Lexed.empty.congr
        ((stmt_simple p indent simple).trans (simpleLine_empty p indent empty)) rfl
  | @lineBefore n run simple text spelled =>
      intro indent
      exact (lexed_simple p indent text spelled).congr (stmt_simple p indent simple)
        (tokensAll_runs [run])

/-! ## Reading the text back -/

theorem starter_of_not_keyword {text : List Char} (free : text ∉ C.keywords) :
    C.starter (.name text) = .other := by
  have keys : ∀ entry ∈ C.starters, entry.1 ∈ C.keywords := by
    simp only [C.starters, C.keywords, List.forall_mem_cons, C.toList_mem_map]
    decide
  have none : C.starters.lookup text = none := by
    refine List.lookup_eq_none_iff.mpr fun entry member => ?_
    refine bne_iff_ne.mpr ?_
    rintro rfl
    exact free (keys entry member)
  simp [C.starter, none]

theorem regularAll_append (ss ss' : List Stmt) :
    Stmt.regularAll (ss ++ ss') = (Stmt.regularAll ss && Stmt.regularAll ss') := by
  induction ss with
  | nil => rfl
  | cons s ss ih => rw [List.cons_append, Stmt.regularAll, Stmt.regularAll, ih, Bool.and_assoc]

theorem regularAll_runs {text : String} {runs : List (List Token)} (spelled : Line text runs) :
    Stmt.regularAll (runs.map .run) = true := by
  have inside := spelled.inside
  have starts := spelled.starts
  clear spelled
  induction runs with
  | nil => rfl
  | cons run runs ih =>
      simp only [List.mem_cons, forall_eq_or_imp] at inside starts
      simp [Stmt.regularAll, Stmt.regular, inside.1, starts.1, ih inside.2 starts.2]

theorem regularAll_labels {p : CPrinter} {values : List Node}
    (labels : ∀ v ∈ values, Closed ':' (p.expr v)) :
    Stmt.regularAll (caseLabels p values) = true := by
  have each : Stmt.regularAll (values.map fun v => .caseLabel (some (lex (p.expr v).toList))) = true := by
    induction values with
    | nil => rfl
    | cons v values ih =>
        have inside : contained colon 0 (lex (p.expr v).toList) = true :=
          (labels v List.mem_cons_self).inside
        have more := ih fun v member => labels v (List.mem_cons_of_mem _ member)
        simp [Stmt.regularAll, Stmt.regular, inside, more]
  cases values with
  | nil => rfl
  | cons v values => simpa [caseLabels, CPrinter.caseValues, Function.comp_def] using each

theorem Forms.arm_plain {p : CPrinter} {orElse : Option Node} {arm : List Stmt}
    (forms : Forms p (.otherwise orElse) arm) (s : Stmt) (first : arm.head? = some s) :
    s.isLabel = false := by
  cases forms with
  | noElse => cases first
  | elseBlock m inner => cases first; rfl
  | elseIf inner =>
      obtain ⟨s', more, rfl, plain, -⟩ := inner.conditional
      cases first
      exact plain

theorem Forms.regular {p : CPrinter} {part : Part} {ss : List Stmt} (forms : Forms p part ss) :
    Stmt.regularAll ss = true := by
  induction forms with
  | nil | silent | exit | next | noClause | noElse | atTest | silentBefore => rfl
  | cons first rest ihFirst ihRest => simp [regularAll_append, ihFirst, ihRest]
  | line simple text spelled => exact regularAll_runs spelled
  | labeled m m' ident free inner ih =>
      simp [Stmt.regularAll, Stmt.regular, starter_of_not_keyword free, ih]
  | block m inner ih => simp [Stmt.regularAll, Stmt.regular, ih]
  | @choose m m' init orElse cond body first ss arm before head yes no ihBefore ihYes ihNo =>
      have inside : contained closeParen 0 (lex (p.expr cond).toList) = true := head.inside
      have armed : Stmt.regularElse arm.head? = true ∧ Stmt.regularAll arm.tail = true := by
        cases arm with
        | nil => exact ⟨rfl, rfl⟩
        | cons s more =>
            simp only [Stmt.regularAll, Bool.and_eq_true] at ihNo
            exact ⟨by simp [Stmt.regularElse, no.arm_plain s rfl, ihNo.1], ihNo.2⟩
      simp [regularAll_append, Stmt.regularAll, Stmt.regular, Stmt.isBlock, ihBefore, inside, ihYes, armed]
  | @loop m m' init cond post body ss head inner ih =>
      have inside : contained closeParen 0 (lex (p.loopHead init cond post).toList) = true := head.inside
      simp [Stmt.regularAll, Stmt.regular, Stmt.isLabel, inside, ih]
  | @range m m' key value x body ss head inner ih =>
      have inside : contained closeParen 0 (lex (p.rangeHead key x).toList) = true := head.inside
      simp [Stmt.regularAll, Stmt.regular, Stmt.isLabel, inside, ih]
  | @switch m m' init tag list first ss before head inner ihBefore ihInner =>
      have inside : contained closeParen 0 (lex (p.exprOpt tag).toList) = true := by
        cases tag with
        | none => rfl
        | some t => exact (head t rfl).inside
      simp [regularAll_append, Stmt.regularAll, Stmt.regular, Stmt.isLabel, ihBefore, inside, ihInner]
  | clause m labels inner others ihInner ihOthers =>
      simp [regularAll_append, Stmt.regularAll, Stmt.regular, regularAll_labels labels, ihInner, ihOthers]
  | elseBlock m inner ih => simp [Stmt.regularAll, Stmt.regular, ih]
  | elseIf inner ih => exact ih
  | lineBefore simple text spelled => exact regularAll_runs spelled

theorem print_block (u : SourceUnit) (m : Mark) (body : List Node) :
    (u.print (.block m body)).toList =
      '{' :: '\n' :: (((u.printer (.block m body)).stmtAll 1 body).toList ++ ['}']) := by
  show (Text.trimEnd ['\n'] (CPrinter.line 0 "\x7b" ++ (u.printer (.block m body)).stmtAll 1 body ++
    CPrinter.line 0 "\x7d")).toList = _
  simp [Text.trimEnd, Text.dropEndWhile, CPrinter.line, Text.repeated]

/-- The text of a body is read as the statements that the body is printed as. -/
theorem printed_reads_statements (u : SourceUnit) {m : Mark} {body : List Node} {ss : List Stmt}
    (forms : Forms (u.printer (.block m body)) (.stmts body) ss) :
    C.readBlock? (lex (u.print (.block m body)).toList) = some ss := by
  have tokens : lex (u.print (.block m body)).toList = (Stmt.block ss).tokens := by
    have inner : Lexed ((u.printer (.block m body)).stmtAll 1 body) (Stmt.tokensAll ss) :=
      forms.lexed 1
    rw [print_block, lex_brace, C.lex_newline, inner, lex_closing, C.lex_nil]
    rfl
  rw [tokens]
  exact C.readBlock?_tokens forms.regular

/-! ## Expressions and assignments among the leaves -/

theorem contained_plain {stop t : Token} (other : t ≠ stop) (noOpen : C.opens t = false)
    (noClose : C.closes t = false) (depth : Nat) (ts : List Token) :
    contained stop depth (t :: ts) = contained stop depth ts := by
  simp [contained, C.depthAfter?, other, noOpen, noClose]

/-- The tokens of an expression leave the brackets as they are. -/
theorem contained_expr (t : C.Expr) {stop : Token} (isStop : stop ∈ [closeParen, colon, semicolon])
    (depth : Nat) (more : List Token) :
    contained stop depth (t.tokens ++ more) = contained stop depth more := by
  induction t generalizing depth more with
  | name text =>
      refine contained_plain ?_ rfl rfl depth more
      rintro rfl
      simp [closeParen, colon, semicolon] at isStop
  | number text =>
      refine contained_plain ?_ rfl rfl depth more
      rintro rfl
      simp [closeParen, colon, semicolon] at isStop
  | paren x ih =>
      have opened : contained stop depth (openParen :: (x.tokens ++ closeParen :: more)) =
          contained stop (depth + 1) (closeParen :: more) := by
        have other : openParen ≠ stop := by
          rintro rfl
          exact absurd isStop (by decide)
        rw [← ih (depth + 1) (closeParen :: more)]
        simp [contained, C.depthAfter?, other, show C.opens openParen = true by decide]
      have closed : contained stop (depth + 1) (closeParen :: more) = contained stop depth more := by
        simp [contained, C.depthAfter?, show C.opens closeParen = false by decide,
          show C.closes closeParen = true by decide]
      have tokens : (C.Expr.paren x).tokens ++ more = openParen :: (x.tokens ++ closeParen :: more) := by
        simp [C.Expr.tokens, openParen, closeParen]
      rw [tokens, opened, closed]
  | unary op x ih =>
      have plain : C.opens (.mark op.mark) = false ∧ C.closes (.mark op.mark) = false ∧
          ∀ s ∈ [closeParen, colon, semicolon], Token.mark op.mark ≠ s := by
        cases op <;> decide
      have tokens : (C.Expr.unary op x).tokens ++ more = .mark op.mark :: (x.tokens ++ more) := by
        simp [C.Expr.tokens]
      rw [tokens, contained_plain (plain.2.2 stop isStop) plain.1 plain.2.1, ih]
  | binary op x y ihx ihy =>
      have plain : C.opens (.mark op.text.toList) = false ∧ C.closes (.mark op.text.toList) = false ∧
          ∀ s ∈ [closeParen, colon, semicolon], Token.mark op.text.toList ≠ s := by
        cases op <;> decide
      have tokens : (C.Expr.binary op x y).tokens ++ more =
          x.tokens ++ .mark op.text.toList :: (y.tokens ++ more) := by
        simp [C.Expr.tokens]
      rw [tokens, ihx, contained_plain (plain.2.2 stop isStop) plain.1 plain.2.1, ihy]

theorem endsNumber_stop {stop : Char} (isStop : stop ∈ [')', ':', ';']) (rest : List Char) :
    C.EndsNumber (stop :: rest) := by
  simp only [List.mem_cons, List.not_mem_nil, or_false] at isStop
  rcases isStop with rfl | rfl | rfl <;>
    · rintro c ⟨⟩
      decide

theorem lex_form (p : CPrinter) {e : Node} {t : C.Expr} (form : CForm e t)
    (signs : signsApart e = true) {rest : List Char} (ends : C.EndsNumber rest) :
    lex ((p.expr e).toList ++ rest) = t.tokens ++ lex rest := by
  rcases lex_expr p form ends with ⟨-, same⟩ | ⟨no, -, -, -⟩
  · exact same
  · rw [signs] at no
    cases no

/-- An expression without a doubled sign may stand in a head or a label. -/
theorem closed_expr (p : CPrinter) {e : Node} {t : C.Expr} (form : CForm e t)
    (signs : signsApart e = true) {stop : Char} (isStop : stop ∈ [')', ':', ';']) :
    Closed stop (p.expr e) := by
  have tokens : lex (p.expr e).toList = t.tokens := (lex_expr_eq_iff p form).mpr signs
  have isStop' : Token.mark [stop] ∈ [closeParen, colon, semicolon] := by
    simpa [closeParen, colon, semicolon] using isStop
  refine ⟨fun rest => ?_, ?_, ?_⟩
  · rw [tokens, lex_form p form signs (endsNumber_stop isStop rest)]
  · have whole := contained_expr t isStop' 0 []
    rw [List.append_nil] at whole
    rw [tokens, whole]
    rfl
  · rw [tokens]
    cases t <;> simp [C.Expr.tokens]

/-- An assignment of such an expression is a line. -/
theorem line_set (p : CPrinter) (m m' : Mark) {x : String} (ident : isIdentifier x = true)
    (free : cName x ∉ C.keywords) {e : Node} {t : C.Expr} (form : CForm e t)
    (signs : signsApart e = true) :
    Line (p.simple (.assign m .set [.name m' x] [e])) [.name (cName x) :: .mark ['='] :: t.tokens] := by
  have shown (rest : List Char) : (p.simple (.assign m .set [.name m' x] [e])).toList ++ rest =
      cName x ++ ' ' :: '=' :: ' ' :: ((p.expr e).toList ++ rest) := by
    simp [CPrinter.simple, CPrinter.assign, CPrinter.assignPart, Text.join, CPrinter.toList_name,
      AssignOp.text]
  have equals (rest : List Char) : lex ('=' :: ' ' :: rest) = .mark ['='] :: lex rest := by
    rw [← C.lex_space rest]
    exact C.lex_cons '=' [] (' ' :: rest) (some (.mark ['='])) rfl
  have starts (rest : List Char) : lex (cName x ++ ' ' :: '=' :: ' ' :: rest) =
      .name (cName x) :: .mark ['='] :: lex rest := by
    rw [lex_cName ident (endsNumber_space _), C.lex_space, equals]
  have closed : Closed ';' (p.expr e) := closed_expr p form signs (by decide)
  have tokens : lex (p.expr e).toList = t.tokens := (lex_expr_eq_iff p form).mpr signs
  have whole : lex (p.simple (.assign m .set [.name m' x] [e])).toList =
      .name (cName x) :: .mark ['='] :: t.tokens := by
    have all := shown []
    rw [List.append_nil, List.append_nil] at all
    rw [all, starts, tokens]
  refine ⟨fun rest => ?_, ?_, ?_, ?_⟩
  · rw [shown, starts, whole, closed.ended, tokens]
    rfl
  · simp [whole, lined]
  · intro run member
    rw [List.mem_singleton.mp member, contained_plain (by simp [semicolon]) rfl rfl,
      contained_plain (by decide) (by decide) (by decide), ← tokens]
    exact closed.inside
  · intro run member
    rw [List.mem_singleton.mp member]
    simp [Stmt.startsRun, starter_of_not_keyword free, colon]

end Retarget
