/-
# Proofs.PrintedAssignment -- an assignment of several values, as C reads it

An assignment of several values is printed as assignments with commas between them.  In C a comma
outside of brackets and an equals sign bind less than any other operator, so the text falls apart at
the commas, and each piece at its first equals sign: `readAssignments?`.  What a piece means is not
looked at here.

Expressions that only read and compute are printed as tokens whose brackets match, with commas only
between brackets and with no equals sign (`Silent.spelt`), so that the pieces are the targets with
their values, in order: `readAssignments?_assign`.
-/
import Retarget.Proofs.PrintedStatement

namespace Retarget

open Retarget.Source (Node Mark AssignOp BinaryOp UnaryOp LiteralKind)
open Retarget.C (Token lex EndsWord EndsNumber isWordChar contained openParen closeParen)
open Retarget.Kernel (cType)

set_option autoImplicit false
set_option linter.dupNamespace false

/-! ## Reading assignments -/

namespace C

def equals : Token := .mark ['=']

/-- The runs between the marks `stop` outside of brackets, if the brackets match. -/
def cutAt? (stop : Token) : Nat → List Token → Option (List (List Token))
  | depth, [] => if depth == 0 then some [[]] else none
  | depth, t :: ts =>
    if depth == 0 && t == stop then (cutAt? stop 0 ts).map ([] :: ·)
    else match depthAfter? depth t with
      | none => none
      | some depth => (cutAt? stop depth ts).map (·.modifyHead (t :: ·))

/-- The assignments of an expression that is nothing but assignments with commas between them, each
as the tokens of its target and of its value. -/
def readAssignments? (ts : List Token) : Option (List (List Token × List Token)) :=
  (cutAt? comma 0 ts).bind fun runs => runs.mapM (upTo equals 0)

theorem cutAt?_contained {stop : Token} {depth : Nat} {run : List Token}
    (inside : contained stop depth run = true) : cutAt? stop depth run = some [run] := by
  induction run generalizing depth with
  | nil => simpa [cutAt?, contained] using inside
  | cons t ts ih =>
      simp only [contained, Bool.and_eq_true, Bool.not_eq_true'] at inside
      obtain ⟨other, next⟩ := inside
      rw [cutAt?, other]
      cases after : depthAfter? depth t with
      | none => simp [after] at next
      | some depth =>
          rw [after] at next
          simp [ih next]

theorem cutAt?_stop {stop : Token} {depth : Nat} {run : List Token} (rest : List Token)
    (inside : contained stop depth run = true) :
    cutAt? stop depth (run ++ stop :: rest) = (cutAt? stop 0 rest).map (run :: ·) := by
  induction run generalizing depth with
  | nil =>
      have outside : depth = 0 := by simpa [contained] using inside
      simp [cutAt?, outside]
  | cons t ts ih =>
      simp only [contained, Bool.and_eq_true, Bool.not_eq_true'] at inside
      obtain ⟨other, next⟩ := inside
      rw [List.cons_append, cutAt?, other]
      cases after : depthAfter? depth t with
      | none => simp [after] at next
      | some depth =>
          rw [after] at next
          simp [ih next, Function.comp_def]

/-- Runs with a comma between each two. -/
def commas : List (List Token) → List Token
  | [] => []
  | [run] => run
  | run :: next :: runs => run ++ comma :: commas (next :: runs)

theorem cutAt?_commas {run : List Token} {runs : List (List Token)}
    (inside : ∀ r ∈ run :: runs, contained comma 0 r = true) :
    cutAt? comma 0 (commas (run :: runs)) = some (run :: runs) := by
  induction runs generalizing run with
  | nil => exact cutAt?_contained (inside run List.mem_cons_self)
  | cons next runs ih =>
      have rest := ih fun r member => inside r (List.mem_cons_of_mem _ member)
      rw [commas, cutAt?_stop _ (inside run List.mem_cons_self), rest]
      rfl

/-- Tokens whose brackets match, with neither a comma nor an equals sign outside of them. -/
def Level (ts : List Token) : Prop :=
  ∀ stop ∈ [comma, equals], ∀ depth more, contained stop depth (ts ++ more) = contained stop depth more

/-- Tokens whose brackets match, for use between brackets. -/
def Inner (ts : List Token) : Prop :=
  ∀ stop ∈ [comma, equals], ∀ depth more,
    contained stop (depth + 1) (ts ++ more) = contained stop (depth + 1) more

theorem Level.inner {ts : List Token} (level : Level ts) : Inner ts :=
  fun stop isStop depth more => level stop isStop (depth + 1) more

theorem Level.contained {ts : List Token} (level : Level ts) {stop : Token}
    (isStop : stop ∈ [comma, equals]) : contained stop 0 ts = true := by
  have whole := level stop isStop 0 []
  rw [List.append_nil] at whole
  rw [whole]
  rfl

theorem Level.append {ts us : List Token} (first : Level ts) (second : Level us) :
    Level (ts ++ us) := by
  intro stop isStop depth more
  rw [List.append_assoc, first stop isStop, second stop isStop]

theorem Inner.append {ts us : List Token} (first : Inner ts) (second : Inner us) :
    Inner (ts ++ us) := by
  intro stop isStop depth more
  rw [List.append_assoc, first stop isStop, second stop isStop]

/-- A token that opens and closes nothing and ends no part. -/
def isPlain (t : Token) : Bool := !opens t && !closes t && !([comma, equals].contains t)

theorem level_plain {t : Token} (plain : isPlain t = true) : Level [t] := by
  intro stop isStop depth more
  simp only [isPlain, Bool.and_eq_true, Bool.not_eq_true', List.contains_eq_mem,
    decide_eq_false_iff_not] at plain
  obtain ⟨⟨noOpen, noClose⟩, noStop⟩ := plain
  refine contained_plain ?_ noOpen noClose depth more
  rintro rfl
  exact noStop isStop

theorem isPlain_of_not_mark {t : Token} (other : ∀ m, t ≠ .mark m) : isPlain t = true := by
  cases t with
  | mark m => exact absurd rfl (other m)
  | name => rfl
  | number => rfl
  | quoted => rfl

theorem inner_comma : Inner [comma] := by
  intro stop isStop depth more
  have noOpen : opens comma = false := by decide
  have noClose : closes comma = false := by decide
  simp [C.contained, depthAfter?, noOpen, noClose]

theorem inner_commas {runs : List (List Token)} (inner : ∀ r ∈ runs, Inner r) :
    Inner (commas runs) := by
  induction runs with
  | nil => exact fun _ _ _ _ => rfl
  | cons run runs ih =>
      have first := inner run List.mem_cons_self
      cases runs with
      | nil => exact first
      | cons next runs =>
          have rest := ih fun r member => inner r (List.mem_cons_of_mem _ member)
          exact first.append (inner_comma.append rest)

/-- Brackets around tokens that match. -/
theorem Inner.level {ts : List Token} (inner : Inner ts) {o c : Token} (opened : opens o = true)
    (closed : closes c = true) (noOpen : opens c = false) : Level (o :: (ts ++ [c])) := by
  intro stop isStop depth more
  have other : o ≠ stop := by
    rintro rfl
    simp only [List.mem_cons, List.not_mem_nil, or_false] at isStop
    rcases isStop with rfl | rfl <;> exact absurd opened (by decide)
  have after : contained stop depth (o :: (ts ++ c :: more)) =
      contained stop (depth + 1) (ts ++ c :: more) := by
    simp [C.contained, depthAfter?, opened, other]
  have before : contained stop (depth + 1) (c :: more) = contained stop depth more := by
    simp [C.contained, depthAfter?, noOpen, closed]
  rw [List.cons_append, List.append_assoc, List.singleton_append, after, inner stop isStop, before]

theorem Level.parens {ts : List Token} (level : Level ts) :
    Level (openParen :: (ts ++ [closeParen])) :=
  level.inner.level (by decide) (by decide) (by decide)

/-- What is closed off by a parenthesis may stand between parentheses. -/
theorem inner_of_contained {ts : List Token} (inside : contained closeParen 0 ts = true) :
    Inner ts := by
  have deeper (ts : List Token) (d : Nat) (inside : contained closeParen d ts = true) (stop : Token)
      (depth : Nat) (more : List Token) :
      contained stop (d + depth + 1) (ts ++ more) = contained stop (depth + 1) more := by
    induction ts generalizing d with
    | nil =>
        obtain rfl : d = 0 := by simpa [C.contained] using inside
        rw [Nat.zero_add, List.nil_append]
    | cons t ts ih =>
        simp only [C.contained, Bool.and_eq_true] at inside
        have next := inside.2
        rw [List.cons_append]
        by_cases opened : opens t = true
        · simp only [depthAfter?, opened, if_true] at next
          rw [← ih (d + 1) next]
          simp [C.contained, depthAfter?, opened, Nat.add_right_comm]
        · by_cases closed : closes t = true
          · by_cases ground : d = 0
            · simp [depthAfter?, opened, closed, ground] at next
            · simp only [depthAfter?, opened, closed, if_true, if_false, beq_iff_eq, ground,
                Bool.false_eq_true] at next
              rw [← ih (d - 1) next]
              have less : d + depth = d - 1 + depth + 1 := by omega
              simp [C.contained, depthAfter?, opened, closed, less]
          · simp only [depthAfter?, opened, closed, if_false, Bool.false_eq_true] at next
            rw [← ih d next]
            simp [C.contained, depthAfter?, opened, closed]
  intro stop _ depth more
  have whole := deeper ts 0 inside stop depth more
  rwa [Nat.zero_add] at whole

/-- The tokens of an assignment. -/
def assignment (part : List Token × List Token) : List Token := part.1 ++ equals :: part.2

theorem contained_assignment {part : List Token × List Token} (target : Level part.1)
    (value : Level part.2) : contained comma 0 (assignment part) = true := by
  have isStop : comma ∈ [comma, equals] := List.mem_cons_self
  rw [assignment, target comma isStop, contained_plain (by decide) (by decide) (by decide)]
  exact value.contained isStop

theorem readAssignments?_commas {parts : List (List Token × List Token)} (filled : parts ≠ [])
    (level : ∀ part ∈ parts, Level part.1 ∧ Level part.2) :
    readAssignments? (commas (parts.map assignment)) = some parts := by
  have cut : cutAt? comma 0 (commas (parts.map assignment)) = some (parts.map assignment) := by
    obtain ⟨first, rest, rfl⟩ := List.exists_cons_of_ne_nil filled
    refine cutAt?_commas fun run member => ?_
    obtain ⟨part, among, rfl⟩ := List.mem_map.mp (List.map_cons ▸ member)
    obtain ⟨target, value⟩ := level part among
    exact contained_assignment target value
  have halves (part : List Token × List Token) (member : part ∈ parts) :
      upTo equals 0 (assignment part) = some part :=
    upTo_contained part.2 ((level part member).1.contained (by simp))
  have all : (parts.map assignment).mapM (upTo equals 0) = some parts := by
    clear cut filled level
    induction parts with
    | nil => rfl
    | cons part parts ih =>
        have first := halves part List.mem_cons_self
        have rest := ih fun part member => halves part (List.mem_cons_of_mem _ member)
        simp [first, rest]
  rw [readAssignments?, cut, Option.bind_some, all]

end C

open C (comma equals commas assignment Level Inner)

/-! ## Expressions that only read and compute -/

/-- Expressions that a bracket or a point may follow. -/
def CPrinter.isHead (p : CPrinter) : Node → Bool
  | .name .. | .paren .. | .index .. | .select .. => true
  | .call _ callee args _ => !p.scope.converts callee args
  | _ => false

/-- A literal is one token of C that is no mark. -/
structure IsConstant (text : String) : Prop where
  starts : Starts text.toList none
  single : ∃ t, (∀ m, t ≠ Token.mark m) ∧
    ∀ rest, EndsNumber rest → lex (text.toList ++ rest) = t :: lex rest

/-- Expressions that read and compute and do nothing else, where calls are of functions that do
nothing else.  No sign stands right before itself, which C would take for a step. -/
inductive Silent (p : CPrinter) : Node → Prop where
  | name (m : Mark) {text : String} (ident : isIdentifier text = true) : Silent p (.name m text)
  | literal (m : Mark) (kind : LiteralKind) {text : String} (constant : IsConstant text) :
      Silent p (.literal m kind text)
  | paren (m : Mark) {x : Node} (inner : Silent p x) : Silent p (.paren m x)
  | sign (m : Mark) {op : UnaryOp} {op' : C.PrefixOp} {x : Node} (sign : prefixOf? op = some op')
      (apart : ((op == .plus || op == .minus) && firstSign? x == some op) = false)
      (inner : Silent p x) : Silent p (.unary m op x)
  | address (m : Mark) {x : Node} (head : p.isHead x = true) (inner : Silent p x) :
      Silent p (.unary m .address x)
  | deref (m : Mark) {x : Node} (inner : Silent p x) : Silent p (.deref m x)
  | binary (m : Mark) (op : BinaryOp) {x y : Node} (left : Silent p x) (right : Silent p y) :
      Silent p (.binary m op x y)
  | index (m : Mark) {x i : Node} (head : p.isHead x = true) (array : Silent p x) (place : Silent p i) :
      Silent p (.index m x i)
  | select (m m' : Mark) {x : Node} {field : String} (head : p.isHead x = true) (inner : Silent p x)
      (ident : isIdentifier field = true) : Silent p (.select m x (.name m' field))
  | call (m : Mark) {f : Node} {args : List Node} (spread : Bool) (head : p.isHead f = true)
      (calls : p.scope.converts f args = false) (callee : Silent p f)
      (each : ∀ a ∈ args, Silent p a) : Silent p (.call m f args spread)
  | convert (m : Mark) {f x : Node} (spread : Bool) (converts : p.scope.converts f [x] = true)
      (type : Closed ')' (cType f.unparen)) (inner : Silent p x) :
      Silent p (.call m f [x] spread)

/-! ## How their texts start -/

theorem firstSign?_head {p : CPrinter} {x : Node} (head : p.isHead x = true) :
    firstSign? x = none := by
  cases x <;> first | rfl | cases head

namespace CPrinter

variable (p : CPrinter)

theorem exprs_eq_map (xs : List Node) : p.exprs xs = xs.map p.expr := by
  induction xs with
  | nil => rfl
  | cons x xs ih => exact congrArg (p.expr x :: ·) ih

theorem toList_address (m : Mark) (x : Node) :
    (p.expr (.unary m .address x)).toList = '&' :: (p.expr x).toList := by
  show ("&" ++ p.expr x).toList = _
  simp

theorem toList_deref (m : Mark) (x : Node) :
    (p.expr (.deref m x)).toList = '*' :: (p.expr x).toList := by
  show ("*" ++ p.expr x).toList = _
  simp

theorem toList_index (m : Mark) (x i : Node) : (p.expr (.index m x i)).toList =
    (p.expr x).toList ++ '[' :: ((p.expr i).toList ++ [']']) := by
  show (p.expr x ++ "[" ++ p.expr i ++ "]").toList = _
  simp

theorem toList_select (m m' : Mark) (x : Node) (field : String) :
    (p.expr (.select m x (.name m' field))).toList =
      (p.expr x).toList ++ '.' :: field.toList := by
  show (p.expr x ++ "." ++ field).toList = _
  simp

theorem toList_call {f : Node} {args : List Node} (calls : p.scope.converts f args = false)
    (m : Mark) (spread : Bool) : (p.expr (.call m f args spread)).toList =
      (p.expr f).toList ++ '(' :: ((Text.join ", " (args.map p.expr)).toList ++ [')']) := by
  have shown : p.expr (.call m f args spread) =
      p.expr f ++ "(" ++ Text.join ", " (p.exprs args) ++ ")" := if_neg (ne_true_of_eq_false calls)
  rw [shown, exprs_eq_map]
  simp

/-- What a conversion is applied to, in parentheses if it does not bind tightly. -/
def castArgument (x : Node) : String := if bindsTightly x then p.expr x else "(" ++ p.expr x ++ ")"

theorem toList_convert {f x : Node} (converts : p.scope.converts f [x] = true) (m : Mark)
    (spread : Bool) : (p.expr (.call m f [x] spread)).toList =
      '(' :: ((cType f.unparen).toList ++ ')' :: (p.castArgument x).toList) := by
  have shown : p.expr (.call m f [x] spread) = if [x].all bindsTightly then
      "(" ++ cType f.unparen ++ ")" ++ Text.join ", " (p.exprs [x])
    else "(" ++ cType f.unparen ++ ")" ++ "(" ++ Text.join ", " (p.exprs [x]) ++ ")" :=
    if_pos converts
  rw [shown]
  by_cases tight : bindsTightly x = true <;>
    simp [exprs_eq_map, Text.join, castArgument, tight]

end CPrinter

theorem Silent.starts {p : CPrinter} {e : Node} (silent : Silent p e) :
    Starts (p.expr e).toList (firstSign? e) := by
  induction silent with
  | name m ident =>
      obtain ⟨c, cs, spelled, first, -⟩ := cName_spelled ident
      rw [CPrinter.toList_name, spelled]
      exact starts_word first cs
  | literal m kind constant =>
      rw [CPrinter.toList_number]
      exact constant.starts
  | paren m inner ih =>
      rw [CPrinter.toList_paren]
      constructor <;> simp [firstSign?]
  | sign m sign apart inner ih =>
      rw [CPrinter.toList_unary p sign]
      exact starts_sign sign _
  | address m head inner ih =>
      rw [CPrinter.toList_address]
      constructor <;> simp [firstSign?]
  | deref m inner ih =>
      rw [CPrinter.toList_deref]
      constructor <;> simp [firstSign?]
  | binary m op left right ihx ihy =>
      by_cases clears : op = .andNot
      · rw [clears, CPrinter.toList_andNot]
        exact ihx.append _
      · rw [CPrinter.toList_binary p clears]
        exact ihx.append _
  | index m head array place ihx ihi =>
      rw [firstSign?_head head] at ihx
      rw [CPrinter.toList_index]
      exact ihx.append _
  | select m m' head inner ident ih =>
      rw [firstSign?_head head] at ih
      rw [CPrinter.toList_select]
      exact ih.append _
  | call m spread head calls callee each ih =>
      rw [firstSign?_head head] at ih
      rw [CPrinter.toList_call p calls]
      exact ih.append _
  | convert m spread converts type inner ih =>
      rw [CPrinter.toList_convert p converts]
      constructor <;> simp [firstSign?]

/-! ## The tokens of their texts -/

/-- What may follow the text of an expression without going on with its last token. -/
def CPrinter.EndsAfter (p : CPrinter) (e : Node) (rest : List Char) : Prop :=
  if p.isHead e then EndsWord rest else EndsNumber rest

/-- The tokens of an expression are the same whatever follows, and close off all they hold. -/
structure Spelt (p : CPrinter) (e : Node) : Prop where
  ended : ∀ rest, p.EndsAfter e rest →
    lex ((p.expr e).toList ++ rest) = lex (p.expr e).toList ++ lex rest
  level : Level (lex (p.expr e).toList)

section Spelling

variable {p : CPrinter} {e x y : Node}

theorem endsAfter_of_endsNumber {rest : List Char} (ends : EndsNumber rest) : p.EndsAfter e rest := by
  unfold CPrinter.EndsAfter
  split
  · exact ends.endsWord
  · exact ends

theorem endsAfter_head {rest : List Char} (head : p.isHead e = true) (ends : EndsWord rest) :
    p.EndsAfter e rest := by
  rwa [CPrinter.EndsAfter, if_pos head]

theorem endsNumber_of_endsAfter {rest : List Char} (other : p.isHead e = false)
    (ends : p.EndsAfter e rest) : EndsNumber rest := by
  rwa [CPrinter.EndsAfter, if_neg (by simp [other])] at ends

theorem Spelt.before (spelt : Spelt p e) {rest : List Char} (ends : EndsNumber rest) :
    lex ((p.expr e).toList ++ rest) = lex (p.expr e).toList ++ lex rest :=
  spelt.ended rest (endsAfter_of_endsNumber ends)

/-- It is enough to tell the tokens. -/
theorem Spelt.of_tokens (ts : List Token) (tokens : ∀ rest, p.EndsAfter e rest →
    lex ((p.expr e).toList ++ rest) = ts ++ lex rest) (level : Level ts) : Spelt p e := by
  have ended : EndsNumber [] := by rintro c ⟨⟩
  have alone := tokens [] (endsAfter_of_endsNumber ended)
  rw [C.lex_nil, List.append_nil, List.append_nil] at alone
  exact ⟨fun rest ends => by rw [tokens rest ends, alone], alone ▸ level⟩

theorem Spelt.parens (spelt : Spelt p x) (rest : List Char) :
    lex (('(' :: ((p.expr x).toList ++ [')'])) ++ rest) =
      (openParen :: (lex (p.expr x).toList ++ [closeParen])) ++ lex rest := by
  have whole : ('(' :: ((p.expr x).toList ++ [')'])) ++ rest =
      '(' :: ((p.expr x).toList ++ ')' :: rest) := by
    simp
  rw [whole, C.lex_lone _ (by decide), spelt.before (endsNumber_closing _), C.lex_lone _ (by decide)]
  simp [openParen, closeParen]

/-- What is cast stands as it is, or in parentheses. -/
theorem Spelt.castArgument (spelt : Spelt p x) : ∃ ts, Level ts ∧ ∀ rest, EndsNumber rest →
    lex ((p.castArgument x).toList ++ rest) = ts ++ lex rest := by
  by_cases tight : CPrinter.bindsTightly x = true
  · have text : p.castArgument x = p.expr x := by simp [CPrinter.castArgument, tight]
    exact ⟨_, spelt.level, fun rest ends => by rw [text, spelt.before ends]⟩
  · have text : (p.castArgument x).toList = '(' :: ((p.expr x).toList ++ [')']) := by
      simp [CPrinter.castArgument, tight]
    exact ⟨_, spelt.level.parens, fun rest _ => by rw [text, spelt.parens rest]⟩

/-- A sign before an expression. -/
theorem Spelt.prefixed (spelt : Spelt p x) (other : p.isHead e = false) (sign : List Char)
    (text : (p.expr e).toList = sign ++ (p.expr x).toList) (plain : C.isPlain (.mark sign) = true)
    (starts : ∀ rest, lex (sign ++ ((p.expr x).toList ++ rest)) =
      .mark sign :: lex ((p.expr x).toList ++ rest)) : Spelt p e := by
  refine .of_tokens _ (fun rest ends => ?_) ((C.level_plain plain).append spelt.level)
  rw [text, List.append_assoc, starts, spelt.before (endsNumber_of_endsAfter other ends)]
  rfl

/-- Two expressions with plain tokens between them. -/
theorem Spelt.join (left : Spelt p x) (right : Spelt p y) (other : p.isHead e = false)
    (between : List Char) (ts : List Token)
    (text : (p.expr e).toList = (p.expr x).toList ++ ' ' :: (between ++ (p.expr y).toList))
    (middle : ∀ rest, lex (between ++ ((p.expr y).toList ++ rest)) =
      ts ++ lex ((p.expr y).toList ++ rest))
    (plain : Level ts) : Spelt p e := by
  refine .of_tokens _ (fun rest ends => ?_) (left.level.append (plain.append right.level))
  have whole : (p.expr e).toList ++ rest =
      (p.expr x).toList ++ ' ' :: (between ++ ((p.expr y).toList ++ rest)) := by
    simp [text]
  rw [whole, left.before (endsNumber_space _), C.lex_space, middle,
    right.before (endsNumber_of_endsAfter other ends)]
  simp

/-- Texts with commas between them. -/
theorem lex_join {texts : List String} (each : ∀ t ∈ texts, ∀ rest, EndsNumber rest →
    lex (t.toList ++ rest) = lex t.toList ++ lex rest) {rest : List Char} (ends : EndsNumber rest) :
    lex ((Text.join ", " texts).toList ++ rest) =
      commas (texts.map fun t => lex t.toList) ++ lex rest := by
  induction texts with
  | nil => rfl
  | cons t texts ih =>
      have first := each t List.mem_cons_self
      cases texts with
      | nil => simpa [Text.join, commas] using first rest ends
      | cons next texts =>
          have later := ih fun t member => each t (List.mem_cons_of_mem _ member)
          have whole : (Text.join ", " (t :: next :: texts)).toList ++ rest =
              t.toList ++ ',' :: ' ' :: ((Text.join ", " (next :: texts)).toList ++ rest) := by
            simp [Text.join]
          have stop : EndsNumber (',' :: ' ' :: ((Text.join ", " (next :: texts)).toList ++ rest)) := by
            rintro c ⟨⟩
            decide
          rw [whole, first _ stop, C.lex_lone _ (by decide), C.lex_space, later]
          simp [commas, comma]

/-- Brackets after an expression that may have them, and between the brackets what `inner` tells. -/
theorem Spelt.bracketed (spelt : Spelt p x) (head : p.isHead x = true) {o c : Char}
    {text : List Char} {inner : List Token} (shown : (p.expr e).toList = (p.expr x).toList ++ o :: (text ++ [c]))
    (marks : o ∈ ['(', '['] ∧ c ∈ [')', ']'])
    (between : ∀ rest, lex (text ++ c :: rest) = inner ++ lex (c :: rest)) (fits : Inner inner) :
    Spelt p e := by
  obtain ⟨opened, closed, lexO, lexC⟩ : C.opens (.mark [o]) = true ∧
      (C.closes (.mark [c]) = true ∧ C.opens (.mark [c]) = false) ∧
      (∀ rest, lex (o :: rest) = .mark [o] :: lex rest) ∧
      ∀ rest, lex (c :: rest) = .mark [c] :: lex rest := by
    simp only [List.mem_cons, List.not_mem_nil, or_false] at marks
    obtain ⟨rfl | rfl, rfl | rfl⟩ := marks <;>
      exact ⟨by decide, by decide, fun rest => C.lex_lone rest (by decide),
        fun rest => C.lex_lone rest (by decide)⟩
  have word : ∀ rest, EndsWord (o :: rest) := by
    rintro rest d ⟨⟩
    simp only [List.mem_cons, List.not_mem_nil, or_false] at marks
    obtain ⟨rfl | rfl, -⟩ := marks <;> decide
  refine .of_tokens (lex (p.expr x).toList ++ .mark [o] :: (inner ++ [Token.mark [c]]))
    (fun rest _ => ?_) (spelt.level.append (fits.level opened closed.1 closed.2))
  have whole : (p.expr e).toList ++ rest = (p.expr x).toList ++ o :: (text ++ c :: rest) := by
    simp [shown]
  rw [whole, spelt.ended _ (endsAfter_head head (word _)), lexO, between, lexC]
  simp

end Spelling

/-! ### Signs before an operand -/

/-- An ampersand is a mark of its own unless it meets itself or an equals sign. -/
theorem lex_ampersand {rest : List Char} (apart : ∀ d ∈ rest.head?, d ≠ '&' ∧ d ≠ '=') :
    lex ('&' :: rest) = .mark ['&'] :: lex rest := by
  have alone : C.tokenAt '&' rest = (some (.mark ['&']), 0) := by
    cases rest with
    | nil => rfl
    | cons d rest =>
        obtain ⟨self, equals⟩ := apart d rfl
        simp [C.tokenAt, Text.isDecimal, isWordChar, C.isSpace, C.markTail, C.longMarks, self.symm,
          equals.symm, Char.isAlphanum]
  exact C.lex_cons '&' [] rest _ alone

/-- A star is a mark of its own unless an equals sign follows. -/
theorem lex_star {rest : List Char} (apart : ∀ d ∈ rest.head?, d ≠ '=') :
    lex ('*' :: rest) = .mark ['*'] :: lex rest := by
  have alone : C.tokenAt '*' rest = (some (.mark ['*']), 0) := by
    cases rest with
    | nil => rfl
    | cons d rest =>
        have equals := apart d rfl
        simp [C.tokenAt, Text.isDecimal, isWordChar, C.isSpace, C.markTail, C.longMarks, equals.symm,
          Char.isAlphanum]
  exact C.lex_cons '*' [] rest _ alone

/-- A point before a name is a mark of its own. -/
theorem lex_point {c : Char} (cs : List Char) (word : isWordChar c = true)
    (letter : Text.isDecimal c = false) :
    lex ('.' :: c :: cs) = .mark ['.'] :: lex (c :: cs) := by
  have other : c ≠ '.' := by
    rintro rfl
    exact absurd word (by decide)
  have point : Text.isDecimal '.' = false ∧ isWordChar '.' = false := by decide
  have alone : C.tokenAt '.' (c :: cs) = (some (.mark ['.']), 0) := by
    simp [C.tokenAt, letter, point, C.isSpace, C.markTail, C.longMarks, other.symm]
  exact C.lex_cons '.' [] (c :: cs) _ alone

/-- What a bracket may follow starts with a word or a parenthesis. -/
theorem Silent.head_starts {p : CPrinter} {e : Node} (silent : Silent p e)
    (head : p.isHead e = true) :
    ∃ c cs, (p.expr e).toList = c :: cs ∧ (isWordChar c = true ∨ c = '(') := by
  induction silent with
  | name m ident =>
      obtain ⟨c, cs, spelled, first, -⟩ := cName_spelled ident
      exact ⟨c, cs, (p.toList_name m _).trans spelled, Or.inl first⟩
  | paren m inner => exact ⟨_, _, p.toList_paren m _, Or.inr rfl⟩
  | index m inner _ _ ih =>
      obtain ⟨c, cs, text, first⟩ := ih inner
      exact ⟨c, _, by rw [CPrinter.toList_index, text]; rfl, first⟩
  | select m m' inner _ _ ih =>
      obtain ⟨c, cs, text, first⟩ := ih inner
      exact ⟨c, _, by rw [CPrinter.toList_select, text]; rfl, first⟩
  | call m spread inner calls _ _ ih =>
      obtain ⟨c, cs, text, first⟩ := ih inner
      exact ⟨c, _, by rw [CPrinter.toList_call p calls, text]; rfl, first⟩
  | convert m spread converts => exact ⟨_, _, p.toList_convert converts m spread, Or.inr rfl⟩
  | literal | sign | address | deref | binary => cases head

theorem Silent.spelt {p : CPrinter} {e : Node} (silent : Silent p e) : Spelt p e := by
  induction silent with
  | @name m text ident =>
      obtain ⟨c, cs, spelled, first, letter, word⟩ := cName_spelled ident
      refine .of_tokens [.name (cName text)] (fun rest ends => ?_) (C.level_plain rfl)
      rw [CPrinter.toList_name, spelled]
      exact C.lex_name first letter word ends
  | literal m kind constant =>
      obtain ⟨t, other, tokens⟩ := constant.single
      refine .of_tokens [t] (fun rest ends => ?_) (C.level_plain (C.isPlain_of_not_mark other))
      rw [CPrinter.toList_number]
      exact tokens rest ends
  | @paren m x inner ih =>
      refine .of_tokens _ (fun rest _ => ?_) ih.level.parens
      rw [CPrinter.toList_paren]
      exact ih.parens rest
  | @sign m op op' x sign apart inner ih =>
      have plain : C.isPlain (.mark op'.mark) = true := by
        cases op <;> cases sign <;> decide
      exact ih.prefixed rfl _ (CPrinter.toList_unary p sign m x) plain fun rest =>
        lex_prefixOp sign (inner.starts.append rest) apart
  | @address m x head inner ih =>
      obtain ⟨c, cs, text, first⟩ := inner.head_starts head
      refine ih.prefixed rfl ['&'] (p.toList_address m x) (by decide) fun rest => ?_
      refine lex_ampersand fun d isFirst => ?_
      rw [text] at isFirst
      obtain rfl : c = d := Option.some.inj isFirst
      constructor
      · rintro rfl
        exact absurd first (by decide)
      · rintro rfl
        exact absurd first (by decide)
  | @deref m x inner ih =>
      refine ih.prefixed rfl ['*'] (p.toList_deref m x) (by decide) fun rest => ?_
      exact lex_star fun d isFirst => ((inner.starts.append rest).plain d isFirst).1
  | @binary m op x y left right ihx ihy =>
      by_cases clears : op = .andNot
      · subst clears
        have marks : Level [.mark ['&'], .mark ['~']] :=
          (C.level_plain (t := .mark ['&']) (by decide)).append (C.level_plain (t := .mark ['~']) (by decide))
        refine ihx.join ihy rfl ['&', ' ', '~'] _ (p.toList_andNot m x y) ?_ marks
        intro rest
        have ampersand := lex_binaryOp (show BinaryOp.bitAnd ≠ .andNot by decide)
          ('~' :: ((p.expr y).toList ++ rest))
        rw [C.lex_lone _ (by decide)] at ampersand
        exact ampersand
      · have plain : C.isPlain (.mark op.text.toList) = true := by
          cases op <;> first | exact absurd rfl clears | decide
        refine ihx.join ihy rfl (op.text.toList ++ [' ']) [.mark op.text.toList] ?_ ?_ (C.level_plain plain)
        · simp [CPrinter.toList_binary p clears]
        · intro rest
          have mark := lex_binaryOp clears ((p.expr y).toList ++ rest)
          simpa using mark
  | @index m x i head array place ihx ihi =>
      refine ihx.bracketed head (p.toList_index m x i) (by simp) (fun rest => ?_) ihi.level.inner
      exact ihi.before (by rintro c ⟨⟩; decide)
  | @select m m' x field head inner ident ih =>
      obtain ⟨c, cs, spelled, first, letter, word⟩ := identifier_spelled ident
      have level : Level [.mark ['.'], .name field.toList] :=
        (C.level_plain (t := .mark ['.']) (by decide)).append (C.level_plain (t := .name _) rfl)
      refine .of_tokens _ (fun rest ends => ?_) (ih.level.append level)
      have whole : (p.expr (.select m x (.name m' field))).toList ++ rest =
          (p.expr x).toList ++ '.' :: c :: (cs ++ rest) := by
        simp [CPrinter.toList_select, spelled]
      have stop : EndsWord ('.' :: c :: (cs ++ rest)) := by
        rintro d ⟨⟩
        decide
      rw [whole, ih.ended _ (endsAfter_head head stop), lex_point _ first letter,
        C.lex_name first letter word ends, spelled]
      simp
  | @call m f args spread head calls callee each ihf ihs =>
      have texts : ∀ t ∈ args.map p.expr, ∀ rest, EndsNumber rest →
          lex (t.toList ++ rest) = lex t.toList ++ lex rest := by
        intro t member rest ends
        obtain ⟨a, among, rfl⟩ := List.mem_map.mp member
        exact (ihs a among).before ends
      have fits : Inner (commas ((args.map p.expr).map fun t => lex t.toList)) := by
        refine C.inner_commas fun run member => ?_
        obtain ⟨t, among, rfl⟩ := List.mem_map.mp member
        obtain ⟨a, isArg, rfl⟩ := List.mem_map.mp among
        exact (ihs a isArg).level.inner
      refine ihf.bracketed head (p.toList_call calls m spread) (by simp) (fun rest => ?_) fits
      exact lex_join texts (endsNumber_closing rest)
  | @convert m f x spread converts type inner ih =>
      have notHead : p.isHead (.call m f [x] spread) = false := by simp [CPrinter.isHead, converts]
      have cast : Level (openParen :: (lex (cType f.unparen).toList ++ [closeParen])) :=
        (C.inner_of_contained type.inside).level (by decide) (by decide) (by decide)
      obtain ⟨ts, level, argument⟩ := ih.castArgument
      refine .of_tokens _ (fun rest ends => ?_) (cast.append level)
      have whole : (p.expr (.call m f [x] spread)).toList ++ rest =
          '(' :: ((cType f.unparen).toList ++ ')' :: ((p.castArgument x).toList ++ rest)) := by
        simp [p.toList_convert converts]
      rw [whole, C.lex_lone _ (by decide), type.ended, C.lex_lone _ (by decide),
        argument rest (endsNumber_of_endsAfter notHead ends)]
      simp [openParen, closeParen]

theorem isConstant_integer {text : String} (integer : isInteger text = true) : IsConstant text := by
  obtain ⟨c, cs, spelled, digit, word⟩ := integer_spelled integer
  refine ⟨?_, .number text.toList, nofun, fun rest ends => lex_integer integer ends⟩
  rw [spelled]
  exact starts_word (isWordChar_of_isDecimal digit) cs

/-! ## Assignments -/

namespace CPrinter

variable (p : CPrinter)

/-- The tokens of a target and of its value. -/
def partTokens (part : Node × Node) : List Token × List Token :=
  (lex (p.expr part.1).toList, lex (p.expr part.2).toList)

variable {p}

/-- A part is its target, an equals sign and its value. -/
theorem lex_assignPart {t v : Node} (target : Silent p t) (value : Silent p v) {rest : List Char}
    (ends : EndsNumber rest) : lex ((p.assignPart .set t v).toList ++ rest) =
      (lex (p.expr t).toList ++ equals :: lex (p.expr v).toList) ++ lex rest := by
  have mark (rest : List Char) : lex ('=' :: ' ' :: rest) = equals :: lex rest := by
    rw [← C.lex_space rest]
    exact C.lex_cons '=' [] (' ' :: rest) (some equals) rfl
  have whole : (p.assignPart .set t v).toList ++ rest =
      (p.expr t).toList ++ ' ' :: '=' :: ' ' :: ((p.expr v).toList ++ rest) := by
    simp [assignPart, AssignOp.text]
  rw [whole, target.spelt.before (endsNumber_space _), C.lex_space, mark, value.spelt.before ends]
  simp

/-- The text of an assignment of values is that of its parts with commas between them. -/
theorem lex_assign {targets values : List Node} (same : targets.length = values.length)
    (silent : ∀ part ∈ targets.zip values, Silent p part.1 ∧ Silent p part.2) :
    lex (p.assign .set targets values).toList =
      commas (((targets.zip values).map p.partTokens).map assignment) := by
  have ended : EndsNumber [] := by rintro c ⟨⟩
  have alone (part : Node × Node) (member : part ∈ targets.zip values) :
      lex (p.assignPart .set part.1 part.2).toList = assignment (p.partTokens part) := by
    obtain ⟨target, value⟩ := silent part member
    have whole := lex_assignPart target value ended
    rwa [C.lex_nil, List.append_nil, List.append_nil] at whole
  have text : p.assign .set targets values =
      Text.join ", " ((targets.zip values).map fun part => p.assignPart .set part.1 part.2) := by
    simp [assign, same]
  have each : ∀ t ∈ (targets.zip values).map fun part => p.assignPart .set part.1 part.2,
      ∀ rest, EndsNumber rest → lex (t.toList ++ rest) = lex t.toList ++ lex rest := by
    intro t among rest ends
    obtain ⟨part, member, rfl⟩ := List.mem_map.mp among
    obtain ⟨target, value⟩ := silent part member
    rw [lex_assignPart target value ends, alone part member]
    rfl
  have joined := lex_join each ended
  rw [C.lex_nil, List.append_nil, List.append_nil, ← text, List.map_map] at joined
  rw [joined, List.map_map]
  exact congrArg commas (List.map_congr_left alone)

end CPrinter

/-- C reads the print of an assignment as its targets with their values, in order. -/
theorem readAssignments?_assign (u : SourceUnit) (m : Mark) {targets values : List Node}
    (same : targets.length = values.length) (several : targets ≠ [])
    (silent : ∀ x ∈ targets ++ values, Silent (u.printer (.assign m .set targets values)) x) :
    C.readAssignments? (lex (u.print (.assign m .set targets values)).toList) =
      some ((targets.zip values).map (u.printer (.assign m .set targets values)).partTokens) := by
  generalize printer : u.printer (.assign m .set targets values) = p at silent ⊢
  have text : u.print (.assign m .set targets values) = p.assign .set targets values := by
    rw [SourceUnit.print, printer]
    rfl
  have each (part : Node × Node) (member : part ∈ targets.zip values) :
      Silent p part.1 ∧ Silent p part.2 := by
    obtain ⟨isTarget, isValue⟩ := List.of_mem_zip member
    exact ⟨silent _ (List.mem_append_left _ isTarget), silent _ (List.mem_append_right _ isValue)⟩
  rw [text, CPrinter.lex_assign same each]
  apply C.readAssignments?_commas
  · intro none
    have short : (targets.zip values).length = 0 := by simpa using congrArg List.length none
    rw [List.length_zip, ← same, Nat.min_self] at short
    exact several (List.eq_nil_of_length_eq_zero short)
  · intro tokens member
    obtain ⟨part, among, rfl⟩ := List.mem_map.mp member
    exact ⟨(each part among).1.spelt.level, (each part among).2.spelt.level⟩

end Retarget
