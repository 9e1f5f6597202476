/-
# Proofs.ControlTransfer -- where statements transfer control to

`Control` is what statements do besides their straight-line text: the branches with their targets,
the arms of conditionals, the bodies of loops, and the clauses of switches with a note whether a
clause runs on into the next one.  A target is counted outwards over the loops and switches around
the branch.

C's statements and the source's have a control each.  In C a branch targets the innermost statement
of its kind, and the statements of a switch fall apart into clauses at their labels; a clause leaves
the switch if a break ends it.  In the source a branch may name its target and a clause runs on only
if a fallthrough ends it.  `Convention.printed` is the source read in C's way, as the printer writes it.
-/
import Retarget.Proofs.CStatement
import Retarget.Kernel.CText

namespace Retarget

open Retarget.Source (Node Mark BranchKind)

set_option autoImplicit false
set_option linter.dupNamespace false

/-! ## Control -/

namespace C

inductive Control where
  | token (t : Token)
  | label (name : List Char)
  | leave (target : Option Nat)
  | again (target : Option Nat)
  | block (items : List Control)
  | choose (head : List Token) (yes no : List Control)
  | loop (head : List Token) (body : List Control)
  | switch (head : List Token) (clauses : List Control)
  /-- Statements under their labels; no value stands for the default label. -/
  | clause (values : List (Option (List Token))) (body : List Control) (runsOn : Bool)
  /-- The label of a clause whose statements are not told apart yet. -/
  | caseLabel (value : Option (List Token))
deriving Inhabited

namespace Control

def isCase : Control → Bool
  | caseLabel _ => true
  | _ => false

/-- The statements of a clause and whether it runs on: a break at its end leaves the switch. -/
def ending : List Control → List Control × Bool
  | [] => ([], true)
  | [leave (some 0)] => ([], false)
  | c :: cs => (c :: (ending cs).1, (ending cs).2)

/-- A label before what stands before the next label and the clauses after it.  Right before
another label it is a label of the same clause. -/
def underLabel (value : Option (List Token)) : List Control × List Control → List Control × List Control
  | ([], clause values body runsOn :: clauses) => ([], clause (value :: values) body runsOn :: clauses)
  | (body, clauses) => ([], clause [value] (ending body).1 (ending body).2 :: clauses)

/-- What stands before the first label, and the clauses. -/
def group : List Control → List Control × List Control
  | [] => ([], [])
  | caseLabel value :: cs => underLabel value (group cs)
  | c :: cs => (c :: (group cs).1, (group cs).2)

/-- The statements between braces, or a single one. -/
def unbraced : List Control → List Control
  | [block items] => items
  | cs => cs

end Control

/-! ## C -/

/-- The innermost loop, or for a break the innermost loop or switch. -/
def innermost (loops : List Bool) (again : Bool) : Option Nat :=
  loops.findIdx? fun loop => !again || loop

mutual

/-- The control of a statement; `loops` tells which of the statements around it are loops. -/
def Stmt.control (loops : List Bool) : Stmt → List Control
  | .run ts => (ts ++ [semicolon]).map .token
  | .exit => [.leave (innermost loops false)]
  | .next => [.again (innermost loops true)]
  | .label name => [.label name]
  | .caseLabel value => [.caseLabel value]
  | .block items => [.block (controlAll loops items)]
  | .choose head yes no =>
    [.choose head (Control.unbraced (Stmt.control loops yes)) (controlElse loops no)]
  | .loop _ head body => [.loop head (Control.unbraced (Stmt.control (true :: loops) body))]
  | .switch head body =>
    let (unreached, clauses) := Control.group (Control.unbraced (Stmt.control (false :: loops) body))
    [.switch head (unreached ++ clauses)]

def controlAll (loops : List Bool) : List Stmt → List Control
  | [] => []
  | s :: ss => Stmt.control loops s ++ controlAll loops ss

def controlElse (loops : List Bool) : Option Stmt → List Control
  | none => []
  | some s => Control.unbraced (Stmt.control loops s)

end

mutual

/-- Every head has something in it, as C's grammar asks. -/
def Stmt.headed : Stmt → Bool
  | .block items => headedAll items
  | .choose head yes no => !head.isEmpty && Stmt.headed yes && headedElse no
  | .loop _ head body | .switch head body => !head.isEmpty && Stmt.headed body
  | _ => true

def headedAll : List Stmt → Bool
  | [] => true
  | s :: ss => Stmt.headed s && headedAll ss

def headedElse : Option Stmt → Bool
  | none => true
  | some s => Stmt.headed s

end

/-- The control of the block that a text is in C. -/
def readControl? (text : String) : Option (List Control) :=
  match readBlock? (lex text.toList) with
  | some items => if headedAll items then some (controlAll [] items) else none
  | none => none

theorem controlAll_append (loops : List Bool) (ss ss' : List Stmt) :
    controlAll loops (ss ++ ss') = controlAll loops ss ++ controlAll loops ss' := by
  induction ss with
  | nil => rfl
  | cons s ss ih => rw [List.cons_append, controlAll, controlAll, ih, List.append_assoc]

theorem headedAll_append (ss ss' : List Stmt) :
    headedAll (ss ++ ss') = (headedAll ss && headedAll ss') := by
  induction ss with
  | nil => rfl
  | cons s ss ih => rw [List.cons_append, headedAll, headedAll, ih, Bool.and_assoc]

/-! ### Clauses -/

namespace Control

theorem ending_break (body : List Control) : ending (body ++ [leave (some 0)]) = (body, false) := by
  induction body with
  | nil => rfl
  | cons c body ih =>
      have more : body ++ [leave (some 0)] ≠ [] := by simp
      rw [List.cons_append, ending, ih]
      intro _ nothing
      exact absurd nothing more

theorem group_cons {c : Control} (plain : c.isCase = false) (cs : List Control) :
    group (c :: cs) = (c :: (group cs).1, (group cs).2) := by
  cases c <;> first | rfl | cases plain

theorem group_append {cs : List Control} (plain : ∀ c ∈ cs, c.isCase = false) (rest : List Control) :
    group (cs ++ rest) = (cs ++ (group rest).1, (group rest).2) := by
  induction cs with
  | nil => rfl
  | cons c cs ih =>
      have tail := ih fun c member => plain c (List.mem_cons_of_mem _ member)
      rw [List.cons_append, group_cons (plain c List.mem_cons_self), tail]
      rfl

/-- A label before statements is the label of a clause of its own. -/
theorem underLabel_body (value : Option (List Token)) {body : List Control} (clauses : List Control)
    (some_body : body ≠ []) :
    underLabel value (body, clauses) =
      ([], clause [value] (ending body).1 (ending body).2 :: clauses) := by
  cases body with
  | nil => exact absurd rfl some_body
  | cons c body => rfl

/-- Labels, statements and a break are one clause that leaves the switch. -/
theorem group_clause {value : Option (List Token)} {values : List (Option (List Token))}
    {body rest clauses : List Control} (plain : ∀ c ∈ body, c.isCase = false)
    (more : group rest = ([], clauses)) :
    group ((value :: values).map caseLabel ++ (body ++ leave (some 0) :: rest)) =
      ([], clause (value :: values) body false :: clauses) := by
  induction values generalizing value with
  | nil =>
      have tail : group (body ++ leave (some 0) :: rest) = (body ++ [leave (some 0)], clauses) := by
        rw [group_append plain, group_cons rfl, more]
      rw [List.map_cons, List.map_nil, List.singleton_append, group, tail,
        underLabel_body value clauses (by simp), ending_break]
  | cons value' values ih => rw [List.map_cons, List.cons_append, group, ih]; rfl

end Control

end C

/-! ## The source -/

open C (Control lex semicolon)

/-- A loop or a switch around a statement, with the label right before it. -/
structure Frame where
  loop : Bool
  label : Option String

/-- The statement that a branch targets: the innermost one of its kind, or the one it names. -/
def target (frames : List Frame) (again : Bool) (label : Option String) : Option Nat :=
  frames.findIdx? fun f => (!again || f.loop) && label.all fun name => f.label == some name

def unlabelled : Node → Node
  | .labeled _ _ s => unlabelled s
  | n => n

def isFall : Node → Bool
  | .branch _ .fall _ => true
  | _ => false

def isEmptyStmt : Node → Bool
  | .empty _ => true
  | _ => false

/-- The last statement of a clause, labels apart, sends control on into the next clause. -/
def endsInFall (body : List Node) : Bool :=
  ((body.filter (!isEmptyStmt ·)).getLast?).any fun n => isFall (unlabelled n)

/-- The source's own rules, or the source read as it is printed. -/
inductive Convention where
  | source | printed
deriving DecidableEq, Repr

namespace Convention

def target : Convention → List Frame → Bool → Option String → Option Nat
  | source, frames, again, label => Retarget.target frames again label
  | printed, frames, again, _ => Retarget.target frames again none

def runsOn : Convention → List Node → Bool
  | source, body => endsInFall body
  | printed, _ => false

end Convention

namespace CPrinter

variable (p : CPrinter)

/-- A statement that transfers control nowhere. -/
def straight (n : Node) : List Control :=
  if p.simple n == "" then [] else (lex (p.simple n).toList ++ [semicolon]).map .token

/-- The statement in front of a condition. -/
def before : Option Node → List Control
  | none => []
  | some n => p.straight n

def loopHead : Option Node → Option Node → Option Node → String
  | none, some c, none => p.expr c
  | init, cond, post =>
    (init.map p.simple).getD "" ++ "; " ++ p.exprOpt cond ++ "; " ++ (post.map p.simple).getD ""

/-- A loop with only a condition is no counted one. -/
def counted : Option Node → Option Node → Option Node → Bool
  | none, some _, none => false
  | _, _, _ => true

def rangeHead (key : Option Node) (x : Node) : String :=
  let iter := (key.map p.expr).getD "_i"
  "long " ++ iter ++ " = 0; " ++ iter ++ " < " ++ p.expr x ++ "; " ++ iter ++ "++"

/-- The labels of a clause. -/
def caseValues (values : List Node) : List (Option (List C.Token)) :=
  if values.isEmpty then [none] else values.map fun v => some (lex (p.expr v).toList)

/-- What is the else-arm of a conditional, and what follows the conditional instead: an else that is
printed right before another conditional takes the first statement only. -/
def armSplit (rule : Convention) (orElse : Option Node) (whole : List Control) :
    List Control × List Control :=
  match rule, orElse with
  | .printed, some (.ifStmt _ init _ _ _) => whole.splitAt (max 1 (p.before init).length)
  | _, _ => (whole, [])

mutual

/-- The control of a statement; `label` stands right before it. -/
def control (rule : Convention) (frames : List Frame) (label : Option String) : Node → List Control
  | .block _ stmts => [.block (controlAll rule frames stmts)]
  | .ifStmt _ init cond body orElse =>
    p.before init ++
      .choose (lex (p.expr cond).toList) (controlInner rule frames body)
        (p.armSplit rule orElse (controlElse rule frames orElse)).1 ::
      (p.armSplit rule orElse (controlElse rule frames orElse)).2
  | .forStmt _ init cond post body =>
    [.loop (lex (p.loopHead init cond post).toList) (controlInner rule (⟨true, label⟩ :: frames) body)]
  | .rangeStmt _ key _ x body =>
    [.loop (lex (p.rangeHead key x).toList) (controlInner rule (⟨true, label⟩ :: frames) body)]
  | .switchStmt _ init tag body =>
    p.before init ++
      [.switch (lex (p.exprOpt tag).toList) (controlClauses rule (⟨false, label⟩ :: frames) body)]
  | .labeled _ l s => .label (l.name?.getD "").toList :: control rule frames l.name? s
  | .branch _ .exit l => [.leave (rule.target frames false (l.bind Node.name?))]
  | .branch _ .next l => [.again (rule.target frames true (l.bind Node.name?))]
  | n => p.straight n

def controlAll (rule : Convention) (frames : List Frame) : List Node → List Control
  | [] => []
  | n :: ns => control rule frames none n ++ controlAll rule frames ns

def controlInner (rule : Convention) (frames : List Frame) : Node → List Control
  | .block _ stmts => controlAll rule frames stmts
  | _ => []

def controlElse (rule : Convention) (frames : List Frame) : Option Node → List Control
  | none => []
  | some (.block _ stmts) => controlAll rule frames stmts
  | some n => control rule frames none n

def controlClauses (rule : Convention) (frames : List Frame) : Node → List Control
  | .block _ list => controlClauseAll rule frames list
  | _ => []

def controlClauseAll (rule : Convention) (frames : List Frame) : List Node → List Control
  | [] => []
  | .caseClause _ values body :: rest =>
    .clause (p.caseValues values) (controlAll rule frames body) (rule.runsOn body) ::
      controlClauseAll rule frames rest
  | _ :: rest => controlClauseAll rule frames rest

end

/-- A conditional after an else has no statement in front of its condition. -/
def startsAtTest : Node → Bool
  | .ifStmt _ init _ _ _ => (p.before init).isEmpty
  | _ => true

mutual

/-- Every branch targets the innermost statement of its kind, no clause ends in a fallthrough, every
switch has a value, and no conditional after an else has a statement of its own in front. -/
def faithful (frames : List Frame) (label : Option String) : Node → Bool
  | .block _ stmts => faithfulAll frames stmts
  | .ifStmt _ _ _ body orElse => faithfulInner frames body && faithfulElse frames orElse
  | .forStmt _ _ _ _ body => faithfulInner (⟨true, label⟩ :: frames) body
  | .rangeStmt _ _ _ _ body => faithfulInner (⟨true, label⟩ :: frames) body
  | .switchStmt _ _ tag body => tag.isSome && faithfulClauses (⟨false, label⟩ :: frames) body
  | .labeled _ l s => faithful frames l.name? s
  | .branch _ .exit l => target frames false (l.bind Node.name?) == target frames false none
  | .branch _ .next l => target frames true (l.bind Node.name?) == target frames true none
  | _ => true

def faithfulAll (frames : List Frame) : List Node → Bool
  | [] => true
  | n :: ns => faithful frames none n && faithfulAll frames ns

def faithfulInner (frames : List Frame) : Node → Bool
  | .block _ stmts => faithfulAll frames stmts
  | _ => true

def faithfulElse (frames : List Frame) : Option Node → Bool
  | none => true
  | some (.block _ stmts) => faithfulAll frames stmts
  | some n => p.startsAtTest n && faithful frames none n

def faithfulClauses (frames : List Frame) : Node → Bool
  | .block _ list => faithfulClauseAll frames list
  | _ => true

def faithfulClauseAll (frames : List Frame) : List Node → Bool
  | [] => true
  | .caseClause _ _ body :: rest =>
    !endsInFall body && faithfulAll frames body && faithfulClauseAll frames rest
  | _ :: rest => faithfulClauseAll frames rest

end

end CPrinter

end Retarget
