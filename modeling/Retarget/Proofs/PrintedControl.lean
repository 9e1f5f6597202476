/-
# Proofs.PrintedControl -- where printed statements transfer control to

C sees in a printed body the control of the body with every branch sent to the innermost statement
of its kind and every clause ended by a break: `printed_control`.  It is the control of the source
exactly if the body is `faithful`: `printed_control_iff`.  The printer loses the label of a branch
and the fallthrough of a clause, as `printed_fallthrough_leaves` shows.
-/
import Retarget.Proofs.PrintedStatement
import Retarget.Proofs.SpelledText

namespace Retarget

open Retarget.Source (Node Mark BranchKind AssignOp)
open Retarget.C (Control Stmt Token lex semicolon)

set_option autoImplicit false
set_option linter.dupNamespace false

/-! ## Statements without labels of clauses -/

def isCaseLabel : Stmt → Bool
  | .caseLabel _ => true
  | _ => false

theorem control_plain {s : Stmt} (plain : isCaseLabel s = false) (loops : List Bool) :
    ∀ c ∈ s.control loops, c.isCase = false := by
  intro c member
  cases s with
  | run ts =>
      obtain ⟨t, -, rfl⟩ := List.mem_map.mp member
      rfl
  | caseLabel value => cases plain
  | _ => rw [List.mem_singleton.mp member]; rfl

theorem controlAll_plain {ss : List Stmt} (plain : ∀ s ∈ ss, isCaseLabel s = false)
    (loops : List Bool) : ∀ c ∈ C.controlAll loops ss, c.isCase = false := by
  induction ss with
  | nil => exact fun c member => nomatch member
  | cons s ss ih =>
      intro c member
      rcases List.mem_append.mp member with here | later
      · exact control_plain (plain s List.mem_cons_self) loops c here
      · exact ih (fun s member => plain s (List.mem_cons_of_mem _ member)) c later

namespace Part

/-- Only a list of clauses has labels of clauses. -/
def NoCase : Part → List Stmt → Prop
  | clauses _, _ => True
  | _, ss => ∀ s ∈ ss, isCaseLabel s = false

end Part

theorem Forms.noCase {p : CPrinter} {part : Part} {ss : List Stmt} (forms : Forms p part ss) :
    part.NoCase ss := by
  induction forms with
  | noClause | clause => trivial
  | nil | silent | noElse | atTest | silentBefore => exact List.forall_mem_nil _
  | exit | next | block | loop | range | elseBlock | lineBefore =>
      exact List.forall_mem_singleton.mpr rfl
  | line => exact List.forall_mem_map.mpr fun _ _ => rfl
  | cons first rest ihFirst ihRest =>
      exact fun s member => (List.mem_append.mp member).elim (ihFirst s) (ihRest s)
  | labeled m m' ident free inner ih =>
      exact fun s member => (List.mem_cons.mp member).elim (fun same => same ▸ rfl) (ih s)
  | choose m m' before head yes no ihBefore ihYes ihNo =>
      intro s member
      rcases List.mem_append.mp member with first | member
      · exact ihBefore s first
      · rcases List.mem_cons.mp member with rfl | later
        · rfl
        · exact ihNo s (List.mem_of_mem_tail later)
  | switch m m' before head inner ihBefore ihInner =>
      intro s member
      rcases List.mem_append.mp member with first | member
      · exact ihBefore s first
      · exact List.mem_singleton.mp member ▸ rfl
  | elseIf inner ih => exact ih

/-! ## The control that C sees -/

theorem innermost_eq (frames : List Frame) (again : Bool) :
    C.innermost (frames.map (·.loop)) again = target frames again none := by
  simp [C.innermost, target, List.findIdx?_map, Function.comp_def]

theorem control_simple (p : CPrinter) (rule : Convention) (frames : List Frame) (label : Option String)
    {n : Node} (simple : isSimple n = true) : p.control rule frames label n = p.straight n := by
  unfold isSimple at simple
  split at simple <;> first | rfl | cases simple

theorem controlAll_labels (loops : List Bool) (values : List (Option (List Token))) :
    C.controlAll loops (values.map .caseLabel) = values.map .caseLabel := by
  induction values with
  | nil => rfl
  | cons value values ih => rw [List.map_cons, C.controlAll, ih]; rfl

/-- Every clause has a label. -/
theorem caseValues_cons (p : CPrinter) (values : List Node) :
    ∃ v vs, p.caseValues values = v :: vs := by
  cases values with
  | nil => exact ⟨_, _, rfl⟩
  | cons x xs => exact ⟨_, _, rfl⟩

namespace Part

/-- C sees the control of the part under `Convention.printed`. -/
def Seen (p : CPrinter) : Part → List Stmt → Prop
  | stmt n, ss => ∀ frames label,
      C.controlAll (frames.map (·.loop)) ss = p.control .printed frames label n
  | stmts ns, ss => ∀ frames,
      C.controlAll (frames.map (·.loop)) ss = p.controlAll .printed frames ns
  | clauses list, ss => ∀ (frames : List Frame) (label : Option String),
      Control.group (C.controlAll (false :: frames.map (·.loop)) ss) =
        ([], p.controlClauseAll .printed (⟨false, label⟩ :: frames) list)
  | otherwise orElse, arm => ∀ frames,
      (C.controlElse (frames.map (·.loop)) arm.head?, C.controlAll (frames.map (·.loop)) arm.tail) =
        p.armSplit .printed orElse (p.controlElse .printed frames orElse)
  | before init, ss => ∀ loops, C.controlAll loops ss = p.before init

end Part

theorem Forms.seen {p : CPrinter} {part : Part} {ss : List Stmt} (forms : Forms p part ss) :
    part.Seen p ss := by
  induction forms with
  | nil => exact fun frames => rfl
  | cons first rest ihFirst ihRest =>
      intro frames
      rw [C.controlAll_append, ihFirst frames none, ihRest frames]
      rfl
  | silent simple empty =>
      intro frames label
      rw [control_simple p _ _ _ simple, straight_empty p empty]
      rfl
  | line simple text spelled =>
      intro frames label
      rw [control_simple p _ _ _ simple, straight_line p text spelled, controlAll_runs]
  | exit m l =>
      intro frames label
      show [Control.leave (C.innermost _ false)] = [.leave (target frames false none)]
      rw [innermost_eq]
  | next m l =>
      intro frames label
      show [Control.again (C.innermost _ true)] = [.again (target frames true none)]
      rw [innermost_eq]
  | @labeled m m' text s ss ident free inner ih =>
      intro frames label
      rw [C.controlAll, ih frames (some text)]
      rfl
  | block m inner ih =>
      intro frames label
      show [Control.block _] = [.block _]
      rw [ih frames]
  | @choose m m' init orElse cond body first ss arm before head yes no ihBefore ihYes ihNo =>
      intro frames label
      have split := ihNo frames
      have yes : C.controlAll (frames.map (·.loop)) ss =
          p.controlInner .printed frames (.block m' body) := ihYes frames
      show _ = p.before init ++ Control.choose _ (p.controlInner .printed frames (.block m' body))
        (p.armSplit .printed orElse (p.controlElse .printed frames orElse)).1 :: _
      rw [C.controlAll_append, ihBefore, ← split, ← yes]
      rfl
  | @loop m m' init cond post body ss head inner ih =>
      intro frames label
      show [Control.loop _ (C.controlAll _ ss)] = [.loop _ _]
      have inner := ih (⟨true, label⟩ :: frames)
      rw [List.map_cons] at inner
      rw [inner]
      rfl
  | @range m m' key value x body ss head inner ih =>
      intro frames label
      show [Control.loop _ (C.controlAll _ ss)] = [.loop _ _]
      have inner := ih (⟨true, label⟩ :: frames)
      rw [List.map_cons] at inner
      rw [inner]
      rfl
  | @switch m m' init tag list first ss before head inner ihBefore ihInner =>
      intro frames label
      have clauses : Control.group (Control.unbraced
          (Stmt.control (false :: frames.map (·.loop)) (.block ss))) = _ := ihInner frames label
      rw [C.controlAll_append, ihBefore, C.controlAll, Stmt.control, clauses]
      rfl
  | noClause => exact fun frames label => rfl
  | @clause m values body rest ss more labels inner others ihInner ihOthers =>
      intro frames label
      have plain := controlAll_plain inner.noCase (false :: frames.map (·.loop))
      have within := ihInner (⟨false, label⟩ :: frames)
      have later := ihOthers frames label
      obtain ⟨v, vs, named⟩ := caseValues_cons p values
      have labelled : C.controlAll (false :: frames.map (·.loop)) (caseLabels p values) =
          (v :: vs).map .caseLabel := by
        rw [caseLabels, controlAll_labels, named]
      have leaves : C.controlAll (false :: frames.map (·.loop)) (.exit :: more) =
          .leave (some 0) :: C.controlAll (false :: frames.map (·.loop)) more := by
        simp [C.controlAll, Stmt.control, C.innermost, List.findIdx?_cons]
      rw [C.controlAll_append, C.controlAll_append, labelled, leaves,
        Control.group_clause plain later, ← named]
      rw [List.map_cons] at within
      rw [within]
      rfl
  | noElse => exact fun frames => rfl
  | elseBlock m inner ih =>
      intro frames
      show (C.controlAll _ _, []) = (_, [])
      rw [ih frames]
      rfl
  | @elseIf m init orElse cond body ss inner ih =>
      intro frames
      obtain ⟨s, more, rfl, -, takes⟩ := inner.conditional
      obtain ⟨single, size⟩ := takes (frames.map (·.loop))
      have whole : s.control (frames.map (·.loop)) ++ C.controlAll (frames.map (·.loop)) more =
          p.controlElse .printed frames (some (.ifStmt m init cond body orElse)) := ih frames none
      show (Control.unbraced (s.control _), C.controlAll _ more) = List.splitAt _ _
      rw [single, ← whole, ← size, List.splitAt_eq]
      simp
  | atTest => exact fun loops => rfl
  | silentBefore simple empty => exact fun loops => (straight_empty p empty).symm
  | lineBefore simple text spelled =>
      intro loops
      exact (controlAll_runs loops [_]).trans (straight_line p text spelled).symm

/-! ## Where it is the control of the source -/

theorem append_eq_iff {α : Type} {a a' b b' : List α} (left : a'.length ≤ a.length)
    (right : b'.length ≤ b.length) : a ++ b = a' ++ b' ↔ a = a' ∧ b = b' := by
  constructor
  · intro same
    have lengths := congrArg List.length same
    simp only [List.length_append] at lengths
    exact List.append_inj same (by omega)
  · rintro ⟨rfl, rfl⟩
    rfl

namespace Part

/-- The printed statements have at least the pieces of control that the source has. -/
def Covers (p : CPrinter) : Part → Prop
  | stmt n => ∀ frames label,
      (p.control .source frames label n).length ≤ (p.control .printed frames label n).length
  | stmts ns => ∀ frames,
      (p.controlAll .source frames ns).length ≤ (p.controlAll .printed frames ns).length
  | _ => True

end Part

theorem Forms.covers {p : CPrinter} {part : Part} {ss : List Stmt} (forms : Forms p part ss) :
    part.Covers p := by
  induction forms with
  | nil => exact fun frames => Nat.le_refl _
  | cons first rest ihFirst ihRest =>
      intro frames
      have head := ihFirst frames none
      have tail := ihRest frames
      simp only [CPrinter.controlAll, List.length_append]
      omega
  | silent simple | line simple =>
      intro frames label
      simp only [control_simple p _ _ _ simple, Nat.le_refl]
  | exit | next | block | loop | range => exact fun frames label => Nat.le_refl _
  | labeled m m' ident free inner ih =>
      exact fun frames label => Nat.succ_le_succ (ih frames _)
  | @choose m m' init =>
      intro frames label
      show (p.before init ++ [_]).length ≤ (p.before init ++ _ :: _).length
      rw [List.length_append, List.length_append]
      exact Nat.add_le_add_left (Nat.succ_le_succ (Nat.zero_le _)) _
  | @switch m m' init =>
      intro frames label
      show (p.before init ++ [_]).length ≤ (p.before init ++ [_]).length
      rw [List.length_append, List.length_append]
      exact Nat.le_refl _
  | _ => trivial

namespace Part

/-- C accepts the part and sees the control of the source in it exactly if the part is faithful. -/
def Kept (p : CPrinter) : Part → List Stmt → Prop
  | stmt n, ss => ∀ frames label,
      C.headedAll ss = true ∧ p.control .printed frames label n = p.control .source frames label n ↔
        p.faithful frames label n = true
  | stmts ns, ss => ∀ frames,
      C.headedAll ss = true ∧ p.controlAll .printed frames ns = p.controlAll .source frames ns ↔
        p.faithfulAll frames ns = true
  | clauses list, ss => ∀ frames,
      C.headedAll ss = true ∧
          p.controlClauseAll .printed frames list = p.controlClauseAll .source frames list ↔
        p.faithfulClauseAll frames list = true
  | otherwise orElse, arm => ∀ frames,
      C.headedAll arm = true ∧
          p.armSplit .printed orElse (p.controlElse .printed frames orElse) =
            (p.controlElse .source frames orElse, []) ↔
        p.faithfulElse frames orElse = true
  | before _, ss => C.headedAll ss = true

end Part

theorem headedAll_runs (runs : List (List Token)) : C.headedAll (runs.map .run) = true := by
  induction runs with
  | nil => rfl
  | cons run runs ih => rw [List.map_cons, C.headedAll, ih]; rfl

theorem headedAll_labels (p : CPrinter) (values : List Node) :
    C.headedAll (caseLabels p values) = true := by
  unfold caseLabels
  induction p.caseValues values with
  | nil => rfl
  | cons v vs ih => rw [List.map_cons, C.headedAll, ih]; rfl

theorem faithful_simple (p : CPrinter) (frames : List Frame) (label : Option String) {n : Node}
    (simple : isSimple n = true) : p.faithful frames label n = true := by
  unfold isSimple at simple
  split at simple <;> first | rfl | cases simple

theorem headed_head {stop : Char} {text : String} (closed : Closed stop text) :
    (lex text.toList).isEmpty = false := by
  simpa using closed.someToken

/-- A conditional after an else is the whole arm exactly if it starts at its test. -/
theorem armSplit_conditional (p : CPrinter) (frames : List Frame) (m : Mark) (init orElse : Option Node)
    (cond body : Node) :
    p.armSplit .printed (some (.ifStmt m init cond body orElse))
          (p.control .printed frames none (.ifStmt m init cond body orElse)) =
        (p.control .source frames none (.ifStmt m init cond body orElse), []) ↔
      p.startsAtTest (.ifStmt m init cond body orElse) = true ∧
        p.control .printed frames none (.ifStmt m init cond body orElse) =
          p.control .source frames none (.ifStmt m init cond body orElse) := by
  have starts : p.startsAtTest (.ifStmt m init cond body orElse) = true ↔ (p.before init).length = 0 := by
    exact List.isEmpty_iff_length_eq_zero
  have printed : (p.before init).length + 1 ≤
      (p.control .printed frames none (.ifStmt m init cond body orElse)).length := by
    show _ ≤ (p.before init ++ _ :: _).length
    rw [List.length_append]
    exact Nat.add_le_add_left (Nat.succ_le_succ (Nat.zero_le _)) _
  have source : (p.control .source frames none (.ifStmt m init cond body orElse)).length =
      (p.before init).length + 1 :=
    List.length_append
  generalize p.control .printed frames none (.ifStmt m init cond body orElse) = whole at *
  generalize p.control .source frames none (.ifStmt m init cond body orElse) = meant at *
  rw [starts, CPrinter.armSplit, List.splitAt_eq, Prod.mk.injEq, List.drop_eq_nil_iff]
  constructor
  · rintro ⟨taken, short⟩
    have atTest : (p.before init).length = 0 := by omega
    rw [List.take_of_length_le short] at taken
    exact ⟨atTest, taken⟩
  · rintro ⟨atTest, rfl⟩
    have short : whole.length ≤ max 1 (p.before init).length := by omega
    exact ⟨List.take_of_length_le short, short⟩

/-- A loop is kept exactly if its body is. -/
theorem kept_loop {counted : Bool} {head : List Token} (someToken : head.isEmpty = false)
    {ss : List Stmt} {printed meant : List Control} {faithful : Prop}
    (body : C.headedAll ss = true ∧ printed = meant ↔ faithful) :
    C.headedAll [.loop counted head (.block ss)] = true ∧
        [Control.loop head printed] = [.loop head meant] ↔ faithful := by
  show ((!head.isEmpty && C.headedAll ss) && true) = true ∧ _ ↔ faithful
  rw [someToken, Bool.not_false, Bool.true_and, Bool.and_true, List.singleton_inj,
    Control.loop.injEq, ← body]
  exact and_congr_right' (and_iff_right rfl)

theorem Forms.kept {p : CPrinter} {part : Part} {ss : List Stmt} (forms : Forms p part ss) :
    part.Kept p ss := by
  induction forms with
  | nil => exact fun frames => ⟨fun _ => rfl, fun _ => ⟨rfl, rfl⟩⟩
  | @cons n ns ss more first rest ihFirst ihRest =>
      intro frames
      have head := ihFirst frames none
      have tail := ihRest frames
      rw [C.headedAll_append, CPrinter.controlAll, CPrinter.controlAll, CPrinter.faithfulAll,
        append_eq_iff (first.covers frames none) (rest.covers frames), Bool.and_eq_true,
        Bool.and_eq_true, ← head, ← tail]
      exact and_and_and_comm
  | silent simple empty =>
      intro frames label
      rw [control_simple p _ _ _ simple, control_simple p _ _ _ simple, faithful_simple p _ _ simple]
      exact ⟨fun _ => rfl, fun _ => ⟨rfl, rfl⟩⟩
  | @line n runs simple text spelled =>
      intro frames label
      rw [control_simple p _ _ _ simple, control_simple p _ _ _ simple, faithful_simple p _ _ simple]
      exact ⟨fun _ => rfl, fun _ => ⟨headedAll_runs runs, rfl⟩⟩
  | exit m l =>
      intro frames label
      show true = true ∧ [Control.leave (target frames false none)] = [.leave _] ↔ (_ == _) = true
      rw [List.singleton_inj, Control.leave.injEq, beq_iff_eq]
      exact (and_iff_right rfl).trans eq_comm
  | next m l =>
      intro frames label
      show true = true ∧ [Control.again (target frames true none)] = [.again _] ↔ (_ == _) = true
      rw [List.singleton_inj, Control.again.injEq, beq_iff_eq]
      exact (and_iff_right rfl).trans eq_comm
  | @labeled m m' text s ss ident free inner ih =>
      intro frames label
      show _ ∧ Control.label text.toList :: p.control .printed frames (some text) _ =
          .label text.toList :: p.control .source frames (some text) _ ↔
        p.faithful frames (some text) _ = true
      rw [List.cons_inj_right]
      exact ih frames (some text)
  | @block m ns ss inner ih =>
      intro frames label
      show (C.headedAll ss && true) = true ∧ [Control.block (p.controlAll .printed frames ns)] =
        [.block (p.controlAll .source frames ns)] ↔ p.faithfulAll frames ns = true
      rw [Bool.and_true, List.singleton_inj, Control.block.injEq]
      exact ih frames
  | @choose m m' init orElse cond body first ss arm before head yes no ihBefore ihYes ihNo =>
      intro frames label
      have headed : C.headedAll (first ++ .choose (lex (p.expr cond).toList) (.block ss) arm.head? :: arm.tail) =
          (C.headedAll ss && C.headedAll arm) := by
        have armed : (C.headedElse arm.head? && C.headedAll arm.tail) = C.headedAll arm := by
          cases arm <;> rfl
        have fromBefore : C.headedAll first = true := ihBefore
        rw [C.headedAll_append, fromBefore, C.headedAll, Stmt.headed, headed_head head, Stmt.headed,
          Bool.and_assoc, armed]
        rfl
      have yes := ihYes frames
      have no := ihNo frames
      show _ ∧ p.before init ++ Control.choose _ (p.controlAll .printed frames body) _ :: _ =
          p.before init ++ [Control.choose _ (p.controlAll .source frames body)
            (p.controlElse .source frames orElse)] ↔
        (p.faithfulAll frames body && p.faithfulElse frames orElse) = true
      rw [headed, List.append_cancel_left_eq]
      simp only [List.cons.injEq, Control.choose.injEq, true_and, Bool.and_eq_true, ← yes, ← no,
        Prod.ext_iff]
      exact (and_congr_right' and_assoc).trans and_and_and_comm
  | @loop m m' init cond post body ss head inner ih =>
      intro frames label
      exact kept_loop (headed_head head) (ih (⟨true, label⟩ :: frames))
  | @range m m' key value x body ss head inner ih =>
      intro frames label
      exact kept_loop (headed_head head) (ih (⟨true, label⟩ :: frames))
  | @switch m m' init tag list first ss before head inner ihBefore ihInner =>
      intro frames label
      have within := ihInner (⟨false, label⟩ :: frames)
      have tagged : (lex (p.exprOpt tag).toList).isEmpty = !tag.isSome := by
        cases tag with
        | none => rfl
        | some t => exact headed_head (head t rfl)
      have fromBefore : C.headedAll first = true := ihBefore
      show _ ∧ p.before init ++ [Control.switch _ (p.controlClauseAll .printed _ list)] =
          p.before init ++ [Control.switch _ (p.controlClauseAll .source _ list)] ↔
        (tag.isSome && p.faithfulClauseAll (⟨false, label⟩ :: frames) list) = true
      rw [C.headedAll_append, fromBefore, C.headedAll, Stmt.headed, tagged,
        List.append_cancel_left_eq]
      simp only [List.cons.injEq, Control.switch.injEq, true_and, and_true, Bool.and_eq_true,
        ← within, Stmt.headed, C.headedAll, Bool.not_not]
      exact and_assoc
  | noClause => exact fun frames => ⟨fun _ => rfl, fun _ => ⟨rfl, rfl⟩⟩
  | @clause m values body rest ss more labels inner others ihInner ihOthers =>
      intro frames
      have within := ihInner frames
      have later := ihOthers frames
      show _ ∧ Control.clause _ (p.controlAll .printed frames body) false ::
            p.controlClauseAll .printed frames rest =
          .clause _ (p.controlAll .source frames body) (endsInFall body) ::
            p.controlClauseAll .source frames rest ↔
        (!endsInFall body && p.faithfulAll frames body && p.faithfulClauseAll frames rest) = true
      rw [C.headedAll_append, headedAll_labels, C.headedAll_append]
      simp only [C.headedAll, Stmt.headed, List.cons.injEq, Control.clause.injEq, true_and,
        Bool.true_and, Bool.and_eq_true, Bool.not_eq_true', ← within, ← later]
      rw [eq_comm (a := false)]
      exact and_and_and_comm.trans (and_congr_left' and_rotate.symm)
  | noElse => exact fun frames => ⟨fun _ => rfl, fun _ => ⟨rfl, rfl⟩⟩
  | @elseBlock m ns ss inner ih =>
      intro frames
      show (C.headedAll ss && true) = true ∧ (p.controlAll .printed frames ns, []) =
        (p.controlAll .source frames ns, []) ↔ p.faithfulAll frames ns = true
      rw [Bool.and_true, Prod.mk.injEq, and_iff_left rfl]
      exact ih frames
  | @elseIf m init orElse cond body ss inner ih =>
      intro frames
      have within := ih frames none
      have arm := armSplit_conditional p frames m init orElse cond body
      show _ ∧ p.armSplit .printed _ (p.control .printed frames none _) =
          (p.control .source frames none _, []) ↔ (p.startsAtTest _ && p.faithful frames none _) = true
      rw [arm, Bool.and_eq_true, ← within]
      exact and_left_comm
  | atTest => rfl
  | silentBefore => rfl
  | lineBefore => rfl

/-! ## Printed bodies -/

/-- What C sees in a printed body, and when it is what the source says.  The text of the body is
read in full; every branch in it targets the innermost statement of its kind and every clause leaves
its switch.  The control of the source is read back exactly if the body is faithful. -/
theorem printed_control_iff (u : SourceUnit) {m : Mark} {body : List Node} {ss : List Stmt}
    (forms : Forms (u.printer (.block m body)) (.stmts body) ss) :
    (C.readBlock? (lex (u.print (.block m body)).toList)).map (C.controlAll []) =
        some ((u.printer (.block m body)).controlAll .printed [] body) ∧
      (C.readControl? (u.print (.block m body)) =
          some ((u.printer (.block m body)).controlAll .source [] body) ↔
        (u.printer (.block m body)).faithfulAll [] body = true) := by
  have read := printed_reads_statements u forms
  have seen : C.controlAll [] ss = (u.printer (.block m body)).controlAll .printed [] body :=
    forms.seen []
  constructor
  · rw [read, ← seen]
    rfl
  · have kept : _ ↔ _ := forms.kept []
    rw [← kept, C.readControl?, read, ← seen]
    cases headed : C.headedAll ss <;> simp [headed]

/-- A labelled loop around a switch whose branches name the loop, which is the innermost anyway. -/
def rowsBody : List Node :=
  [.labeled ⟨1, 0, 0⟩ (.name ⟨2, 0, 0⟩ "rows")
    (.forStmt ⟨3, 0, 0⟩ none
      (some (.binary ⟨4, 0, 0⟩ .gt (.name ⟨5, 0, 0⟩ "n") (.literal ⟨6, 0, 0⟩ .int "0"))) none
      (.block ⟨7, 0, 0⟩
        [.switchStmt ⟨8, 0, 0⟩ none (some (.name ⟨9, 0, 0⟩ "x"))
          (.block ⟨10, 0, 0⟩
            [.caseClause ⟨11, 0, 0⟩ [.literal ⟨12, 0, 0⟩ .int "1", .literal ⟨13, 0, 0⟩ .int "2"]
              [.assign ⟨14, 0, 0⟩ .set [.name ⟨15, 0, 0⟩ "x"] [.name ⟨16, 0, 0⟩ "n"]],
            .caseClause ⟨17, 0, 0⟩ []
              [.branch ⟨18, 0, 0⟩ .next (some (.name ⟨19, 0, 0⟩ "rows"))]]),
        .branch ⟨20, 0, 0⟩ .exit (some (.name ⟨21, 0, 0⟩ "rows"))]))]

theorem rowsBody_forms (p : CPrinter) : ∃ ss, Forms p (.stmts rowsBody) ss := by
  have n (m : Mark) : CForm (.name m "n") _ := .name m (by decide)
  have test : Closed ')' (p.loopHead none (some (.binary ⟨4, 0, 0⟩ .gt (.name ⟨5, 0, 0⟩ "n")
      (.literal ⟨6, 0, 0⟩ .int "0"))) none) :=
    closed_expr p (.binary _ (by decide) (n _) (.number _ (by decide))) rfl (by decide)
  have tag : ∀ t ∈ some (Node.name ⟨9, 0, 0⟩ "x"), Closed ')' (p.expr t) := by
    rintro t ⟨⟩
    exact closed_expr p (.name _ (by decide)) rfl (by decide)
  have values : ∀ v ∈ [Node.literal ⟨12, 0, 0⟩ .int "1", .literal ⟨13, 0, 0⟩ .int "2"],
      Closed ':' (p.expr v) := by
    intro v member
    simp only [List.mem_cons, List.not_mem_nil, or_false] at member
    rcases member with rfl | rfl
    · exact closed_expr p (.number _ (by decide)) rfl (by decide)
    · exact closed_expr p (.number _ (by decide)) rfl (by decide)
  have freeX : cName "x" ∉ C.keywords := C.toList_mem_map.not.mpr (by decide)
  have freeRows : "rows".toList ∉ C.keywords := C.toList_mem_map.not.mpr (by decide)
  have set := line_set p ⟨14, 0, 0⟩ ⟨15, 0, 0⟩ (by decide) freeX (n ⟨16, 0, 0⟩) rfl
  have text : p.simple (.assign ⟨14, 0, 0⟩ .set [.name ⟨15, 0, 0⟩ "x"] [.name ⟨16, 0, 0⟩ "n"]) ≠ "" := by
    simp [CPrinter.simple, CPrinter.assign, CPrinter.assignPart, Text.join, CPrinter.expr_name]
  exact ⟨_, .cons (.labeled _ _ (by decide) freeRows (.loop _ _ test
    (.cons (.switch _ _ .atTest tag
      (.clause _ values (.cons (.line rfl text set) .nil)
        (.clause _ (List.forall_mem_nil _) (.cons (.next _ _) .nil) .noClause)))
      (.cons (.exit _ _) .nil)))) .nil⟩

theorem printed_control_rows :
    (∃ ss, Forms (SourceUnit.printer default (.block ⟨22, 0, 0⟩ rowsBody)) (.stmts rowsBody) ss) ∧
    C.readControl? (SourceUnit.print default (.block ⟨22, 0, 0⟩ rowsBody)) =
      some ((SourceUnit.printer default (.block ⟨22, 0, 0⟩ rowsBody)).controlAll .source [] rowsBody) := by
  obtain ⟨ss, forms⟩ := rowsBody_forms (SourceUnit.printer default (.block ⟨22, 0, 0⟩ rowsBody))
  exact ⟨⟨ss, forms⟩, (printed_control_iff default forms).2.mpr (by decide)⟩

/-- A switch whose first clause sends control on into the second one. -/
def fallingBody : List Node :=
  [.switchStmt ⟨1, 0, 0⟩ none (some (.name ⟨2, 0, 0⟩ "n"))
    (.block ⟨3, 0, 0⟩
      [.caseClause ⟨4, 0, 0⟩ [.literal ⟨5, 0, 0⟩ .int "1"]
        [.assign ⟨6, 0, 0⟩ .set [.name ⟨7, 0, 0⟩ "n"] [.literal ⟨8, 0, 0⟩ .int "2"],
          .branch ⟨9, 0, 0⟩ .fall none],
      .caseClause ⟨10, 0, 0⟩ [.literal ⟨11, 0, 0⟩ .int "2"]
        [.assign ⟨12, 0, 0⟩ .set [.name ⟨13, 0, 0⟩ "n"] [.literal ⟨14, 0, 0⟩ .int "3"]]])]

/-- Which clauses of a switch run on into the next one. -/
def runningOn : List Control → List Bool
  | [.switch _ clauses] => clauses.map fun c => match c with
    | .clause _ _ runsOn => runsOn
    | _ => false
  | _ => []

/-- The source runs on into the second clause; in the printed text the first clause leaves. -/
theorem printed_fallthrough_leaves :
    runningOn ((SourceUnit.printer default (.block ⟨15, 0, 0⟩ fallingBody)).controlAll .source []
        fallingBody) = [true, false] ∧
    (C.readControl? (SourceUnit.print default (.block ⟨15, 0, 0⟩ fallingBody))).map runningOn =
      some [false, false] := by
  constructor
  · decide +kernel
  · have lines : (SourceUnit.printer default (.block ⟨15, 0, 0⟩ fallingBody)).stmt 0
          (.block ⟨15, 0, 0⟩ fallingBody) =
        "\x7b\n    switch (n) \x7b\n    case 1:\n        n = 2;\n        /* fallthrough */;\n" ++
          "        break;\n    case 2:\n        n = 3;\n        break;\n    \x7d\n\x7d\n" := by
      decide +kernel
    have spelled : (SourceUnit.print default (.block ⟨15, 0, 0⟩ fallingBody)).toList = _ :=
      Text.toList_trimEnd ['\n'] ((congrArg _ lines).trans
        (Text.toList_join String.toList_ofList String.toList_ofList))
    rw [C.readControl?, spelled]
    decide +kernel

end Retarget
