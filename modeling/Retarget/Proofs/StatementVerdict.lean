/-
# Proofs.StatementVerdict -- what the emission says of a statement

The expression of a statement that a rule may replace is the call of an intrinsic that makes the
statement up, or such a call or a floating-point operator whose value it stores (`candidate?`).  The
verdict on it is what is expected of the node of the statement (`Drawn.expected_statement`): a store
is fed by the node of its value and resolved like it, every other node bears the expression itself.

Operand edges lead from operands, which are smaller than what they are operands of, so the nodes of a
lowered kernel are fed as the emission needs them to be (`Drawn.wellFed`).
-/
import Retarget.Proofs.Reprint
import Retarget.Proofs.RuleVerdict

namespace Retarget

open Retarget.Source (Node NodeId Mark)

set_option autoImplicit false
set_option linter.dupNamespace false

/-! ## Operands of a lowered kernel -/

namespace Source.Node

variable {m n : Node}

/-- The node is a part of another one, and not all of it. -/
def Within (m n : Node) : Prop := ∃ c ∈ n.children, m ∈ c.preorder

theorem sizeOf_le_of_mem {m n : Node} (below : m ∈ n.preorder) : sizeOf m ≤ sizeOf n := by
  rcases preorder_cases below with rfl | ⟨c, child, inner⟩
  · exact Nat.le_refl _
  · exact Nat.le_trans (sizeOf_le_of_mem inner) (Nat.le_of_lt (sizeOf_child child))
termination_by sizeOf n
decreasing_by exact sizeOf_child child

theorem Within.sizeOf_lt (within : m.Within n) : sizeOf m < sizeOf n := by
  obtain ⟨c, child, inner⟩ := within
  exact Nat.lt_of_le_of_lt (sizeOf_le_of_mem inner) (sizeOf_child child)

theorem Within.mem_preorder (within : m.Within n) : m ∈ n.preorder := by
  obtain ⟨c, child, inner⟩ := within
  exact child_preorder child inner

end Source.Node

namespace Lowering

variable {u : SourceUnit} {k : KernelFn} {counted : Bool} {n s : Node} {d : Draft}

theorem operandsOf_subset_children (u : SourceUnit) (n : Node) :
    operandsOf u n ⊆ (u.scope.strip n).children := by
  intro arg member
  unfold operandsOf at member
  split at member
  · split at member
    · rename_i stripped
      rw [stripped]
      exact List.mem_cons_of_mem _ member
    · rename_i stripped
      rw [stripped]
      exact member
    · cases member
  · cases member

theorem isExpr_of_operand {x arg : Node} (operand : arg ∈ operandsOf u x) : x.isExpr = true := by
  by_contra other
  rw [operandsOf, if_neg other] at operand
  cases operand

theorem operandDraft?_isExpr (made : operandDraft? u k counted n = some d) : n.isExpr = true := by
  unfold operandDraft? at made
  split at made
  · rfl
  · rfl
  · cases made

/-- An operand, as it is stripped, is a proper part of what it is an operand of. -/
theorem operand_within {x arg : Node} (operand : arg ∈ operandsOf u x) :
    (u.scope.strip arg).Within x := by
  have child := operandsOf_subset_children u x operand
  have inner := u.scope.strip_mem_preorder arg.self_mem_preorder
  rcases Node.preorder_cases (u.scope.strip_mem_preorder x.self_mem_preorder) with
    same | ⟨c, outer, below⟩
  · rw [same] at child
    exact ⟨arg, child, inner⟩
  · exact ⟨c, outer, Node.preorder_trans (Node.child_preorder child inner) below⟩

theorem Draft.IsOperand.kind (operand : d.IsOperand u k) :
    d.node.kind ≠ .control ∧ d.node.kind ≠ .blockEnd := by
  obtain ⟨_, _, made⟩ := operand
  unfold operandDraft? at made
  split at made
  · split at made
    · exact Option.some.inj made ▸ ⟨nofun, nofun⟩
    · cases made
  · split at made
    · exact Option.some.inj made ▸ ⟨nofun, nofun⟩
    · cases made
  · cases made

/-- The node of a statement is marked as one. -/
theorem heads_isStatement (heads : d.Heads u k s) : d.node.isStatement = true := by
  obtain ⟨plain, counted, first⟩ := heads
  revert first
  refine lower_plain_cases (P := fun drafts => drafts.head? = some d → d.node.isStatement = true)
    plain nofun ?_ ?_ ?_ fun _ first => Option.some.inj first ▸ rfl
  · intro m decl _ first
    unfold declStmt at first
    split at first <;> exact Option.some.inj first ▸ rfl
  · intro m op targets values _ first
    unfold assign at first
    split at first
    · exact Option.some.inj first ▸ rfl
    · split at first <;> exact Option.some.inj first ▸ rfl
    · exact Option.some.inj first ▸ rfl
  · intro m x _ first
    unfold exprStmt at first
    split at first
    · rw [← Option.some.inj first]
      split <;> rfl
    · exact Option.some.inj first ▸ rfl

/-- What is no statement is an operand. -/
theorem lower_operand (root : Node) (counted : Bool) :
    ∀ d ∈ lower u k counted root, d.node.isStatement = false → d.IsOperand u k := by
  have holds : Holds u k (fun _ => True) fun d => d.node.isStatement = false → d.IsOperand u k := {
    child := fun _ _ _ _ => trivial
    blockEnd := fun _ => nofun
    elseHeader := fun _ => nofun
    header := fun _ _ _ _ => nofun
    operand := fun _ _ _ d member _ => operands_operand d member
    plain := fun n counted _ plain d member silent => by
      have operands := @tail_lower_operand u k counted n plain
      cases drafts : lower u k counted n with
      | nil => simp [drafts] at member
      | cons first rest =>
          rw [drafts] at member operands
          rcases List.mem_cons.mp member with rfl | later
          · have heads : d.Heads u k n := ⟨plain, counted, by rw [drafts]; rfl⟩
            exact absurd ((heads_isStatement heads).symm.trans silent) nofun
          · exact operands d later }
  exact holds.lower root trivial counted

end Lowering

theorem Emitter.isValue_of_operand {e : Emitter} {m : OpNode} {d : Lowering.Draft} {i : Nat}
    (same : m.unmarked = (d.placed i).unmarked) (operand : d.IsOperand e.unit e.kernel) :
    IsValue m := by
  obtain ⟨operation, -, kind⟩ := operation_eq same
  refine ⟨?_, by rw [kind]; exact operand.kind⟩
  have stores := operand.stores
  rwa [OpNode.stores, OpNode.isDefine, ← operation] at stores

namespace Emitter.Lowered

open Lowering (draftsOf Draft StandsFor Declares)

variable {e : Emitter} {cpg : PropertyGraph} {root : Node} (drawn : e.Lowered cpg root)

include drawn

theorem isOperand_of_silent {i : Nat} {d : Draft} {m : OpNode}
    (found : e.graph.node? (i : OpId) = some m) (listed : (draftsOf e.unit e.kernel)[i]? = some d)
    (silent : m.isStatement = false) : d.IsOperand e.unit e.kernel := by
  have isStatement := congrArg OpNode.isStatement (drawn.unmarked_eq found listed)
  have drafted := List.mem_of_getElem? listed
  exact Lowering.lower_operand root false d (drawn.drafted ▸ drafted) (isStatement.symm.trans silent)

/-- What stands for an operand or declares it, and is no statement, is the node of the operand. -/
theorem operand_node {x arg : Node} (below : x ∈ root.preorder)
    (operand : arg ∈ Lowering.operandsOf e.unit x) {start : OpId}
    (comes : StandsFor e.unit e.kernel start arg ∨ Declares e.unit e.kernel start arg)
    {source : OpNode} (found : e.graph.node? start = some source)
    (silent : source.isStatement = false) :
    IsValue source ∧ e.syntaxOf source = some (e.unit.scope.strip arg) ∧
      (e.unit.scope.strip arg).isExpr = true := by
  obtain ⟨t, d, rfl, listed, sort⟩ : ∃ (t : Nat) (d : Draft), start = (t : OpId) ∧
      (draftsOf e.unit e.kernel)[t]? = some d ∧
      ((e.unit.scope.strip arg).id ∈ d.names ∨ d.node.isDefine = true) := by
    rcases comes with ⟨t, d, start, listed, named⟩ | ⟨m, var, -, t, d, start, listed, isDefine, -⟩
    · exact ⟨t, d, start, listed, Or.inl named⟩
    · exact ⟨t, d, start, listed, Or.inr isDefine⟩
  have same := drawn.unmarked_eq found listed
  have drafted := List.mem_of_getElem? listed
  have isOperand := drawn.isOperand_of_silent found listed silent
  refine ⟨isValue_of_operand same isOperand, ?_⟩
  rw [drawn.syntaxOf_eq same drafted]
  rcases sort with named | isDefine
  · obtain ⟨counted, a, made⟩ := isOperand
    have origin := Lowering.operandDraft?_origin made
    have there := Node.preorder_trans (Lowering.operand_within operand).mem_preorder below
    rw [(Lowering.operandDraft?_names made).1, List.mem_singleton] at named
    rw [drawn.numbered.inj (drawn.mem_nodes there)
      (drawn.mem_nodes ((drawn.bears drafted).among a origin)) named]
    exact ⟨origin, Lowering.operandDraft?_isExpr made⟩
  · have stores := isOperand.stores
    rw [OpNode.stores, isDefine] at stores
    cases stores

end Emitter.Lowered

namespace Emitter.Drawn

open Lowering (draftsOf StandsFor initLabel Draft RolesApart)

variable {e : Emitter} {cpg : PropertyGraph} {root : Node} (drawn : e.Drawn cpg root)

include drawn

/-- An operand edge leads from an operand. -/
theorem argument (roles : RolesApart e.unit cpg e.kernel) {n : OpNode} (member : n ∈ e.graph.nodes)
    {edge : OpEdge} (leads : edge ∈ e.graph.edgesTo n.id) {i : Int}
    (index : argIndex? edge = some i) : ∃ (j : Nat) (x arg : Node), i = j ∧
      e.syntaxOf n = some x ∧ (Lowering.operandsOf e.unit x)[j]? = some arg ∧ x ∈ root.preorder ∧
      (StandsFor e.unit e.kernel edge.source arg ∨
        Lowering.Declares e.unit e.kernel edge.source arg) := by
  obtain ⟨target, graph⟩ := drawn.graph
  obtain ⟨joins, here⟩ := List.mem_filter.mp leads
  have faithful : Lowering.LabelsFaithful e.unit e.kernel e.graph :=
    graph ▸ Lowering.labelsFaithful_lowered roles
  obtain ⟨j, rfl, label⟩ := faithful.position edge joins i index
  obtain ⟨t, d, x, arg, there, listed, origin, operand, comes⟩ := faithful.operand edge joins j label
  obtain ⟨t', d', id, listed', same⟩ := drawn.exists_draft member
  obtain rfl : t' = t := Int.ofNat_inj.mp (id.symm.trans ((beq_iff_eq.mp here).symm.trans there))
  obtain rfl := Option.some.inj (listed.symm.trans listed')
  have drafted := List.mem_of_getElem? listed
  exact ⟨j, x, arg, rfl, (drawn.syntaxOf_eq same drafted).trans origin, operand,
    (drawn.bears drafted).among x origin, comes⟩

/-- An operand that is no statement is a value of its own, smaller than what it is an operand of. -/
theorem operand_smaller (roles : RolesApart e.unit cpg e.kernel) {n : OpNode}
    (member : n ∈ e.graph.nodes) {edge : OpEdge} (leads : edge ∈ e.graph.edgesTo n.id) {i : Int}
    (index : argIndex? edge = some i) {source : OpNode}
    (found : e.graph.node? edge.source = some source) (silent : source.isStatement = false) :
    IsValue source ∧ e.weight source < e.weight n := by
  obtain ⟨j, x, arg, -, syn, operand, below, comes⟩ := drawn.argument roles member leads index
  have among := List.mem_of_getElem? operand
  obtain ⟨isValue, inner, -⟩ := drawn.operand_node below among comes found silent
  refine ⟨isValue, ?_⟩
  rw [weight, weight, syn, inner]
  exact (Lowering.operand_within among).sizeOf_lt

/-- Only a store is fed. -/
theorem stores_of_input {n source : OpNode} (member : n ∈ e.graph.nodes)
    (input : e.graph.input? n.id initLabel = some source) : n.stores = true := by
  obtain ⟨i, d, id, listed, same⟩ := drawn.exists_draft member
  by_contra other
  have idle : Lowering.initializer? d = none := by
    rw [OpNode.stores, OpNode.isDefine, (operation_eq same).1] at other
    rw [Lowering.initializer?, if_pos (by simpa using other)]
  have unfed := drawn.unfed listed id fun v init =>
    absurd (init.symm.trans idle) (Option.some_ne_none v)
  exact Option.some_ne_none source (input.symm.trans unfed)

/-- What feeds a store is a value. -/
theorem value_of_input {n source : OpNode} (member : n ∈ e.graph.nodes)
    (input : e.graph.input? n.id initLabel = some source) : IsValue source := by
  have stores : n.stores = true := drawn.stores_of_input member input
  rcases drawn.fed_cases member stores with ⟨unfed, -⟩ |
    ⟨v, source', j, d, counted, -, input', -, same, made⟩
  · exact absurd (input.symm.trans unfed) (Option.some_ne_none source)
  · obtain rfl := Option.some.inj (input.symm.trans input')
    exact isValue_of_operand same ⟨counted, _, made⟩

theorem wellFed (roles : RolesApart e.unit cpg e.kernel) : e.WellFed where
  placed n := drawn.node?_id
  position n member edge leads i index := by
    obtain ⟨j, x, arg, is, syn, operand, -⟩ := drawn.argument roles member leads index
    refine ⟨j, ?_, is⟩
    rw [arity, syn, Option.map_some, Option.getD_some]
    exact (List.getElem?_eq_some_iff.mp operand).1
  operand n member edge leads i index source found :=
    drawn.operand_smaller roles member leads index found
  value _ member _ input := drawn.value_of_input member input

end Emitter.Drawn

/-! ## Verdicts on statements -/

/-- The value that a statement stores in one variable. -/
def Source.Node.storedValue? : Node → Option Node
  | .declStmt _ spec => (Lowering.singleSpec? spec).bind fun (_, _, init) => init
  | .assign _ .define [.name ..] [v] | .assign _ .set [.name ..] [v] => some v
  | _ => none

namespace Emitter

variable (e : Emitter)

/-- The expression of a statement that a rule may replace: the call of an intrinsic that makes it up,
or such a call or a floating-point operator whose value it stores. -/
def candidate? (s : Node) : Option Node :=
  match s with
  | .exprStmt _ x => if e.unit.scope.isVectorCall (e.unit.scope.strip x) then some x else none
  | _ => s.storedValue?.filter (Lowering.producesNode e.unit e.kernel)

/-- What becomes of a statement. -/
def statementVerdict (s : Node) : Resolution :=
  match e.candidate? s with
  | some x => e.verdictOn (Lowering.valueOperation e.unit x) (Lowering.operandsOf e.unit x).length
  | none => .byFallback

end Emitter

namespace Lowering

variable {u : SourceUnit} {k : KernelFn} {n s : Node} {d : Draft}

theorem storedValue?_of_storing {init : Option Node} (storing : Node.Storing s init) :
    s.storedValue? = init := by
  cases storing with
  | spec other few => simp [Source.Node.storedValue?, singleSpec?_of_few other few]
  | short | set => rfl

/-- The node of a statement stores its value, is the call of an intrinsic that makes it up, or has no
operation and nothing that a rule may replace. -/
inductive Draft.Acts (e : Emitter) (d : Draft) (s : Node) : Prop
  | store : d.node.stores = true → d.Acts e s
  | call (m : Mark) (x : Node) : s = .exprStmt m x →
      e.unit.scope.isVectorCall (e.unit.scope.strip x) = true →
      d.origin = some (e.unit.scope.strip x) →
      d.node.operation = valueOperation e.unit x → d.Acts e s
  | idle : d.node.operation = "" → e.candidate? s = none → d.Acts e s

section Acts

variable {e : Emitter} {counted : Bool} {m : Mark}

theorem declStmt_acts {decl : Node}
    (first : (declStmt e.unit e.kernel counted (.declStmt m decl) decl).head? = some d) :
    d.Acts e (.declStmt m decl) := by
  unfold declStmt at first
  split at first
  · exact .store (Option.some.inj first ▸ rfl)
  · rename_i several
    refine .idle (Option.some.inj first ▸ rfl) ?_
    simp [Emitter.candidate?, Source.Node.storedValue?, several]

theorem assign_acts {op : Source.AssignOp} {targets values : List Node}
    (first : (assign e.unit e.kernel counted (.assign m op targets values)).head? = some d) :
    d.Acts e (.assign m op targets values) := by
  unfold assign at first
  split at first
  · exact .store (Option.some.inj first ▸ rfl)
  · rename_i same
    cases same
    split at first
    · exact .store (Option.some.inj first ▸ rfl)
    · rename_i unproduced
      refine .idle (Option.some.inj first ▸ rfl) ?_
      simpa [Emitter.candidate?, Source.Node.storedValue?] using unproduced
  · rename_i notDefine notSet
    refine .idle (Option.some.inj first ▸ rfl) ?_
    have none : (Node.assign m op targets values).storedValue? = none := by
      unfold Source.Node.storedValue?
      split
      · rename_i same
        cases same
      · rename_i same
        exact (notDefine _ _ _ _ same).elim
      · rename_i same
        exact (notSet _ _ _ _ same).elim
      · rfl
    simp [Emitter.candidate?, none]

theorem exprStmt_acts {x : Node}
    (first : (exprStmt e.unit e.kernel counted (.exprStmt m x) x).head? = some d) :
    d.Acts e (.exprStmt m x) := by
  unfold exprStmt at first
  split at first
  · rename_i mark callee args spread stripped
    rw [← Option.some.inj first]
    split
    · rename_i isVector
      refine .call m x rfl (stripped ▸ isVector) (by rw [stripped]; rfl) ?_
      rw [valueOperation, stripped]
      rfl
    · rename_i other
      exact .idle rfl (by simp [Emitter.candidate?, stripped, other])
  · rename_i notCall
    refine .idle (Option.some.inj first ▸ rfl) ?_
    have other : e.unit.scope.isVectorCall (e.unit.scope.strip x) = false := by
      unfold Kernel.Scope.isVectorCall
      rw [Kernel.Scope.strip_strip]
      split
      · rename_i shape
        exact (notCall _ _ _ _ shape).elim
      · rfl
    simp [Emitter.candidate?, other]

theorem Draft.Heads.acts (heads : d.Heads e.unit e.kernel s) : d.Acts e s := by
  obtain ⟨plain, counted, first⟩ := heads
  cases s with
  | block | labeled | ifStmt | forStmt | rangeStmt => cases plain
  | empty => cases first
  | declStmt m decl => exact declStmt_acts first
  | assign m op targets values => exact assign_acts first
  | exprStmt m x => exact exprStmt_acts first
  | _ => exact .idle (Option.some.inj first ▸ rfl) rfl

end Acts

end Lowering

namespace Emitter.Drawn

open Lowering (draftsOf Draft RolesApart)

variable {e : Emitter} {cpg : PropertyGraph} {root : Node} (drawn : e.Drawn cpg root)

include drawn

theorem operandsOf_strip {x : Node} (isExpr : x.isExpr = true)
    (below : x ∈ root.preorder) :
    Lowering.operandsOf e.unit (e.unit.scope.strip x) = Lowering.operandsOf e.unit x := by
  have stripped := drawn.strip_isExpr below isExpr
  unfold Lowering.operandsOf
  rw [if_pos stripped, if_pos isExpr, Kernel.Scope.strip_strip]

/-- What is expected of a store is the verdict on its value. -/
theorem fedVerdict_eq {m : OpNode} (member : m ∈ e.graph.nodes) (stores : m.stores = true) :
    e.fedVerdict m = match (e.initializer? m).filter (Lowering.producesNode e.unit e.kernel) with
      | some v => e.verdictOn (Lowering.valueOperation e.unit v)
          (Lowering.operandsOf e.unit (e.unit.scope.strip v)).length
      | none => .byFallback := by
  have source := drawn.fed_source member stores
  unfold fedVerdict
  cases input : e.graph.input? m.id Lowering.initLabel with
  | none =>
      rw [input] at source
      cases value : (e.initializer? m).filter (Lowering.producesNode e.unit e.kernel) with
      | none => rfl
      | some v => simp [value] at source
  | some n =>
      rw [input] at source
      cases value : (e.initializer? m).filter (Lowering.producesNode e.unit e.kernel) with
      | none => simp [value] at source
      | some v =>
          simp only [value, Option.map_some, Option.some.injEq, Prod.mk.injEq] at source
          simp [verdict, arity, source.1, source.2]

section Statement

variable {m : OpNode} (member : m ∈ e.graph.nodes)

include member

/-- A store is resolved like the value of its statement. -/
theorem expected_store (stores : m.stores = true) (level : m.kind ≠ .control)
    (inner : m.kind ≠ .blockEnd) :
    ∃ s, e.WrittenFor m s ∧ e.expected m = some (e.statementVerdict s) := by
  obtain ⟨i, d, id, listed, same⟩ := drawn.exists_draft member
  have drafted := List.mem_of_getElem? listed
  have syn := drawn.syntaxOf_eq same drafted
  have stored : d.node.stores = true := by
    rwa [OpNode.stores, OpNode.isDefine, ← (operation_eq same).1]
  obtain ⟨s, init, within⟩ := Lowering.lower_stores root false d (drawn.drafted ▸ drafted) stored
  refine ⟨s, ⟨root, drawn.body, within.held.mem_preorder, i, d, id, listed, within.heads⟩, ?_⟩
  have is : e.expected m = some (e.fedVerdict m) := by
    unfold expected
    rw [if_neg (by simpa using inner)]
    by_cases declares : m.isDefine = true
    · rw [if_pos declares]
    · rw [OpNode.stores, Bool.or_eq_true_iff] at stores
      rw [if_neg declares, if_neg (by simpa using level), if_pos (stores.resolve_left declares)]
  have candidate : e.candidate? s = init.filter (Lowering.producesNode e.unit e.kernel) := by
    rw [← Lowering.storedValue?_of_storing within.storing]
    cases within.storing <;> rfl
  rw [is, drawn.fedVerdict_eq member stores,
    initializer?_of_storing (syn.trans within.origin) within.storing, statementVerdict, candidate]
  cases init with
  | none => rfl
  | some v =>
      obtain ⟨n, inside, stands⟩ := within.storing.value
      obtain ⟨below, isExpr⟩ :=
        drawn.expression (Node.preorder_trans inside within.held.mem_preorder) stands
      rw [Option.filter_some]
      split
      · rename_i produces
        cases (Option.ite_none_right_eq_some.mp produces).2
        rw [drawn.operandsOf_strip isExpr below]
      · rfl

/-- What is expected of the node of a plain statement is the verdict on the statement. -/
theorem expected_statement (isStatement : m.isStatement = true) (level : m.kind ≠ .control)
    (inner : m.kind ≠ .blockEnd) :
    ∃ s, e.WrittenFor m s ∧ e.expected m = some (e.statementVerdict s) := by
  by_cases stores : m.stores = true
  · exact drawn.expected_store member stores level inner
  obtain ⟨i, d, id, listed, same⟩ := drawn.exists_draft member
  have drafted := List.mem_of_getElem? listed
  obtain ⟨operation, -, kind⟩ := operation_eq same
  have isValue : IsValue m := ⟨eq_false_of_ne_true stores, level, inner⟩
  obtain ⟨s, below, heads⟩ := Lowering.lower_heads root false d (drawn.drafted ▸ drafted)
    ((congrArg OpNode.isStatement same).symm.trans isStatement) (kind ▸ level) (kind ▸ inner)
  refine ⟨s, ⟨root, drawn.body, below, i, d, id, listed, heads⟩, ?_⟩
  rw [expected_of_isValue isValue, verdict, arity, drawn.syntaxOf_eq same drafted, operation,
    statementVerdict]
  rcases heads.acts with stored | ⟨ms, x, rfl, isVector, origin, callee⟩ | ⟨idle, nothing⟩
  · exact absurd (by rwa [OpNode.stores, OpNode.isDefine, operation]) stores
  · have candidate : e.candidate? (.exprStmt ms x) = some x := by simp [candidate?, isVector]
    obtain ⟨inside, isExpr⟩ := drawn.expression (x := x) below (by simp [Node.expressions])
    rw [candidate, origin, callee, Option.map_some, Option.getD_some,
      drawn.operandsOf_strip isExpr inside]
  · have silent : e.rule? "" = none := rfl
    rw [nothing, idle, verdictOn, silent]

end Statement

end Emitter.Drawn

end Retarget
