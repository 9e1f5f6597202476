/-
# Proofs.StatementNode -- nodes that are statements
-/
import Retarget.Proofs.LoweredNames

namespace Retarget

open Retarget.Source (Node NodeId Mark)

set_option autoImplicit false
set_option linter.dupNamespace false

/-! ## Properties of nodes that marks leave alone -/

namespace OpNode

theorem prop_unmarked (n : OpNode) {key : PropKey} (other : key ≠ .vectorize) :
    n.unmarked.prop key = n.prop key := by
  have apart : key.text ≠ PropKey.vectorize.text := by cases key <;> first | contradiction | decide
  have lookup (props : List (String × String)) :
      (props.filter (·.1 != PropKey.vectorize.text)).lookup key.text = props.lookup key.text := by
    induction props with
    | nil => rfl
    | cons p props ih =>
        obtain ⟨name, value⟩ := p
        by_cases marked : name = PropKey.vectorize.text
        · rw [List.filter_cons_of_neg (by simpa using marked), ih, List.lookup_cons,
            beq_eq_false_iff_ne.mpr (marked ▸ apart)]
        · rw [List.filter_cons_of_pos (by simpa using marked), List.lookup_cons, List.lookup_cons, ih]
  simp only [prop, prop?, unmarked, lookup]

end OpNode

/-! ## What a node stands for besides its syntax -/

namespace Lowering

variable {u : SourceUnit} {k : KernelFn} {counted : Bool} {root n : Node} {d : Draft}

/-- Further syntax that means a node is no expression, or one whose value is that of the node. -/
def Draft.Covers (u : SourceUnit) (root : Node) (d : Draft) : Prop :=
  ∀ c ∈ d.covers, (∃ w ∈ root.preorder, w.id = c ∧ w.isExpr = false) ∨
    ∃ x ∈ root.preorder, x.id = c ∧ d.origin = some (u.scope.strip x)

theorem operands_cover : ∀ d ∈ operands u k counted n, d.Covers u root := by
  intro d member
  obtain ⟨a, -, made⟩ := List.mem_filterMap.mp member
  suffices none : d.covers = [] by
    rw [Draft.Covers, none]
    exact List.forall_mem_nil _
  unfold operandDraft? at made
  split at made
  · split at made
    · exact Option.some.inj made ▸ rfl
    · cases made
  · split at made
    · exact Option.some.inj made ▸ rfl
    · cases made
  · cases made

theorem optOperands_cover {o : Option Node} : ∀ d ∈ optOperands u k counted o, d.Covers u root := by
  intro d member
  obtain ⟨c, -, inner⟩ := List.mem_flatMap.mp member
  exact operands_cover d inner

theorem generic_covers : ∀ d ∈ generic u k counted n, d.Covers u root :=
  List.forall_mem_cons.mpr ⟨List.forall_mem_nil _, operands_cover⟩

theorem assign_covers : ∀ d ∈ assign u k counted n, d.Covers u root := by
  unfold assign
  split
  · exact List.forall_mem_cons.mpr ⟨List.forall_mem_nil _, optOperands_cover⟩
  · split
    · exact List.forall_mem_cons.mpr ⟨List.forall_mem_nil _, operands_cover⟩
    · exact generic_covers
  · exact generic_covers

theorem exprStmt_covers {m : Mark} {x : Node} (inside : Node.exprStmt m x ∈ root.preorder) :
    ∀ d ∈ exprStmt u k counted (.exprStmt m x) x, d.Covers u root := by
  have below : x ∈ root.preorder :=
    Node.preorder_trans (Node.child_preorder (List.mem_singleton_self _) x.self_mem_preorder) inside
  unfold exprStmt
  split
  · rename_i stripped
    refine List.forall_mem_cons.mpr ⟨?_, fun d member => ?_⟩
    · split
      all_goals
        intro c covered
        rcases List.mem_cons.mp covered with rfl | covered
        · exact Or.inl ⟨_, inside, rfl, rfl⟩
        · exact Or.inr ⟨x, below, (List.mem_singleton.mp covered).symm, by rw [stripped]; rfl⟩
    · obtain ⟨arg, -, inner⟩ := List.mem_flatMap.mp member
      exact operands_cover d inner
  · exact generic_covers

theorem declStmt_covers {m : Mark} {decl : Node} (inside : Node.declStmt m decl ∈ root.preorder) :
    ∀ d ∈ declStmt u k counted (.declStmt m decl) decl, d.Covers u root := by
  unfold declStmt
  split
  · rename_i spec var init single
    refine List.forall_mem_cons.mpr ⟨fun c covered => Or.inl ?_, optOperands_cover⟩
    obtain ⟨dm, kind, sm, isConst, name, t, values, rfl, rfl, -⟩ := singleSpec?_eq single
    refine ⟨.valueSpec sm isConst [name] t values, ?_, (List.mem_singleton.mp covered).symm, rfl⟩
    refine Node.preorder_trans ?_ inside
    refine Node.child_preorder (List.mem_singleton_self _) ?_
    exact Node.child_preorder (List.mem_singleton_self _) (Node.self_mem_preorder _)
  · exact generic_covers

theorem lower_covers (root : Node) (counted : Bool) :
    ∀ d ∈ lower u k counted root, d.Covers u root := by
  have holds : Holds u k (· ∈ root.preorder) (Draft.Covers u root) := {
    child := fun n inside c child =>
      Node.preorder_trans (Node.child_preorder child c.self_mem_preorder) inside
    blockEnd := fun _ => List.forall_mem_nil _
    elseHeader := fun _ => List.forall_mem_nil _
    header := fun _ _ _ _ => List.forall_mem_nil _
    operand := fun _ _ _ => operands_cover
    plain := fun n counted inside plain => by
      refine lower_plain_cases (P := fun drafts => ∀ d ∈ drafts, d.Covers u root) plain (List.forall_mem_nil _) ?_
        (fun _ _ _ _ _ => assign_covers) ?_ fun _ => generic_covers
      · rintro m decl rfl
        exact declStmt_covers inside
      · rintro m x rfl
        exact exprStmt_covers inside }
  exact holds.lower root root.self_mem_preorder counted

theorem operandDraft?_isStatement (made : operandDraft? u k counted n = some d) :
    d.node.isStatement = false := by
  unfold operandDraft? at made
  split at made
  · split at made
    · exact Option.some.inj made ▸ rfl
    · cases made
  · split at made
    · exact Option.some.inj made ▸ rfl
    · cases made
  · cases made

/-- The draft is that of an operand. -/
def Draft.IsOperand (u : SourceUnit) (k : KernelFn) (d : Draft) : Prop :=
  ∃ counted n, operandDraft? u k counted n = some d

theorem Draft.IsOperand.isStatement (operand : d.IsOperand u k) : d.node.isStatement = false := by
  obtain ⟨_, _, made⟩ := operand
  exact operandDraft?_isStatement made

theorem operands_operand : ∀ d ∈ operands u k counted n, d.IsOperand u k := by
  intro d member
  obtain ⟨a, -, made⟩ := List.mem_filterMap.mp member
  exact ⟨counted, a, made⟩

theorem optOperands_operand {o : Option Node} :
    ∀ d ∈ optOperands u k counted o, d.IsOperand u k := by
  intro d member
  obtain ⟨c, -, inner⟩ := List.mem_flatMap.mp member
  exact operands_operand d inner

theorem generic_operand : ∀ d ∈ (generic u k counted n).tail, d.IsOperand u k :=
  operands_operand

/-- All but the first node of a plain statement are operands. -/
theorem tail_lower_operand (plain : n.isCompound = false) :
    ∀ d ∈ (lower u k counted n).tail, d.IsOperand u k := by
  refine lower_plain_cases (P := fun drafts => ∀ d ∈ drafts.tail, d.IsOperand u k) plain
    (List.forall_mem_nil _) ?_ ?_ ?_ fun _ => generic_operand
  · intro m decl _
    unfold declStmt
    split
    · exact optOperands_operand
    · exact generic_operand
  · intro m op targets values _
    unfold assign
    split
    · exact optOperands_operand
    · split
      · exact operands_operand
      · exact generic_operand
    · exact generic_operand
  · intro m x _
    unfold exprStmt
    split
    · intro d member
      obtain ⟨arg, -, inner⟩ := List.mem_flatMap.mp member
      exact operands_operand d inner
    · exact generic_operand

/-- The draft is the statement node of a plain statement. -/
def Draft.Heads (u : SourceUnit) (k : KernelFn) (d : Draft) (s : Node) : Prop :=
  s.isCompound = false ∧ ∃ counted, (lower u k counted s).head? = some d

theorem lower_heads (root : Node) (counted : Bool) :
    ∀ d ∈ lower u k counted root, d.node.isStatement = true → d.node.kind ≠ .control →
      d.node.kind ≠ .blockEnd → ∃ s ∈ root.preorder, d.Heads u k s := by
  have holds : Holds u k (· ∈ root.preorder) fun d => d.node.isStatement = true →
      d.node.kind ≠ .control → d.node.kind ≠ .blockEnd → ∃ s ∈ root.preorder, d.Heads u k s := {
    child := fun n inside c child =>
      Node.preorder_trans (Node.child_preorder child c.self_mem_preorder) inside
    blockEnd := fun _ _ _ other => absurd rfl other
    elseHeader := fun _ _ other _ => absurd rfl other
    header := fun _ _ _ _ _ other _ => absurd rfl other
    operand := fun n counted _ d member isStatement => by
      rw [(operands_operand d member).isStatement] at isStatement
      cases isStatement
    plain := fun n counted inside plain d member isStatement _ _ => by
      have silent := @tail_lower_operand u k counted n plain
      cases drafts : lower u k counted n with
      | nil => simp [drafts] at member
      | cons first rest =>
          rw [drafts] at member silent
          rcases List.mem_cons.mp member with rfl | later
          · exact ⟨n, inside, plain, counted, by rw [drafts]; rfl⟩
          · rw [(silent d later).isStatement] at isStatement
            cases isStatement }
  exact holds.lower root root.self_mem_preorder counted

theorem exists_origin {v : Node} (init : initializer? d = some v) : ∃ n, d.origin = some n := by
  unfold initializer? at init
  split at init
  · cases init
  · cases origin : d.origin with
    | none => simp [origin] at init
    | some n => exact ⟨n, rfl⟩

/-- A statement node stands for its statement or for the call that makes it up. -/
theorem Draft.Heads.origin {u : SourceUnit} {k : KernelFn} {d : Draft} {s : Node}
    (heads : d.Heads u k s) : d.origin = some s ∨ ∃ m callee args spread,
      d.origin = some (.call m callee args spread) := by
  obtain ⟨plain, counted, heads⟩ := heads
  revert heads
  have generic (drafts : (generic u k counted s).head? = some d) : d.origin = some s :=
    Option.some.inj drafts ▸ rfl
  refine lower_plain_cases (P := fun drafts => drafts.head? = some d → d.origin = some s ∨
      ∃ m callee args spread, d.origin = some (.call m callee args spread)) plain (by simp) ?_ ?_ ?_
    fun _ drafts => Or.inl (generic drafts)
  · intro m decl _ drafts
    unfold declStmt at drafts
    split at drafts
    · exact Or.inl (Option.some.inj drafts ▸ rfl)
    · exact Or.inl (generic drafts)
  · intro m op targets values _ drafts
    unfold assign at drafts
    split at drafts
    · exact Or.inl (Option.some.inj drafts ▸ rfl)
    · split at drafts
      · exact Or.inl (Option.some.inj drafts ▸ rfl)
      · exact Or.inl (generic drafts)
    · exact Or.inl (generic drafts)
  · intro m x _ drafts
    unfold exprStmt at drafts
    split at drafts
    · rename_i mark callee args spread stripped
      refine Or.inr ⟨mark, callee, args, spread, ?_⟩
      rw [← Option.some.inj drafts]
      split <;> rfl
    · exact Or.inl (generic drafts)

end Lowering

end Retarget
