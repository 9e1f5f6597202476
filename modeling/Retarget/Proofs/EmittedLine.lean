/-
# Proofs.EmittedLine -- what is written where no rule applies
-/
import Retarget.Proofs.BodyDepth

namespace Retarget

open Retarget.Source (Node NodeId)
open Retarget.Text (contains endsWith trimEnd)

set_option autoImplicit false

namespace Emitter

variable {e : Emitter}

/-! ## The body is made of lines -/

/-- Put the line of a node at its place, without counting it. -/
def lay (e : Emitter) (b : BodyState) (n : OpNode) : BodyState :=
  if n.kind == .blockEnd then e.closeBlock b
  else if !n.isStatement || e.line n == "" then b
  else { b with
    text := b.text ++ e.writeLines b.depth (terminated (e.line n))
    depth := if endsWith (terminated (e.line n)) "\x7b" then b.depth + 1 else b.depth }

/-- Two bodies that differ at most in what they have counted. -/
structure BodyState.Agrees (a b : BodyState) : Prop where
  text : a.text = b.text
  depth : a.depth = b.depth
  closed : a.closed = b.closed

theorem closeBlock_agrees {a b : BodyState} (agrees : a.Agrees b) :
    (e.closeBlock a).Agrees (e.closeBlock b) := by
  unfold closeBlock
  rw [agrees.depth]
  split
  · split
    · exact ⟨congrArg (· ++ e.writeLines 0 "\x7d") agrees.text, rfl, rfl⟩
    · exact ⟨agrees.text, rfl, rfl⟩
  · exact ⟨congrArg (· ++ e.writeLines (b.depth - 1) "\x7d") agrees.text, rfl, agrees.closed⟩

theorem tally_agrees (r : Option Resolution) (b : BodyState) : (tally r b).Agrees b := by
  unfold tally
  split <;> exact ⟨rfl, rfl, rfl⟩

theorem writeNode_agrees {a b : BodyState} (agrees : a.Agrees b) (n : OpNode) (s : EmitState) :
    ((e.writeNode a n).run s).1.Agrees (e.lay b n) := by
  by_cases closes : n.kind = .blockEnd
  · rw [writeNode_blockEnd closes, lay, if_pos (by simp [closes])]
    exact closeBlock_agrees agrees
  · by_cases written : n.isStatement = true ∧ e.line n ≠ ""
    · obtain ⟨r, after⟩ := writeNode_line closes written.1 written.2 a s
      have counted := tally_agrees r a
      have laid : e.lay b n = { b with
          text := b.text ++ e.writeLines b.depth (terminated (e.line n))
          depth := if endsWith (terminated (e.line n)) "\x7b" then b.depth + 1 else b.depth } := by
        rw [lay, if_neg (by simpa using closes), if_neg (by simp [written.1, written.2])]
      rw [after, laid]
      exact ⟨by simp only [counted.text, counted.depth, agrees.text, agrees.depth],
        by simp only [counted.depth, agrees.depth], counted.closed.trans agrees.closed⟩
    · have laid : e.lay b n = b := by
        rw [lay, if_neg (by simpa using closes), if_pos (by grind)]
      rw [writeNode_blank closes (fun isStatement => by simpa [isStatement] using written), laid]
      exact agrees

/-- The text of a body is that of its lines, one after another. -/
theorem body_eq_lines : e.generate.value.body = (e.graph.nodes.foldl e.lay {}).text := by
  have run (nodes : List OpNode) (a b : BodyState) (agrees : a.Agrees b) (s : EmitState) :
      ((nodes.foldlM e.writeNode a).run s).1.Agrees (nodes.foldl e.lay b) := by
    induction nodes generalizing a b s with
    | nil => exact agrees
    | cons n nodes ih => exact ih _ _ (writeNode_agrees agrees n s) _
  exact (run e.graph.nodes {} {} ⟨rfl, rfl, rfl⟩ {}).text

/-! ## Nodes without a rule -/

/-- No rule of the database matches an operation of the graph. -/
def Unmatched (e : Emitter) : Prop := ∀ n ∈ e.graph.nodes, e.rule? n.operation = none

theorem apply_unmatched {n : OpNode} (unruled : e.rule? n.operation = none) (depth : Nat)
    (s : EmitState) : ((e.apply depth n).run s).1 = e.printOpt (e.syntaxOf n) := by
  cases depth with
  | zero => rfl
  | succ depth =>
      unfold apply
      rw [unruled]
      rfl

/-- The line of a node that stores nothing is its source. -/
theorem line_plain {n : OpNode} (unruled : e.rule? n.operation = none) (other : n.isDefine = false)
    (level : n.kind ≠ .control) (apart : n.operation ≠ Lowering.assignOperation) :
    e.line n = e.printOpt (e.syntaxOf n) := by
  unfold line statement
  rw [if_neg (by simp [other]), if_neg (by simpa using level), if_neg (by simpa using apart)]
  exact apply_unmatched unruled _ _

/-- What is stored is the source of the node that feeds the store, if there is one. -/
def storedText (e : Emitter) (n : OpNode) (otherwise : String) : String :=
  match e.graph.input? n.id Lowering.initLabel with
  | some source => e.printOpt (e.syntaxOf source)
  | none => otherwise

theorem mem_of_node? {g : OperationGraph} {id : OpId} {m : OpNode} (found : g.node? id = some m) :
    m ∈ g.nodes := by
  unfold OperationGraph.node? at found
  split at found
  · cases found
  · exact List.mem_filterMap.mpr
      ⟨some m, List.mem_of_getElem? (Option.join_eq_some_iff.mp found), rfl⟩

theorem mem_of_input? {g : OperationGraph} {id : OpId} {label : String} {m : OpNode}
    (found : g.input? id label = some m) : m ∈ g.nodes := by
  obtain ⟨edge, -, node⟩ := Option.bind_eq_some_iff.mp found
  exact mem_of_node? node

theorem line_assign {n : OpNode} (unmatched : e.Unmatched)
    (level : n.kind ≠ .control) (stores : n.operation = Lowering.assignOperation) :
    e.line n = match e.graph.input? n.id Lowering.initLabel with
      | some source => n.variableName ++ " = " ++ e.printOpt (e.syntaxOf source)
      | none => e.printOpt (e.syntaxOf n) := by
  have other : n.isDefine = false := by simp [OpNode.isDefine, stores]; decide
  unfold line statement
  rw [if_neg (by simp [other]), if_neg (by simpa using level), if_pos (by simp [stores])]
  cases fed : e.graph.input? n.id Lowering.initLabel with
  | none => rfl
  | some source =>
      have text := apply_unmatched (unmatched source (mem_of_input? fed)) (e.graph.slots.length + 1) {}
      show n.variableName ++ " = " ++ ((e.apply (e.graph.slots.length + 1) source).run {}).1 = _
      rw [text]

theorem inferType_scalar (scalar : e.target = .scalar) (spelled value : String) :
    e.inferType spelled value = spelled := by
  simp [inferType, scalar, Architecture.scalar, Architecture.sve, Architecture.neon]

theorem line_define {n : OpNode} (unmatched : e.Unmatched) (scalar : e.target = .scalar)
    (declares : n.isDefine = true) :
    e.line n = declaration (e.spelledType n).1 n.variableName (e.spelledType n).2
      (e.storedText n (e.printOpt (e.initializer? n))) := by
  unfold line statement
  rw [if_pos declares]
  unfold define storedText
  cases fed : e.graph.input? n.id Lowering.initLabel with
  | none => rfl
  | some source =>
      have unruled := unmatched source (mem_of_input? fed)
      have text := apply_unmatched unruled (e.graph.slots.length + 1) {}
      have noHint : e.returnType source = "" := by simp [returnType, unruled]
      show declaration (if e.returnType source != "" then _ else _) _ _
        ((e.apply (e.graph.slots.length + 1) source).run {}).1 = _
      rw [text, noHint, inferType_scalar scalar, if_neg (by simp), ite_self]
      rfl

end Emitter

end Retarget
