/-
# Proofs.BodyDepth -- how deep the code of a body is

The nodes of a kernel are read in order with a depth that starts at one, grows at a header and
shrinks at a closing node.  They are `Bracketed` if the depth stays at least one up to the last
node, a closing one that brings it to zero.

The writer of the code keeps a depth of its own, which grows with the lines that open a block and
does not fall below zero.  The text of a node does not depend on what has been said of others
(`steady_statement`), so each node moves the depth in its own way; where the lines that open a
block are those of headers, the writer follows the scan over bracketed nodes and closes the
function with the last one (`closesLast_of_bracketed`).
-/
import Retarget.Emission.Generate

namespace Retarget

open Retarget.Text (endsWith)

set_option autoImplicit false

/-! ## Depth -/

namespace OpKind

/-- What a node does to the depth. -/
def turn : OpKind → Int
  | control => 1
  | blockEnd => -1
  | _ => 0

/-- What a sequence of nodes does to the depth. -/
def net : List OpKind → Int
  | [] => 0
  | kind :: kinds => kind.turn + net kinds

@[simp] theorem net_nil : net [] = 0 := rfl

@[simp] theorem net_cons (kind : OpKind) (kinds : List OpKind) :
    net (kind :: kinds) = kind.turn + net kinds := rfl

@[simp] theorem net_append (front back : List OpKind) :
    net (front ++ back) = net front + net back := by
  induction front with
  | nil => simp
  | cons kind front ih =>
      simp only [List.cons_append, net_cons, ih]
      omega

/-- The depth stays at least one until the last node, a closing one, brings it to zero. -/
structure Bracketed (kinds : List OpKind) : Prop where
  inside : ∀ i < kinds.length, 1 ≤ 1 + net (kinds.take i)
  closes : kinds.getLast? = some .blockEnd
  outside : 1 + net kinds = 0

instance (kinds : List OpKind) : Decidable (Bracketed kinds) :=
  decidable_of_iff ((∀ i < kinds.length, 1 ≤ 1 + net (kinds.take i)) ∧
      kinds.getLast? = some .blockEnd ∧ 1 + net kinds = 0)
    ⟨fun ⟨inside, closes, outside⟩ => ⟨inside, closes, outside⟩,
      fun ⟨inside, closes, outside⟩ => ⟨inside, closes, outside⟩⟩

end OpKind

/-- Every header of the graph is a statement, so that it has a line. -/
def OperationGraph.HeadersWritten (g : OperationGraph) : Prop :=
  ∀ n ∈ g.nodes, n.kind = .control → n.isStatement = true

/-! ## The text of a node does not depend on what has been said -/

/-- An emission whose outcome is the same in every state. -/
def Emit.Steady {α : Type} (m : Emit α) : Prop := ∀ s s' : EmitState, (m.run s).1 = (m.run s').1

/-- A state step hands its outcome and its state on. -/
theorem Emit.run_bind {α β : Type} (m : Emit α) (f : α → Emit β) (s : EmitState) :
    (m >>= f).run s = (f (m.run s).1).run (m.run s).2 := rfl

namespace Emit.Steady

variable {α β : Type}

theorem ret (a : α) : Steady (pure a : Emit α) := fun _ _ => rfl

theorem unit (m : Emit Unit) : Steady m := fun _ _ => rfl

theorem bind {m : Emit α} {f : α → Emit β} (first : Steady m) (next : ∀ a, Steady (f a)) :
    Steady (m >>= f) := by
  intro s s'
  rw [Emit.run_bind, Emit.run_bind, first s s']
  exact next _ _ _

theorem foldlM {f : β → α → Emit β} (each : ∀ b a, Steady (f b a)) (l : List α) (b : β) :
    Steady (l.foldlM f b) := by
  induction l generalizing b with
  | nil => exact ret b
  | cons a l ih => exact bind (each b a) fun b => ih b

end Emit.Steady

namespace Emitter

open Emit (Steady)

variable {e : Emitter}

theorem steady_fallback (n : OpNode) : Steady (e.fallback n) := .bind (.unit _) fun _ => .ret _

theorem steady_apply (depth : Nat) (n : OpNode) : Steady (e.apply depth n) := by
  induction depth generalizing n with
  | zero => exact steady_fallback n
  | succ depth ih =>
      unfold apply
      split
      · exact steady_fallback n
      · split
        · exact .bind (.unit _) fun _ => steady_fallback n
        · refine .bind (.foldlM (fun bound edge => ?_) _ _) fun bound => ?_
          · split
            · split
              · exact .bind (.ret _) fun _ => .ret _
              · exact .bind (ih _) fun _ => .ret _
            · exact .ret _
          · dsimp only
            split
            · exact .bind (.unit _) fun _ => steady_fallback n
            · exact .bind (.unit _) fun _ => .bind (.unit _) fun _ => .ret _

/-- The text of a statement is the same whatever has been said before. -/
theorem steady_statement (n : OpNode) : Steady (e.statement n) := by
  unfold statement
  split
  · unfold define
    split
    split
    · exact .bind (steady_apply _ _) fun _ => .bind (.unit _) fun _ => .ret _
    · exact .bind (.unit _) fun _ => .ret _
  · split
    · unfold control
      split
      · exact .ret _
      · exact .ret _
      · exact .ret _
      · exact .ret _
      · split
        · exact .ret _
        · exact steady_fallback n
    · split
      · split
        · exact .bind (steady_apply _ _) fun _ => .bind (.unit _) fun _ => .ret _
        · exact steady_fallback n
      · exact steady_apply _ n

/-! ## The depth of the writer -/

/-- The line of a node. -/
def line (e : Emitter) (n : OpNode) : String := ((e.statement n).run {}).1

/-- A line after which the writer is one block deeper. -/
def opens (text : String) : Bool := text != "" && endsWith (terminated text) "\x7b"

/-- The lines that open a block are those of headers. -/
def LinesFit (e : Emitter) : Prop :=
  ∀ n ∈ e.graph.nodes, n.isStatement = true → n.kind ≠ .blockEnd →
    opens (e.line n) = (n.kind == .control)

/-- The state of the writer after some nodes. -/
def bodyAfter (e : Emitter) (nodes : List OpNode) (b : BodyState) (s : EmitState) : BodyState :=
  ((nodes.foldlM e.writeNode b).run s).1

theorem writeNode_blockEnd {n : OpNode} (closes : n.kind = .blockEnd) (b : BodyState) :
    e.writeNode b n = pure (e.closeBlock b) := by
  simp [writeNode, closes]

theorem tally_depth (r : Option Resolution) (b : BodyState) :
    (tally r b).depth = b.depth ∧ (tally r b).closed = b.closed := by
  unfold tally
  split <;> exact ⟨rfl, rfl⟩

/-- A written line is counted by what is recorded of its node, and put at the present depth. -/
theorem writeNode_run {n : OpNode} (other : n.kind ≠ .blockEnd)
    (isStatement : n.isStatement = true) (written : e.line n ≠ "") (b : BodyState) (s : EmitState) :
    let after := ((e.statement n).run s).2
    let counted := tally (after.resolutions.lookup n.id) b
    (e.writeNode b n).run s = ({ counted with
      text := counted.text ++ e.writeLines counted.depth (terminated (e.line n))
      depth := if endsWith (terminated (e.line n)) "\x7b" then counted.depth + 1
        else counted.depth }, after) := by
  have text : ((e.statement n).run s).1 = e.line n := steady_statement n s {}
  unfold writeNode
  rw [if_neg (by simpa using other), if_neg (by simp [isStatement]), Emit.run_bind, text,
    if_neg (by simpa using written), Emit.run_bind]
  rfl

theorem writeNode_line {n : OpNode} (other : n.kind ≠ .blockEnd)
    (isStatement : n.isStatement = true) (written : e.line n ≠ "") (b : BodyState) (s : EmitState) :
    ∃ r, ((e.writeNode b n).run s).1 = { tally r b with
      text := (tally r b).text ++ e.writeLines (tally r b).depth (terminated (e.line n))
      depth := if endsWith (terminated (e.line n)) "\x7b" then (tally r b).depth + 1
        else (tally r b).depth } :=
  ⟨_, congrArg Prod.fst (writeNode_run other isStatement written b s)⟩

theorem writeNode_blank {n : OpNode} (other : n.kind ≠ .blockEnd)
    (blank : n.isStatement = true → e.line n = "") (b : BodyState) (s : EmitState) :
    ((e.writeNode b n).run s).1 = b := by
  have text : ((e.statement n).run s).1 = e.line n := steady_statement n s {}
  unfold writeNode
  rw [if_neg (by simpa using other)]
  by_cases isStatement : n.isStatement = true
  · rw [if_neg (by simp [isStatement]), Emit.run_bind, text, if_pos (by simp [blank isStatement])]
    rfl
  · rw [if_pos (by simp [isStatement])]
    rfl

/-- A node that closes nothing changes the depth by what its line opens. -/
theorem writeNode_depth {n : OpNode} (other : n.kind ≠ .blockEnd) (b : BodyState) (s : EmitState) :
    ((e.writeNode b n).run s).1.depth =
        b.depth + (if n.isStatement && opens (e.line n) then 1 else 0) ∧
      ((e.writeNode b n).run s).1.closed = b.closed := by
  by_cases written : n.isStatement = true ∧ e.line n ≠ ""
  · obtain ⟨r, after⟩ := writeNode_line other written.1 written.2 b s
    rw [after]
    refine ⟨?_, (tally_depth r b).2⟩
    simp only [(tally_depth r b).1, written.1, opens, Bool.true_and]
    by_cases brace : endsWith (terminated (e.line n)) "\x7b" = true <;> simp [brace, written.2]
  · rw [writeNode_blank other (fun isStatement => by simpa [isStatement] using written)]
    refine ⟨?_, rfl⟩
    rw [if_neg, Nat.add_zero]
    simp only [opens, Bool.and_eq_true, bne_iff_ne, ne_eq]
    exact fun both => written ⟨both.1, both.2.1⟩

/-- What one node does to the depth, where lines fit and blocks are open. -/
theorem writeNode_turn (fit : e.LinesFit) (headed : e.graph.HeadersWritten) {n : OpNode}
    (member : n ∈ e.graph.nodes) {b : BodyState} (stays : 1 ≤ b.depth + n.kind.turn)
    (s : EmitState) :
    ((((e.writeNode b n).run s).1.depth : Nat) : Int) = b.depth + n.kind.turn ∧
      ((e.writeNode b n).run s).1.closed = b.closed := by
  by_cases closes : n.kind = .blockEnd
  · rw [writeNode_blockEnd closes]
    rw [closes] at stays ⊢
    simp only [OpKind.turn] at stays ⊢
    show ((e.closeBlock b).depth : Int) = _ ∧ (e.closeBlock b).closed = _
    have deep : ¬b.depth ≤ 1 := by omega
    rw [closeBlock, if_neg deep]
    refine ⟨?_, rfl⟩
    show ((b.depth - 1 : Nat) : Int) = _
    omega
  · obtain ⟨depth, closed⟩ := writeNode_depth (e := e) closes b s
    refine ⟨?_, closed⟩
    rw [depth]
    by_cases isControl : n.kind = .control
    · have isStatement := headed n member isControl
      have opened := fit n member isStatement closes
      simp [isStatement, opened, isControl, OpKind.turn]
    · have level : n.kind.turn = 0 := by
        cases kind : n.kind <;> first | rfl | contradiction
      have flat : (n.isStatement && opens (e.line n)) = false := by
        by_cases isStatement : n.isStatement = true
        · rw [isStatement, Bool.true_and, fit n member isStatement closes]
          simpa using isControl
        · simp [isStatement]
      simp [flat, level]

/-- As long as the depth stays at least one, the writer follows it and the function stays open. -/
theorem bodyAfter_depth (fit : e.LinesFit) (headed : e.graph.HeadersWritten) (nodes : List OpNode)
    (among : ∀ n ∈ nodes, n ∈ e.graph.nodes) (b : BodyState) (s : EmitState)
    (inside : ∀ i ≤ nodes.length, 1 ≤ b.depth + OpKind.net ((nodes.take i).map (·.kind))) :
    ((e.bodyAfter nodes b s).depth : Int) = b.depth + OpKind.net (nodes.map (·.kind)) ∧
      (e.bodyAfter nodes b s).closed = b.closed := by
  induction nodes generalizing b s with
  | nil => exact ⟨(Int.add_zero _).symm, rfl⟩
  | cons n nodes ih =>
      have one := inside 1 (by simp)
      simp only [List.take_succ_cons, List.take_zero, List.map_cons, List.map_nil, OpKind.net_cons,
        OpKind.net_nil, Int.add_zero] at one
      obtain ⟨depth, closed⟩ := writeNode_turn fit headed (among n List.mem_cons_self) one s
      have rest := ih (fun n member => among n (List.mem_cons_of_mem _ member))
        ((e.writeNode b n).run s).1 ((e.writeNode b n).run s).2 (fun i before => by
          have next := inside (i + 1) (by simpa using before)
          simp only [List.take_succ_cons, List.map_cons, OpKind.net_cons] at next
          rw [depth]
          omega)
      rw [depth, closed] at rest
      refine ⟨?_, rest.2⟩
      rw [List.map_cons, OpKind.net_cons, ← Int.add_assoc]
      exact rest.1

/-- The function is closed by its last node and by no other. -/
structure ClosesLast (e : Emitter) : Prop where
  /-- Up to the last node the writer is as deep as the scan, and the function is open. -/
  inside : ∀ i < e.graph.nodes.length,
    ((e.bodyAfter (e.graph.nodes.take i) {} {}).depth : Int) =
        1 + OpKind.net ((e.graph.nodes.map (·.kind)).take i) ∧
      (e.bodyAfter (e.graph.nodes.take i) {} {}).closed = false
  /-- After it nothing is open. -/
  outside : (e.writeBody.run {}).1.depth = 0 ∧ (e.writeBody.run {}).1.closed = true
  /-- The brace of a function with a signature is the last of its text. -/
  brace : e.signature = true → (e.writeBody.run {}).1.text =
    (e.bodyAfter e.graph.nodes.dropLast {} {}).text ++ "\x7d\n"

/-- Before the last of bracketed nodes the writer follows the scan. -/
theorem bodyAfter_bracketed (fit : e.LinesFit) (headed : e.graph.HeadersWritten)
    (bracketed : OpKind.Bracketed (e.graph.nodes.map (·.kind))) {i : Nat}
    (before : i < e.graph.nodes.length) :
    ((e.bodyAfter (e.graph.nodes.take i) {} {}).depth : Int) =
        1 + OpKind.net ((e.graph.nodes.map (·.kind)).take i) ∧
      (e.bodyAfter (e.graph.nodes.take i) {} {}).closed = false := by
  rw [← List.map_take]
  refine bodyAfter_depth fit headed _ (fun n member => List.mem_of_mem_take member) {} {} ?_
  intro j upTo
  simp only [List.length_take] at upTo
  have stays := bracketed.inside j (by rw [List.length_map]; omega)
  rw [List.take_take, List.map_take, Nat.min_eq_left (by omega)]
  exact stays

/-- A body whose last node closes ends with what the closing does. -/
theorem writeBody_blockEnd {front : List OpNode} {last : OpNode}
    (split : e.graph.nodes = front ++ [last]) (closes : last.kind = .blockEnd) :
    (e.writeBody.run {}).1 = e.closeBlock (e.bodyAfter front {} {}) := by
  rw [writeBody, split, List.foldlM_append, Emit.run_bind]
  show ((do let b ← e.writeNode _ last; pure b).run _).1 = _
  rw [writeNode_blockEnd closes]
  rfl

theorem closesLast_of_bracketed (fit : e.LinesFit) (headed : e.graph.HeadersWritten)
    (bracketed : OpKind.Bracketed (e.graph.nodes.map (·.kind))) : e.ClosesLast := by
  obtain ⟨last, isLast, closes⟩ : ∃ last, e.graph.nodes.getLast? = some last ∧
      last.kind = .blockEnd := by
    simpa [List.getLast?_map] using bracketed.closes
  obtain ⟨front, split⟩ := List.getLast?_eq_some_iff.mp isLast
  have after := writeBody_blockEnd split closes
  -- the last node stands at depth one
  have before := (bodyAfter_bracketed fit headed bracketed (i := front.length) (by simp [split])).1
  have outside := bracketed.outside
  simp only [split, List.map_append, List.map_singleton, closes, OpKind.net_append, OpKind.net_cons,
    OpKind.net_nil, OpKind.turn] at outside
  rw [split, List.take_left, List.map_append, ← List.length_map (f := (·.kind)), List.take_left]
    at before
  rw [closeBlock, if_pos (by omega)] at after
  refine ⟨fun i => bodyAfter_bracketed fit headed bracketed, ?_, fun signature => ?_⟩
  · rw [after]
    cases e.signature <;> exact ⟨rfl, rfl⟩
  · have level : e.writeLines 0 "\x7d" = "\x7d\n" := by
      rw [writeLines, signature]
      decide
    rw [after, if_pos signature, split, List.dropLast_concat, ← level]

end Emitter

end Retarget
