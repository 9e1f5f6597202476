/-
# Proofs.OperandNesting -- operands nest like expressions

The text of a node is put together from the texts of its operands, and an operand is found by the
label of an edge.  Edges along flow dependences carry the names of variables as labels, so with a
variable called `arg_0` they are taken for operand edges, and they may well lead in a circle.  This
does no harm to the emission: what flows comes from a statement that writes (`Writer`), whereas a node
that is no statement stands for the call or the operator of an operand, and that writes nothing.  So
the nodes that the emission asks for are operands indeed, and their expressions are proper parts of
the expression they are asked for (`Lowered.asks_within`).

The emission is bounded by the number of nodes.  The bound is never met: the text of a node is that of
the recursion without it, in which the text of each operand is again that of the recursion
(`applyNode_eq`), and nothing else solves this equation (`applyNode_unique`).
-/
import Retarget.Proofs.FlowEdges
import Retarget.Proofs.StatementVerdict

namespace Retarget

open Retarget.Source (Node NodeId)

set_option autoImplicit false
set_option linter.dupNamespace false

/-! ## Where flow comes from -/

/-- What flows into a statement is written where it comes from. -/
theorem PropertyGraph.Wired.defs_of_incomingFlow {u : SourceUnit} {g : PropertyGraph}
    {calls : List CallRecord} (numbered : u.Numbered) (wired : g.Wired u calls) {owner : NodeId}
    {dep : DataDep} (flows : dep ∈ g.incomingFlow owner) : dep.var ∈ (u.defUseOf dep.source).defs := by
  obtain ⟨among, picked⟩ := List.mem_filter.mp flows
  have flow : dep.kind = .flow := by
    simp only [Bool.and_eq_true, beq_iff_eq] at picked
    exact picked.1
  cases record : g.depRecord? (g.canonical owner) with
  | none => simp [dataDepsOf, record] at among
  | some r =>
      rw [dataDepsOf, record, Option.getD_some] at among
      obtain ⟨b, info, found⟩ := Option.bind_eq_some_iff.mp record
      obtain ⟨s, -, here⟩ := Option.bind_eq_some_iff.mp info
      obtain ⟨n, -, kernel⟩ := Option.bind_eq_some_iff.mp here
      have built : b ∈ g.built := (mem_of_builtKernel? kernel).1
      have recorded : dep ∈ (b.facts.deps.record (g.canonical (g.canonical owner))).data := by
        rw [DepTable.record, found]
        exact among
      exact (BuiltKernel.dep_spec numbered (wired.kernels b built) recorded flow).2.2

namespace Lowering

variable {u : SourceUnit} {k : KernelFn} {d : Draft}

/-- The node of an operand bears no number of a statement that writes. -/
theorem Draft.IsOperand.silent (numbered : u.Numbered) (operand : d.IsOperand u k)
    (among : ∀ n ∈ d.origin, n ∈ u.nodes) {s : NodeId} (named : s ∈ d.names) : ¬u.Writer s := by
  obtain ⟨counted, n, made⟩ := operand
  obtain ⟨names, idle⟩ := operandDraft?_names made
  rw [names, List.mem_singleton] at named
  rintro ⟨w, member, same, writes⟩
  obtain rfl := numbered.inj member (among n (operandDraft?_origin made)) (same.trans named)
  exact Bool.false_ne_true (idle.symm.trans writes)

end Lowering

namespace Emitter

/-! ## The recursion without a bound -/

section Recursion

variable (e : Emitter)

/-- What an edge into the node binds, where `inner` gives the text of what is no statement. -/
def bindOperand (inner : OpNode → Emit String) (n : OpNode) (b : Bindings) (edge : OpEdge) :
    Emit Bindings :=
  match argIndex? edge, e.graph.node? edge.source with
  | some i, some source => do
    let value ← if source.isStatement then pure source.variableName else inner source
    return if value == "" then b else b.put (holeOf i) (e.asMask n.operation source value)
  | _, _ => pure b

/-- The text of a node, where `inner` gives the text of its operands. -/
def applyWith (inner : OpNode → Emit String) (n : OpNode) : Emit String :=
  match e.rule? n.operation with
  | none => e.fallback n
  | some rule =>
    match rule.template? e.target.name with
    | none => do
      note ("rule " ++ rule.id ++ " has no " ++ e.target.name ++ " template")
      e.fallback n
    | some template => do
      let bound ← (e.graph.edgesTo n.id).foldlM (e.bindOperand inner n) (e.sourceBindings n)
      let bound := if e.target.isPredicated then bound.put "predicate" e.target.predicate else bound
      match template.render bound with
      | (_, some err) => do
        note ("rule " ++ rule.id ++ " for node " ++ toString n.id ++ ": " ++ err.message)
        e.fallback n
      | (code, none) => do
        resolve n.id (.byRule rule.id)
        modify fun s => { s with headers := s.headers ++ template.headers }
        return code

/-- One more turn of the bounded recursion. -/
theorem apply_succ (depth : Nat) (n : OpNode) :
    e.apply (depth + 1) n = e.applyWith (e.apply depth) n := rfl

/-- The node asks for the text of another: that is found by an operand edge and no statement. -/
def Asks (n m : OpNode) : Prop :=
  ∃ edge ∈ e.graph.edgesTo n.id, (argIndex? edge).isSome = true ∧
    e.graph.node? edge.source = some m ∧ m.isStatement = false

variable {e} {n m : OpNode} {f g : OpNode → Emit String}

theorem Asks.mem_nodes (asks : e.Asks n m) : m ∈ e.graph.nodes := by
  obtain ⟨_, _, _, found, _⟩ := asks
  exact mem_of_node? found

/-- What edges into a node bind depends on the texts that are asked for. -/
theorem bindOperand_congr (same : ∀ m, e.Asks n m → f m = g m) {edges : List OpEdge}
    (among : edges ⊆ e.graph.edgesTo n.id) (b : Bindings) :
    edges.foldlM (e.bindOperand f n) b = edges.foldlM (e.bindOperand g n) b := by
  induction edges generalizing b with
  | nil => rfl
  | cons edge edges ih =>
      have first : e.bindOperand f n b edge = e.bindOperand g n b edge := by
        unfold bindOperand
        split
        · rename_i i source index found
          by_cases isStatement : source.isStatement = true
          · rw [if_pos isStatement, if_pos isStatement]
          · have asks : e.Asks n source := by
              refine ⟨edge, among List.mem_cons_self, Option.isSome_of_eq_some index, found, ?_⟩
              exact eq_false_of_ne_true isStatement
            rw [if_neg isStatement, if_neg isStatement, same source asks]
        · rfl
      rw [List.foldlM_cons, List.foldlM_cons, first]
      apply bind_congr
      intro b'
      exact ih (fun x member => among (List.mem_cons_of_mem _ member)) b'

theorem applyWith_congr (same : ∀ m, e.Asks n m → f m = g m) :
    e.applyWith f n = e.applyWith g n := by
  unfold applyWith
  rw [bindOperand_congr same (List.Subset.refl _)]

end Recursion

/-! ## What is asked for -/

namespace Lowered

open Lowering (draftsOf Draft StandsFor Declares operandsOf)

variable {e : Emitter} {cpg : PropertyGraph} {root : Node} (drawn : e.Lowered cpg root)
  {calls : List CallRecord} (wired : cpg.Wired e.unit calls) {n m : OpNode}

include drawn wired

/-- An operand edge comes from an operand or from a statement that writes. -/
theorem argument_comes (member : n ∈ e.graph.nodes) {edge : OpEdge}
    (leads : edge ∈ e.graph.edgesTo n.id) (index : (argIndex? edge).isSome = true) :
    ∃ x, e.syntaxOf n = some x ∧ x ∈ root.preorder ∧
      ((∃ arg ∈ operandsOf e.unit x, StandsFor e.unit e.kernel edge.source arg ∨
          Declares e.unit e.kernel edge.source arg) ∨
        ∃ (s : Nat) (d : Draft) (w : NodeId), edge.source = (s : OpId) ∧
          (draftsOf e.unit e.kernel)[s]? = some d ∧ w ∈ d.names ∧ e.unit.Writer w) := by
  obtain ⟨target, graph⟩ := drawn.graph
  obtain ⟨joins, here⟩ := List.mem_filter.mp leads
  rw [graph] at joins
  obtain ⟨t, d, listed, -, asked, there, -⟩ := Lowering.mem_edges_lowered.mp joins
  obtain ⟨t', d', id, listed', same⟩ := drawn.exists_draft member
  obtain rfl : t' = t := Int.ofNat_inj.mp (id.symm.trans ((beq_iff_eq.mp here).symm.trans there))
  obtain rfl := Option.some.inj (listed.symm.trans listed')
  have drafted := List.mem_of_getElem? listed
  obtain ⟨x, origin, sort⟩ := Lowering.mem_wiring.mp asked
  refine ⟨x, (drawn.syntaxOf_eq same drafted).trans origin, (drawn.bears drafted).among x origin, ?_⟩
  rcases sort with ⟨label, -⟩ | ⟨i, arg, operand, found, -⟩ | ⟨dep, flows, found, -⟩
  · -- the mark of initialisers is no position
    have label : edge.label = Lowering.initLabel := label
    simp [argIndex?, label, Lowering.initLabel, Text.startsWith] at index
  · refine Or.inl ⟨arg, List.mem_of_getElem? operand, ?_⟩
    rcases Lowering.operandSource?_cases found with own | ⟨m, var, isName, nearest⟩
    · exact Or.inl (Lowering.standsFor_of_lookup own)
    · exact Or.inr ⟨m, var, isName, Lowering.nearestDefine?_spec nearest⟩
  · obtain ⟨s, o, start, placed, named⟩ := Lowering.mem_nodeTable found
    have writes := List.ne_nil_of_mem (wired.defs_of_incomingFlow drawn.numbered flows)
    exact Or.inr ⟨s, o, dep.source, start, placed, named, SourceUnit.writer_of_defs writes⟩

/-- What a node asks for is a value of its own, and its expression is a proper part of that of the
node. -/
theorem asks_within (member : n ∈ e.graph.nodes) (asks : e.Asks n m) : IsValue m ∧
    ∃ x y, e.syntaxOf n = some x ∧ e.syntaxOf m = some y ∧ x.isExpr = true ∧ y.isExpr = true ∧
      y.Within x := by
  obtain ⟨edge, leads, index, found, silent⟩ := asks
  obtain ⟨x, syn, below, ⟨arg, operand, comes⟩ | ⟨s, d, w, start, listed, named, writer⟩⟩ :=
    drawn.argument_comes wired member leads index
  · obtain ⟨isValue, inner, isExpr⟩ := drawn.operand_node below operand comes found silent
    exact ⟨isValue, x, _, syn, inner, Lowering.isExpr_of_operand operand, isExpr,
      Lowering.operand_within operand⟩
  · have isOperand := drawn.isOperand_of_silent (start ▸ found) listed silent
    refine absurd writer (isOperand.silent drawn.numbered ?_ named)
    intro a origin
    exact drawn.mem_nodes ((drawn.bears (List.mem_of_getElem? listed)).among a origin)

theorem asks_smaller (member : n ∈ e.graph.nodes) (asks : e.Asks n m) :
    e.weight m < e.weight n := by
  obtain ⟨-, x, y, outer, inner, -, -, within⟩ := drawn.asks_within wired member asks
  rw [weight, weight, outer, inner]
  exact within.sizeOf_lt

/-- No chain of nodes that ask for the next one goes on for ever. -/
theorem asks_acc (member : n ∈ e.graph.nodes) : Acc (fun m n => e.Asks n m) n := by
  induction size : e.weight n using Nat.strong_induction_on generalizing n with
  | _ size' ih =>
      refine Acc.intro n fun m asks => ?_
      exact ih (e.weight m) (size ▸ drawn.asks_smaller wired member asks) asks.mem_nodes rfl

/-! ## The bound is never met -/

/-- Two bounds above the number of possible operands give the same text. -/
theorem apply_eq {a b : Nat} (member : n ∈ e.graph.nodes) (enough : e.rank n < a)
    (enough' : e.rank n < b) : e.apply a n = e.apply b n := by
  induction a generalizing b n with
  | zero => omega
  | succ a ih =>
      cases b with
      | zero => omega
      | succ b =>
          rw [apply_succ, apply_succ]
          apply applyWith_congr
          intro m asks
          have fewer := rank_lt asks.mem_nodes (drawn.asks_smaller wired member asks)
          exact ih asks.mem_nodes (by omega) (by omega)

theorem apply_eq_applyNode {depth : Nat} (member : n ∈ e.graph.nodes)
    (enough : e.graph.slots.length < depth) : e.apply depth n = e.applyNode n := by
  have bounded := e.rank_le n
  exact drawn.apply_eq wired member (by omega) (by omega)

/-- The text of a node is made from the texts of its operands. -/
theorem applyNode_eq (member : n ∈ e.graph.nodes) :
    e.applyNode n = e.applyWith e.applyNode n := by
  have bounded := e.rank_le n
  have turn : e.applyNode n = e.applyWith (e.apply e.graph.slots.length) n := rfl
  rw [turn]
  apply applyWith_congr
  intro m asks
  have fewer := rank_lt asks.mem_nodes (drawn.asks_smaller wired member asks)
  exact drawn.apply_eq wired asks.mem_nodes (by omega) (by omega)

/-- Only one text is made from the texts of operands that are made in the same way. -/
theorem applyNode_unique {render : OpNode → Emit String}
    (solves : ∀ n ∈ e.graph.nodes, render n = e.applyWith render n) (member : n ∈ e.graph.nodes) :
    render n = e.applyNode n := by
  have chain := drawn.asks_acc wired member
  induction chain with
  | intro n _ ih =>
      rw [solves n member, drawn.applyNode_eq wired member]
      apply applyWith_congr
      intro m asks
      exact ih m asks asks.mem_nodes

end Lowered

end Emitter

/-- A build is one more step of a history. -/
theorem PropertyGraph.build_ordered {u : SourceUnit} (cap : Int) (ops : List (GraphOp u))
    {k : KernelFn} (listed : k ∈ u.kernels) : ((history u cap ops).build u k).value.Ordered u := by
  have step : history u cap (ops ++ [GraphOp.build k listed]) =
      ((history u cap ops).build u k).value := history_concat u cap ops _
  exact step ▸ history_ordered u cap _

namespace OperandNesting

/-- The kernel `arg_0 := x; for { store(x, add(mul(x, x), arg_0)); arg_0 = x; x = arg_0 }`. -/
def circling : KernelFn where
  id := 0
  name := "f"
  params := []
  result := "void"
  start := 0
  stop := 0
  body := some (.block ⟨1, 0, 0⟩
    [.assign ⟨2, 0, 0⟩ .define [.name ⟨3, 0, 0⟩ "arg_0"] [.name ⟨4, 0, 0⟩ "x"],
      .forStmt ⟨5, 0, 0⟩ none none none (.block ⟨6, 0, 0⟩
        [.exprStmt ⟨7, 0, 0⟩ (.call ⟨8, 0, 0⟩ (.name ⟨9, 0, 0⟩ "_mm_store_ps")
          [.name ⟨10, 0, 0⟩ "x", .call ⟨11, 0, 0⟩ (.name ⟨12, 0, 0⟩ "_mm_add_ps")
            [.call ⟨13, 0, 0⟩ (.name ⟨14, 0, 0⟩ "_mm_mul_ps")
              [.name ⟨15, 0, 0⟩ "x", .name ⟨16, 0, 0⟩ "x"] false,
            .name ⟨17, 0, 0⟩ "arg_0"] false] false),
        .assign ⟨18, 0, 0⟩ .set [.name ⟨19, 0, 0⟩ "arg_0"] [.name ⟨20, 0, 0⟩ "x"],
        .assign ⟨21, 0, 0⟩ .set [.name ⟨22, 0, 0⟩ "x"] [.name ⟨23, 0, 0⟩ "arg_0"]])])
  fallOff := .ret ⟨24, 0, 0⟩ []
  vars := [("x", "__m128"), ("arg_0", "__m128")]

def circlingUnit : SourceUnit where
  file := ""
  lines := default
  scope := {}
  kernels := [circling]
  numbered := rfl

/-- A rule that puts a call of two operands for another one. -/
def replacing (operation call : String) : Rule where
  id := call
  category := Database.vectorCategory
  pattern := { operations := [operation] }
  templates := [("NEON", { code := call ++ "(\x7b\x7binput_0\x7d\x7d, \x7b\x7binput_1\x7d\x7d)" })]

/-- The emission of the kernel, with a rule for each of its intrinsics. -/
def circled : Emitter where
  unit := circlingUnit
  kernel := circling
  graph := (convert circlingUnit (PropertyGraph.history circlingUnit 0 []) circling none
    (some .neon)).value.1.graph
  rules := { rules := [replacing "_mm_store_ps" "vst1q_f32", replacing "_mm_add_ps" "vaddq_f32",
    replacing "_mm_mul_ps" "vmulq_f32"] }
  target := .neon

end OperandNesting

end Retarget
