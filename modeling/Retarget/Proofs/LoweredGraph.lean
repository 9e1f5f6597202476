/-
# Proofs.LoweredGraph -- the nodes and edges of a lowered kernel

Lowering gives a list of drafts, and the graph has one node for each of them, in order: the node
in slot `i` is the draft at position `i` (`node?_lowered`), marks apart, which touch nothing but
one property.  Edges are drawn by a double loop over the drafts and over what `wiring` asks for,
and only where both ends are there, differ, and are not joined under that label yet.  What comes
out is as plain as the loop: an edge is there exactly if the wiring of its target asks for it and
it does not lead back to its own node (`mem_edges_lowered`).

The later statements about lowered kernels use these equations and never open the loops.
-/
import Retarget.Operation.Lowering
import Mathlib.Data.List.Basic

namespace Retarget

open Retarget.Source (Node NodeId)

set_option autoImplicit false
set_option linter.dupNamespace false

namespace OperationGraph

/-! ## Slots -/

theorem node?_natCast (g : OperationGraph) (i : Nat) :
    g.node? (i : OpId) = (g.slots[i]?).join := by
  have below : ¬((i : Int) < 0) := by omega
  simp [node?, below]

theorem node?_congr {g h : OperationGraph} (same : g.slots = h.slots) (id : OpId) :
    g.node? id = h.node? id := by
  simp [node?, same]

theorem slots_update (g : OperationGraph) (i : Nat) (f : OpNode → OpNode) :
    (g.update (i : OpId) f).slots = g.slots.modify i (·.map f) := by
  have below : ¬((i : Int) < 0) := by omega
  simp [update, below]

end OperationGraph

namespace Lowering

variable {u : SourceUnit} {cpg : PropertyGraph} {g : OperationGraph} {drafts : List Draft}

/-! ## Nodes -/

/-- The node that a draft becomes in slot `i`. -/
def Draft.placed (d : Draft) (i : Nat) : OpNode := { d.node with id := i }

theorem slots_foldl_addNode (drafts : List Draft) (g : OperationGraph) :
    (drafts.foldl (fun g d => (g.addNode d.node).1) g).slots =
      g.slots ++ (drafts.zipIdx g.slots.length).map fun (d, i) => some (d.placed i) := by
  induction drafts generalizing g with
  | nil => simp
  | cons d drafts ih =>
      rw [List.foldl_cons, ih]
      simp [OperationGraph.addNode, Draft.placed, List.append_assoc]

theorem slots_graphOf (name : String) (drafts : List Draft) :
    (graphOf name drafts).slots = drafts.zipIdx.map fun (d, i) => some (d.placed i) :=
  slots_foldl_addNode drafts (OperationGraph.new name)

theorem edges_graphOf (name : String) (drafts : List Draft) : (graphOf name drafts).edges = [] := by
  suffices kept : ∀ g : OperationGraph,
      (drafts.foldl (fun g d => (g.addNode d.node).1) g).edges = g.edges from kept _
  intro g
  induction drafts generalizing g with
  | nil => rfl
  | cons d drafts ih => exact ih _

theorem node?_graphOf (name : String) (drafts : List Draft) (i : Nat) :
    (graphOf name drafts).node? (i : OpId) = (drafts[i]?).map (·.placed i) := by
  rw [OperationGraph.node?_natCast, slots_graphOf]
  cases found : drafts[i]? <;> simp [found]

/-! ## Drawing edges -/

theorem slots_link (g : OperationGraph) (source target : OpId) (label : String) :
    (link g source target label).slots = g.slots := by
  unfold link OperationGraph.addEdge
  split
  · rfl
  · split
    · rfl
    · split <;> rfl

/-- Among data edges between nodes that are there, a link adds the one edge it asks for unless it
leads back to its own node. -/
theorem mem_edges_link {source target : OpId} (label : String) {e : OpEdge}
    (start : (g.node? source).isSome) (stop : (g.node? target).isSome)
    (plain : ∀ x ∈ g.edges, x.kind = .data) :
    e ∈ (link g source target label).edges ↔
      e ∈ g.edges ∨ (source ≠ target ∧ e = ⟨source, target, .data, label⟩) := by
  unfold link OperationGraph.addEdge
  by_cases same : source = target
  · simp [same]
  · by_cases joined : g.hasEdge source target label = true
    · have there : (⟨source, target, .data, label⟩ : OpEdge) ∈ g.edges := by
        have found := joined
        simp only [OperationGraph.hasEdge, List.any_eq_true, Bool.and_eq_true, beq_iff_eq] at found
        obtain ⟨⟨_, _, kind, _⟩, member, ⟨rfl, rfl⟩, rfl⟩ := found
        obtain rfl : kind = .data := plain _ member
        exact member
      simp only [joined, Bool.or_true, if_true]
      constructor
      · exact Or.inl
      · rintro (old | ⟨-, rfl⟩)
        · exact old
        · exact there
    · have live : ((g.node? source).isNone || (g.node? target).isNone) = false := by
        simp [Option.isNone_eq_false_iff, start, stop]
      simp [same, joined, live, Except.toOption]

/-- All that is asked for at one node. -/
theorem foldl_link_spec {target : OpId} (pairs : List (OpId × String)) (g : OperationGraph)
    (starts : ∀ p ∈ pairs, (g.node? p.1).isSome) (stop : (g.node? target).isSome)
    (plain : ∀ x ∈ g.edges, x.kind = .data) :
    (pairs.foldl (fun g (source, label) => link g source target label) g).slots = g.slots ∧
    ∀ e, e ∈ (pairs.foldl (fun g (source, label) => link g source target label) g).edges ↔
      e ∈ g.edges ∨ ∃ p ∈ pairs, p.1 ≠ target ∧ e = ⟨p.1, target, .data, p.2⟩ := by
  induction pairs generalizing g with
  | nil => simp
  | cons p pairs ih =>
      obtain ⟨source, label⟩ := p
      have start : (g.node? source).isSome := starts (source, label) List.mem_cons_self
      have one (e : OpEdge) := mem_edges_link label (e := e) start stop plain
      have kept := slots_link g source target label
      have rest := ih (link g source target label)
        (fun p member => by
          rw [OperationGraph.node?_congr kept]
          exact starts p (List.mem_cons_of_mem _ member))
        (by rw [OperationGraph.node?_congr kept]; exact stop)
        (fun x member => by
          rcases (one x).mp member with old | ⟨-, rfl⟩
          · exact plain x old
          · rfl)
      refine ⟨rest.1.trans kept, fun e => ?_⟩
      rw [List.foldl_cons, rest.2 e, one e]
      simp only [List.mem_cons, exists_eq_or_imp, or_assoc]

/-- The loop over the drafts: `ask i d` is what is asked for at the node of draft `d`. -/
theorem foldl_draw_spec (ask : Nat → Draft → List (OpId × String)) (listed : List (Draft × Nat))
    (g : OperationGraph) (stops : ∀ x ∈ listed, (g.node? (x.2 : OpId)).isSome)
    (starts : ∀ x ∈ listed, ∀ p ∈ ask x.2 x.1, (g.node? p.1).isSome)
    (plain : ∀ x ∈ g.edges, x.kind = .data) :
    (listed.foldl (fun g (d, i) =>
      (ask i d).foldl (fun g (source, label) => link g source (i : OpId) label) g) g).slots = g.slots ∧
    ∀ e, e ∈ (listed.foldl (fun g (d, i) =>
        (ask i d).foldl (fun g (source, label) => link g source (i : OpId) label) g) g).edges ↔
      e ∈ g.edges ∨ ∃ x ∈ listed, ∃ p ∈ ask x.2 x.1,
        p.1 ≠ (x.2 : OpId) ∧ e = ⟨p.1, (x.2 : OpId), .data, p.2⟩ := by
  induction listed generalizing g with
  | nil => simp
  | cons x listed ih =>
      obtain ⟨d, i⟩ := x
      have head := foldl_link_spec (ask i d) g (starts (d, i) List.mem_cons_self)
        (stops (d, i) List.mem_cons_self) plain
      have same := OperationGraph.node?_congr head.1
      have rest := ih _ (fun x member => by rw [same]; exact stops x (List.mem_cons_of_mem _ member))
        (fun x member p asked => by
          rw [same]; exact starts x (List.mem_cons_of_mem _ member) p asked)
        (fun x member => by
          rcases (head.2 x).mp member with old | ⟨p, -, -, rfl⟩
          · exact plain x old
          · rfl)
      refine ⟨rest.1.trans head.1, fun e => ?_⟩
      rw [List.foldl_cons, rest.2 e, head.2 e]
      simp only [List.mem_cons, exists_eq_or_imp, or_assoc]

/-! ## Sources -/

/-- The syntax a draft stands for. -/
def Draft.names (d : Draft) : List NodeId := d.origin.toList.map (·.id) ++ d.covers

/-- The table knows nothing but the drafts. -/
theorem mem_nodeTable {n : NodeId} {id : OpId} (found : (nodeTable drafts).lookup n = some id) :
    ∃ (i : Nat) (d : Draft), id = (i : OpId) ∧ drafts[i]? = some d ∧ n ∈ d.names := by
  obtain ⟨front, back, split, -⟩ := List.lookup_eq_some_iff.mp found
  have member : (n, id) ∈ nodeTable drafts := by simp [split]
  simp only [nodeTable, List.mem_reverse, List.mem_flatMap, List.mem_map, Prod.mk.injEq] at member
  obtain ⟨⟨d, i⟩, listed, s, named, rfl, rfl⟩ := member
  exact ⟨i, d, rfl, List.mem_zipIdx_iff_getElem?.mp listed, named⟩

theorem mem_nodes_graphOf {name : String} {m : OpNode} (member : m ∈ (graphOf name drafts).nodes) :
    ∃ (i : Nat) (d : Draft), drafts[i]? = some d ∧ m = d.placed i := by
  simp only [OperationGraph.nodes, slots_graphOf, List.mem_filterMap, List.mem_map] at member
  obtain ⟨_, ⟨⟨d, i⟩, listed, rfl⟩, same⟩ := member
  exact ⟨i, d, List.mem_zipIdx_iff_getElem?.mp listed, (Option.some.inj same).symm⟩

/-- The declaration that answers for a variable declares it. -/
theorem nearestDefine?_spec {name var : String} {id source : OpId}
    (found : nearestDefine? (graphOf name drafts) var id = some source) :
    ∃ (i : Nat) (d : Draft), source = (i : OpId) ∧ drafts[i]? = some d ∧
      d.node.isDefine = true ∧ d.node.variableName = var := by
  have member :
      source ∈ (((graphOf name drafts).definitionsOf var).filter (·.isDefine)).map (·.id) := by
    simp only [nearestDefine?] at found
    split at found
    · rename_i before last
      obtain rfl := Option.some.inj found
      exact (List.mem_filter.mp (List.mem_of_getLast? last)).1
    · exact List.mem_of_head? found
  obtain ⟨m, defines, rfl⟩ := List.mem_map.mp member
  obtain ⟨among, isDefine⟩ := List.mem_filter.mp defines
  simp only [OperationGraph.definitionsOf, List.mem_filter, Bool.and_eq_true, beq_iff_eq] at among
  obtain ⟨i, d, listed, rfl⟩ := mem_nodes_graphOf among.1
  exact ⟨i, d, rfl, listed, isDefine, among.2.1⟩

/-- An operand comes from its own node or, if it is a variable, from a declaration. -/
theorem operandSource?_cases {table : List (NodeId × OpId)} {id source : OpId} {arg : Node}
    (found : operandSource? u table g id arg = some source) :
    table.lookup (u.scope.strip arg).id = some source ∨
      ∃ m var, u.scope.strip arg = .name m var ∧ nearestDefine? g var id = some source := by
  simp only [operandSource?] at found
  split at found
  · rename_i known
    exact Or.inl (known.trans found)
  · obtain ⟨var, isName, nearest⟩ := Option.bind_eq_some_iff.mp found
    refine Or.inr ⟨(u.scope.strip arg).mark, var, ?_, nearest⟩
    cases shape : u.scope.strip arg <;> simp [shape, Node.name?] at isName
    simp [Node.mark, isName]

/-- The three sorts of edges: into a declaration from its value, into an operation from its
operands, and along the flow dependences. -/
theorem mem_wiring {table : List (NodeId × OpId)} {id : OpId} {d : Draft} {p : OpId × String} :
    p ∈ wiring u cpg table g id d ↔ ∃ n, d.origin = some n ∧
      ((p.2 = initLabel ∧ ∃ v, initializer? d = some v ∧
          table.lookup (u.scope.strip v).id = some p.1) ∨
        (∃ i arg, (operandsOf u n)[i]? = some arg ∧ operandSource? u table g id arg = some p.1 ∧
          p.2 = argLabel i) ∨
        ∃ dep ∈ cpg.incomingFlow n.id, table.lookup dep.source = some p.1 ∧ p.2 = dep.var) := by
  obtain ⟨source, label⟩ := p
  unfold wiring
  split
  · rename_i absent
    simp [absent]
  · rename_i n origin
    simp only [List.mem_append, List.mem_map, Option.mem_toList, List.mem_filterMap,
      Option.bind_eq_some_iff, Option.map_eq_some_iff, Prod.mk.injEq, origin, Option.some.injEq,
      exists_eq_left', List.mem_zipIdx_iff_getElem?, Prod.exists, or_assoc]
    refine or_congr ?_ (or_congr ?_ ?_)
    · constructor
      · rintro ⟨_, ⟨v, init, found⟩, rfl, rfl⟩
        exact ⟨rfl, v, init, found⟩
      · rintro ⟨rfl, v, init, found⟩
        exact ⟨source, ⟨v, init, found⟩, rfl, rfl⟩
    · constructor
      · rintro ⟨arg, i, listed, _, found, rfl, rfl⟩
        exact ⟨i, arg, listed, found, rfl⟩
      · rintro ⟨i, arg, listed, found, rfl⟩
        exact ⟨arg, i, listed, source, found, rfl, rfl⟩
    · constructor
      · rintro ⟨dep, flows, _, found, rfl, rfl⟩
        exact ⟨dep, flows, found, rfl⟩
      · rintro ⟨dep, flows, found, rfl⟩
        exact ⟨dep, flows, source, found, rfl, rfl⟩

/-- Whatever the wiring asks for comes from a node that is there. -/
theorem wiring_starts {name : String} {id : OpId} {d : Draft} {p : OpId × String}
    (asked : p ∈ wiring u cpg (nodeTable drafts) (graphOf name drafts) id d) :
    ((graphOf name drafts).node? p.1).isSome := by
  suffices placed : ∃ (i : Nat) (d : Draft), p.1 = (i : OpId) ∧ drafts[i]? = some d by
    obtain ⟨i, d, same, listed⟩ := placed
    simp [same, node?_graphOf, listed]
  have known {n : NodeId} (found : (nodeTable drafts).lookup n = some p.1) :
      ∃ (i : Nat) (d : Draft), p.1 = (i : OpId) ∧ drafts[i]? = some d := by
    obtain ⟨i, d, same, listed, -⟩ := mem_nodeTable found
    exact ⟨i, d, same, listed⟩
  obtain ⟨n, -, ⟨-, v, -, found⟩ | ⟨i, arg, -, found, -⟩ | ⟨dep, -, found, -⟩⟩ := mem_wiring.mp asked
  · exact known found
  · rcases operandSource?_cases found with own | ⟨m, var, -, nearest⟩
    · exact known own
    · obtain ⟨i, d, same, listed, -⟩ := nearestDefine?_spec nearest
      exact ⟨i, d, same, listed⟩
  · exact known found

/-- Connecting a kernel leaves the nodes as they are and draws what the wiring asks for. -/
theorem connect_spec (u : SourceUnit) (cpg : PropertyGraph) (drafts : List Draft) (name : String) :
    (connect u cpg drafts (graphOf name drafts)).slots = (graphOf name drafts).slots ∧
    ∀ e, e ∈ (connect u cpg drafts (graphOf name drafts)).edges ↔
      ∃ (i : Nat) (d : Draft), drafts[i]? = some d ∧ e.source ≠ (i : OpId) ∧
        (e.source, e.label) ∈ wiring u cpg (nodeTable drafts) (graphOf name drafts) i d ∧
        e.target = (i : OpId) ∧ e.kind = .data := by
  have drawn := foldl_draw_spec
    (fun i d => wiring u cpg (nodeTable drafts) (graphOf name drafts) (i : OpId) d)
    drafts.zipIdx (graphOf name drafts)
    (fun x listed => by
      have found := List.mem_zipIdx_iff_getElem?.mp listed
      simp [node?_graphOf, found])
    (fun x _ p asked => wiring_starts asked)
    (by simp [edges_graphOf])
  refine ⟨drawn.1, fun e => (drawn.2 e).trans ?_⟩
  simp only [edges_graphOf, List.not_mem_nil, false_or]
  constructor
  · rintro ⟨⟨d, i⟩, listed, ⟨source, label⟩, asked, apart, rfl⟩
    exact ⟨i, d, List.mem_zipIdx_iff_getElem?.mp listed, apart, asked, rfl, rfl⟩
  · rintro ⟨i, d, listed, apart, asked, target, kind⟩
    refine ⟨(d, i), List.mem_zipIdx_iff_getElem?.mpr listed, _, asked, apart, ?_⟩
    rw [← target, ← kind]

/-! ## Marks -/

end Lowering

namespace OpNode

/-- The node without the mark that makes it vector code. -/
def unmarked (n : OpNode) : OpNode :=
  { n with props := n.props.filter (·.1 != PropKey.vectorize.text) }

theorem unmarked_setProp (n : OpNode) (value : String) :
    (n.setProp PropKey.vectorize.text value).unmarked = n.unmarked := by
  simp [unmarked, setProp, List.filter_append]

end OpNode

namespace Lowering

variable {u : SourceUnit} {cpg : PropertyGraph} {k : KernelFn} {target : Option Architecture}

theorem mark_spec (ids : List Nat) (g : OperationGraph) :
    (mark g (ids.map fun i : Nat => (i : OpId))).edges = g.edges ∧
    (mark g (ids.map fun i : Nat => (i : OpId))).slots.map (·.map (·.unmarked)) =
      g.slots.map (·.map (·.unmarked)) := by
  induction ids generalizing g with
  | nil => exact ⟨rfl, rfl⟩
  | cons i ids ih =>
      have rest := ih (g.update (i : OpId) (·.setProp PropKey.vectorize.text "true"))
      refine ⟨rest.1.trans ?_, rest.2.trans ?_⟩
      · unfold OperationGraph.update
        split <;> rfl
      · rw [OperationGraph.slots_update]
        refine List.ext_getElem? fun j => ?_
        simp only [List.getElem?_map, List.getElem?_modify]
        cases g.slots[j]? with
        | none => rfl
        | some slot =>
            by_cases here : i = j
            · cases slot with
              | none => simp [here]
              | some n => simp [here, OpNode.unmarked_setProp]
            · simp [here]

/-! ## The whole graph -/

/-- The graph of a kernel with a body. -/
def lowered (u : SourceUnit) (cpg : PropertyGraph) (k : KernelFn) (target : Option Architecture) :
    OperationGraph := (convertBody u cpg k target).1

theorem convert_graph {source : Option Architecture} (hasBody : k.hasBody = true) :
    (convert u cpg k source target).value.1.graph = lowered u (cpg.build u k).value k target := by
  unfold convert
  simp only [hasBody, Bool.not_true]
  rfl

variable (u cpg k target) in
theorem lowered_cases :
    lowered u cpg k target = connect u cpg (draftsOf u k) (graphOf k.name (draftsOf u k))
    ∨ ∃ ids : List Nat, lowered u cpg k target =
      mark (connect u cpg (draftsOf u k) (graphOf k.name (draftsOf u k)))
        (ids.map fun i : Nat => (i : OpId)) := by
  unfold lowered convertBody
  simp only
  split
  · split
    · refine Or.inr ⟨((draftsOf u k).zipIdx.filter fun (d, _) => isMarked d).map (·.2), ?_⟩
      rw [List.map_map]
      rfl
    · exact Or.inl rfl
  · exact Or.inl rfl

variable (u cpg k target) in
/-- The node in slot `i` is the draft at position `i`, marks apart. -/
theorem slots_lowered : (lowered u cpg k target).slots.map (·.map (·.unmarked)) =
    (draftsOf u k).zipIdx.map fun (d, i) => some (d.placed i).unmarked := by
  have wired : (connect u cpg (draftsOf u k) (graphOf k.name (draftsOf u k))).slots.map
      (·.map (·.unmarked)) = (draftsOf u k).zipIdx.map fun (d, i) => some (d.placed i).unmarked := by
    rw [(connect_spec _ _ _ k.name).1, slots_graphOf, List.map_map]
    rfl
  rcases lowered_cases u cpg k target with same | ⟨ids, same⟩
  · rw [same, wired]
  · rw [same, (mark_spec ids _).2, wired]

variable (u cpg k target) in
theorem node?_lowered (i : Nat) : ((lowered u cpg k target).node? (i : OpId)).map (·.unmarked) =
    ((draftsOf u k)[i]?).map fun d => (d.placed i).unmarked := by
  have slot := congrArg (·[i]?) (slots_lowered u cpg k target)
  simp only [List.getElem?_map, List.getElem?_zipIdx, Option.map_map] at slot
  rw [OperationGraph.node?_natCast]
  cases found : (lowered u cpg k target).slots[i]? with
  | none =>
      cases listed : (draftsOf u k)[i]? with
      | none => rfl
      | some d => simp [found, listed] at slot
  | some n =>
      cases listed : (draftsOf u k)[i]? with
      | none => simp [found, listed] at slot
      | some d => simpa [found, listed] using slot

/-- An edge is there exactly if the wiring of its target asks for it. -/
theorem mem_edges_lowered {e : OpEdge} : e ∈ (lowered u cpg k target).edges ↔
    ∃ (i : Nat) (d : Draft), (draftsOf u k)[i]? = some d ∧ e.source ≠ (i : OpId) ∧
      (e.source, e.label) ∈
        wiring u cpg (nodeTable (draftsOf u k)) (graphOf k.name (draftsOf u k)) i d ∧
      e.target = (i : OpId) ∧ e.kind = .data := by
  have wired := (connect_spec u cpg (draftsOf u k) k.name).2 e
  rcases lowered_cases u cpg k target with same | ⟨ids, same⟩
  · rw [same, wired]
  · rw [same, (mark_spec ids _).1, wired]

variable (u cpg k target) in
/-- What neither marks nor numbers touch is the same in the graph and in the drafts. -/
theorem map_nodes_lowered {α : Type} (f : OpNode → α) (steady : ∀ n : OpNode, f n.unmarked = f n)
    (placed : ∀ (d : Draft) (i : Nat), f (d.placed i) = f d.node) :
    (lowered u cpg k target).nodes.map f = (draftsOf u k).map fun d => f d.node := by
  have live (g : OperationGraph) : g.nodes.map f =
      (g.slots.map (·.map (·.unmarked))).filterMap (·.map f) := by
    rw [OperationGraph.nodes, List.map_filterMap, List.filterMap_map]
    refine List.filterMap_congr fun slot _ => ?_
    cases slot with
    | none => rfl
    | some n => exact congrArg some (steady n).symm
  have drafted : (draftsOf u k).zipIdx.filterMap (fun x => some (f (x.1.placed x.2).unmarked)) =
      (draftsOf u k).zipIdx.map ((fun d => f d.node) ∘ Prod.fst) := by
    rw [List.filterMap_eq_map']
    refine List.map_congr_left fun x _ => ?_
    simp [steady, placed]
  rw [live, slots_lowered, List.filterMap_map]
  refine drafted.trans ?_
  rw [← List.map_map, List.zipIdx_map_fst]

end Lowering

end Retarget
