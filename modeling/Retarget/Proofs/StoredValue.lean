/-
# Proofs.StoredValue -- values that are stored, and the nodes that feed them
-/
import Retarget.Proofs.EmittedLine
import Retarget.Proofs.StatementNode
import Retarget.Proofs.StoringText

namespace Retarget

open Retarget.Source (Node NodeId Mark)

set_option autoImplicit false
set_option linter.dupNamespace false

/-- A value that has a node of its own reads the same without what is stripped of it. -/
def Emitter.Unwrapped (e : Emitter) (v : Node) : Prop :=
  (∃ source, Lowering.StandsFor e.unit e.kernel source v) →
    e.print (e.unit.scope.strip v) = e.print v

/-! ## The graph of a kernel that no rule matches -/

/-- No variable that flows into a node of the kernel is called like the mark of initialisers. -/
def Lowering.InitApart (u : SourceUnit) (cpg : PropertyGraph) (k : KernelFn) : Prop :=
  ∀ d ∈ draftsOf u k, ∀ n ∈ d.origin, ∀ dep ∈ cpg.incomingFlow n.id, dep.var ≠ initLabel

/-- The emission works with the graph of its kernel. -/
structure Emitter.Lowered (e : Emitter) (cpg : PropertyGraph) (root : Node) : Prop where
  numbered : e.unit.Numbered
  listed : e.kernel ∈ e.unit.kernels
  body : e.kernel.body = some root
  graph : ∃ target, e.graph = Lowering.lowered e.unit cpg e.kernel target

/-- The emission works with the graph of its kernel, in which no variable that flows is called like
the mark of initialisers. -/
structure Emitter.Drawn (e : Emitter) (cpg : PropertyGraph) (root : Node) : Prop
    extends e.Lowered cpg root where
  phrased : e.unit.Phrased
  apart : Lowering.InitApart e.unit cpg e.kernel

/-- The same where no rule matches the kernel, which lies where the unit says. -/
structure Emitter.Unruled (e : Emitter) (cpg : PropertyGraph) (root : Node) : Prop
    extends e.Drawn cpg root where
  inside : ∀ n ∈ root.preorder, e.unit.enclosing? n = some e.kernel
  unmatched : e.Unmatched
  scalar : e.target = .scalar

/-- The nodes of a conversion are drawn from the body of the kernel; without one there are none. -/
theorem Emitter.exists_lowered {e : Emitter} {cpg : PropertyGraph} {source goal : Option Architecture}
    (numbered : e.unit.Numbered) (listed : e.kernel ∈ e.unit.kernels)
    (graph : e.graph = (convert e.unit cpg e.kernel source goal).value.1.graph) {m : OpNode}
    (member : m ∈ e.graph.nodes) :
    e.graph = Lowering.lowered e.unit (cpg.build e.unit e.kernel).value e.kernel goal ∧
      ∃ root, e.Lowered (cpg.build e.unit e.kernel).value root := by
  by_cases hasBody : e.kernel.hasBody = true
  · obtain ⟨root, body⟩ := Option.isSome_iff_exists.mp hasBody
    have lowered := graph.trans (Lowering.convert_graph hasBody)
    exact ⟨lowered, root, {
      numbered := numbered
      listed := listed
      body := body
      graph := ⟨goal, lowered⟩ }⟩
  · have bare : e.graph = OperationGraph.new e.kernel.name := by
      rw [graph]
      unfold convert
      simp [hasBody]
    rw [bare] at member
    cases member

theorem Emitter.exists_drawn {e : Emitter} {cpg : PropertyGraph} {source goal : Option Architecture}
    (numbered : e.unit.Numbered) (phrased : e.unit.Phrased) (listed : e.kernel ∈ e.unit.kernels)
    (graph : e.graph = (convert e.unit cpg e.kernel source goal).value.1.graph)
    (apart : Lowering.InitApart e.unit (cpg.build e.unit e.kernel).value e.kernel) {m : OpNode}
    (member : m ∈ e.graph.nodes) :
    e.graph = Lowering.lowered e.unit (cpg.build e.unit e.kernel).value e.kernel goal ∧
      ∃ root, e.Drawn (cpg.build e.unit e.kernel).value root := by
  obtain ⟨lowered, root, placed⟩ := exists_lowered numbered listed graph member
  exact ⟨lowered, root, { placed with phrased := phrased, apart := apart }⟩

/-- A node has the operation, the variable and the kind of its draft. -/
theorem Emitter.operation_eq {m : OpNode} {d : Lowering.Draft} {i : Nat}
    (same : m.unmarked = (d.placed i).unmarked) :
    m.operation = d.node.operation ∧ m.variableName = d.node.variableName ∧
      m.kind = d.node.kind := by
  have prop {key : PropKey} (other : key ≠ .vectorize) : m.prop key = d.node.prop key := by
    rw [← m.prop_unmarked other, same, OpNode.prop_unmarked _ other]
    rfl
  have kind := congrArg OpNode.kind same
  exact ⟨prop nofun, prop nofun, kind⟩

namespace Emitter.Lowered

open Lowering (draftsOf Draft)

variable {e : Emitter} {cpg : PropertyGraph} {root : Node} (drawn : e.Lowered cpg root)

include drawn

theorem mem_nodes {n : Node} (below : n ∈ root.preorder) : n ∈ e.unit.nodes :=
  SourceUnit.mem_nodes_of_tree (SourceUnit.tree_of_body drawn.listed drawn.body) below

theorem drafted : draftsOf e.unit e.kernel = Lowering.lower e.unit e.kernel false root := by
  simp [draftsOf, drawn.body]

theorem bears {d : Draft} (member : d ∈ draftsOf e.unit e.kernel) : d.Bears root :=
  Lowering.lower_bears root false d (drawn.drafted ▸ member)

/-- A node of the graph is a draft, marks apart. -/
theorem exists_draft {m : OpNode} (member : m ∈ e.graph.nodes) : ∃ (i : Nat) (d : Draft),
    m.id = (i : OpId) ∧ (draftsOf e.unit e.kernel)[i]? = some d ∧
      m.unmarked = (d.placed i).unmarked := by
  obtain ⟨target, graph⟩ := drawn.graph
  rw [graph] at member
  obtain ⟨i, here, id⟩ := Lowering.exists_slot member
  have placed := Lowering.node?_lowered e.unit cpg e.kernel target i
  rw [here, Option.map_some, eq_comm, Option.map_eq_some_iff] at placed
  obtain ⟨d, listed, same⟩ := placed
  exact ⟨i, d, id, listed, same.symm⟩

/-- A node stands for the syntax of its draft. -/
theorem syntaxOf_eq {m : OpNode} {d : Draft} {i : Nat} (same : m.unmarked = (d.placed i).unmarked)
    (member : d ∈ draftsOf e.unit e.kernel) : e.syntaxOf m = d.origin := by
  have stmt := congrArg OpNode.stmt same
  change m.stmt = d.node.stmt at stmt
  have bears := drawn.bears member
  rw [syntaxOf, stmt, bears.stmt]
  cases origin : d.origin with
  | none => rfl
  | some n => exact drawn.numbered.node?_of_mem (drawn.mem_nodes (bears.among n origin))

theorem node?_id {m : OpNode} (member : m ∈ e.graph.nodes) : e.graph.node? m.id = some m := by
  obtain ⟨target, graph⟩ := drawn.graph
  rw [graph] at member ⊢
  obtain ⟨i, here, id⟩ := Lowering.exists_slot member
  rw [id, here]

/-- The node at the place of a draft is that draft, marks apart. -/
theorem unmarked_eq {d : Draft} {i : Nat} {m : OpNode} (here : e.graph.node? (i : OpId) = some m)
    (listed : (draftsOf e.unit e.kernel)[i]? = some d) : m.unmarked = (d.placed i).unmarked := by
  obtain ⟨target, graph⟩ := drawn.graph
  have placed := Lowering.node?_lowered e.unit cpg e.kernel target i
  rwa [← graph, here, listed, Option.map_some, Option.map_some, Option.some_inj] at placed

end Emitter.Lowered

namespace Emitter.Drawn

open Lowering (draftsOf StandsFor initLabel nodeTable lowered Draft)

variable {e : Emitter} {cpg : PropertyGraph} {root : Node} (drawn : e.Drawn cpg root)

include drawn

theorem expression {n x : Node} (below : n ∈ root.preorder) (stands : x ∈ n.expressions) :
    x ∈ root.preorder ∧ x.isExpr = true :=
  ⟨Node.preorder_trans
      (Node.child_preorder (n.expressions_subset_children stands) x.self_mem_preorder) below,
    drawn.phrased n (drawn.mem_nodes below) x stands⟩

/-! ## What feeds a store -/

/-- What stands for an expression has its text. -/
theorem print_of_standsFor {source : OpId} {v : Node} (isExpr : (e.unit.scope.strip v).isExpr = true)
    (below : e.unit.scope.strip v ∈ root.preorder) (stands : StandsFor e.unit e.kernel source v)
    {m : OpNode} (here : e.graph.node? source = some m) :
    e.printOpt (e.syntaxOf m) = e.print (e.unit.scope.strip v) := by
  obtain ⟨target, graph⟩ := drawn.graph
  obtain ⟨i, d, rfl, listed, named⟩ := stands
  have member := List.mem_of_getElem? listed
  have placed := Lowering.node?_lowered e.unit cpg e.kernel target i
  rw [← graph, here, listed, Option.map_some, Option.map_some, Option.some_inj] at placed
  rw [drawn.syntaxOf_eq placed member]
  suffices origin : d.origin = some (e.unit.scope.strip v) by rw [origin]; rfl
  rcases List.mem_append.mp named with own | covered
  · obtain ⟨n, isOrigin, same⟩ := List.mem_map.mp own
    have origin := Option.mem_toList.mp isOrigin
    rwa [← drawn.numbered.inj (drawn.mem_nodes ((drawn.bears member).among n origin))
      (drawn.mem_nodes below) same]
  · rcases Lowering.lower_covers root false d (drawn.drafted ▸ member) _ covered with
      ⟨w, inner, same, other⟩ | ⟨x, inner, same, origin⟩
    · obtain rfl := drawn.numbered.inj (drawn.mem_nodes inner) (drawn.mem_nodes below) same
      rw [isExpr] at other
      cases other
    · obtain rfl := drawn.numbered.inj (drawn.mem_nodes inner) (drawn.mem_nodes below) same
      rw [origin, Kernel.Scope.strip_strip]

/-- The edge of an initialiser comes from the node of the value that is stored. -/
theorem lookup_of_init {edge : OpEdge} (joins : edge ∈ e.graph.edges) {i : Nat} {d : Draft}
    (listed : (draftsOf e.unit e.kernel)[i]? = some d) (target : edge.target = (i : OpId))
    (label : edge.label = initLabel) : ∃ v, Lowering.initializer? d = some v ∧
      (nodeTable (draftsOf e.unit e.kernel)).lookup (e.unit.scope.strip v).id = some edge.source := by
  obtain ⟨arch, graph⟩ := drawn.graph
  rw [graph] at joins
  obtain ⟨j, d', listed', -, asked, target', -⟩ := Lowering.mem_edges_lowered.mp joins
  obtain rfl : j = i := Int.ofNat_inj.mp (target'.symm.trans target)
  obtain rfl := Option.some.inj (listed'.symm.trans listed)
  obtain ⟨n, origin, sort⟩ := Lowering.mem_wiring.mp asked
  rcases sort with ⟨-, init⟩ | ⟨i, arg, -, -, other⟩ | ⟨dep, flows, -, named⟩
  · exact init
  · exact absurd (other.symm.trans label) (argLabel_ne_initLabel i)
  · exact absurd (named.symm.trans label)
      (drawn.apart d' (List.mem_of_getElem? listed) n origin dep flows)

section Fed

variable {m : OpNode} {d : Draft} {i : Nat} {v : Node}

/-- A store is fed by nothing if what is stored has no node of its own. -/
theorem unfed (listed : (draftsOf e.unit e.kernel)[i]? = some d) (id : m.id = (i : OpId))
    (alone : ∀ v, Lowering.initializer? d = some v → ¬∃ source, StandsFor e.unit e.kernel source v) :
    e.graph.input? m.id initLabel = none := by
  cases fed : e.graph.input? m.id initLabel with
  | none => rfl
  | some source =>
      obtain ⟨edge, first, -⟩ := Option.bind_eq_some_iff.mp fed
      have fits := List.find?_some first
      simp only [Bool.and_eq_true, beq_iff_eq] at fits
      obtain ⟨v, init, found⟩ := drawn.lookup_of_init (List.mem_of_find?_eq_some first) listed
        (fits.1.1.trans id) fits.2
      exact absurd ⟨_, Lowering.standsFor_of_lookup found⟩ (alone v init)

/-- A store of a value without a node of its own is fed by nothing. -/
theorem unfed_value (listed : (draftsOf e.unit e.kernel)[i]? = some d) (id : m.id = (i : OpId))
    (init : Lowering.initializer? d = some v)
    (alone : ¬∃ source, StandsFor e.unit e.kernel source v) :
    e.graph.input? m.id initLabel = none := by
  refine drawn.unfed listed id fun w init' => ?_
  obtain rfl := Option.some.inj (init.symm.trans init')
  exact alone

/-- A store of a value that has a node is fed by a node that stands for the stripped value. -/
theorem fed_node (listed : (draftsOf e.unit e.kernel)[i]? = some d) (id : m.id = (i : OpId))
    (init : Lowering.initializer? d = some v) (other : (e.unit.scope.strip v).id ∉ d.names)
    (stands : ∃ source, StandsFor e.unit e.kernel source v) :
    ∃ source start, e.graph.input? m.id initLabel = some source ∧
      e.graph.node? start = some source ∧ StandsFor e.unit e.kernel start v := by
  obtain ⟨arch, graph⟩ := drawn.graph
  obtain ⟨_, _, _, -, placed, named⟩ := stands
  obtain ⟨start, found⟩ := Lowering.exists_lookup placed named
  have stands := Lowering.standsFor_of_lookup found
  obtain ⟨j, d', rfl, listed', named'⟩ := stands
  have joins : (⟨(j : OpId), (i : OpId), .data, initLabel⟩ : OpEdge) ∈ e.graph.edges := by
    rw [graph]
    refine Lowering.mem_edges_lowered.mpr ⟨i, d, listed, ?_, ?_, rfl, rfl⟩
    · rintro same
      obtain rfl : j = i := Int.ofNat_inj.mp same
      obtain rfl := Option.some.inj (listed.symm.trans listed')
      exact other named'
    · obtain ⟨n, origin⟩ := Lowering.exists_origin init
      exact Lowering.mem_wiring.mpr ⟨n, origin, Or.inl ⟨rfl, v, init, found⟩⟩
  -- whichever edge is found first comes from the same node
  obtain ⟨edge, first⟩ : ∃ edge, e.graph.edges.find? (fun edge =>
      edge.target == m.id && edge.kind == .data && edge.label == initLabel) = some edge :=
    Option.isSome_iff_exists.mp (List.find?_isSome.mpr ⟨_, joins, by simp [id]⟩)
  have fits := List.find?_some first
  simp only [Bool.and_eq_true, beq_iff_eq] at fits
  obtain ⟨w, init', found'⟩ := drawn.lookup_of_init (List.mem_of_find?_eq_some first) listed
    (fits.1.1.trans id) fits.2
  obtain rfl := Option.some.inj (init.symm.trans init')
  have source : edge.source = (j : OpId) := Option.some.inj (found'.symm.trans found)
  obtain ⟨node, here⟩ : ∃ node, e.graph.node? (j : OpId) = some node := by
    have placed := Lowering.node?_lowered e.unit cpg e.kernel arch j
    rw [← graph, listed'] at placed
    obtain ⟨node, here, -⟩ := Option.map_eq_some_iff.mp placed
    exact ⟨node, here⟩
  refine ⟨node, j, ?_, here, j, d', rfl, listed', named'⟩
  rw [OperationGraph.input?, first]
  exact (congrArg e.graph.node? source).trans here

/-- A store of a value that has a node is fed by a node with the text of the stripped value. -/
theorem fed (listed : (draftsOf e.unit e.kernel)[i]? = some d) (id : m.id = (i : OpId))
    (init : Lowering.initializer? d = some v)
    (isExpr : (e.unit.scope.strip v).isExpr = true) (below : e.unit.scope.strip v ∈ root.preorder)
    (other : (e.unit.scope.strip v).id ∉ d.names)
    (stands : ∃ source, StandsFor e.unit e.kernel source v) :
    ∃ source, e.graph.input? m.id initLabel = some source ∧
      e.printOpt (e.syntaxOf source) = e.print (e.unit.scope.strip v) := by
  obtain ⟨source, start, input, here, alike⟩ := drawn.fed_node listed id init other stands
  exact ⟨source, input, drawn.print_of_standsFor isExpr below alike here⟩

end Fed

/-! ## Values -/

section Values

variable {s v : Node} {d : Draft} {i : Nat} {m : OpNode} (below : v ∈ root.preorder)
  (isExpr : v.isExpr = true)

include below isExpr

theorem strip_isExpr : (e.unit.scope.strip v).isExpr = true :=
  e.unit.scope.strip_isExpr isExpr fun a inner =>
    drawn.phrased a (drawn.mem_nodes (Node.preorder_trans inner below))

/-- What stands for a statement does not stand for an expression in it. -/
theorem strip_not_named (member : d ∈ draftsOf e.unit e.kernel) (origin : d.origin = some s)
    (isStmt : s.isExpr = false) : (e.unit.scope.strip v).id ∉ d.names := by
  have stripped := drawn.strip_isExpr below isExpr
  have there := drawn.mem_nodes (e.unit.scope.strip_mem_preorder below)
  have apart : e.unit.scope.strip v ≠ s := by
    rintro rfl
    rw [stripped] at isStmt
    cases isStmt
  intro named
  rcases List.mem_append.mp named with own | covered
  · rw [origin] at own
    refine apart (drawn.numbered.inj there (drawn.mem_nodes ?_) (by simpa using own))
    exact (drawn.bears member).among s origin
  · rcases Lowering.lower_covers root false d (drawn.drafted ▸ member) _ covered with
      ⟨w, inner, same, other⟩ | ⟨x, inner, same, alike⟩
    · obtain rfl := drawn.numbered.inj (drawn.mem_nodes inner) there same
      rw [stripped] at other
      cases other
    · obtain rfl := drawn.numbered.inj (drawn.mem_nodes inner) there same
      rw [Kernel.Scope.strip_strip] at alike
      exact apart (Option.some.inj (alike.symm.trans origin))

/-- What is stored is the value as it is printed, exactly if it is not wrapped. -/
theorem storedText_spec (listed : (draftsOf e.unit e.kernel)[i]? = some d)
    (id : m.id = (i : OpId)) (init : Lowering.initializer? d = some v) (origin : d.origin = some s)
    (isStmt : s.isExpr = false) : trimmed (e.storedText m (e.print v)) = e.storedText m (e.print v) ∧
      (e.storedText m (e.print v) = e.print v ↔ e.Unwrapped v) := by
  unfold storedText Unwrapped
  by_cases stands : ∃ source, StandsFor e.unit e.kernel source v
  · obtain ⟨source, fed, text⟩ := drawn.fed listed id init (drawn.strip_isExpr below isExpr)
      (e.unit.scope.strip_mem_preorder below)
      (drawn.strip_not_named below isExpr (List.mem_of_getElem? listed) origin isStmt) stands
    rw [fed]
    simp only [text, trimmed_print, stands, true_and, forall_const]
  · rw [drawn.unfed_value listed id init stands]
    simp [stands]

end Values

end Emitter.Drawn

end Retarget
