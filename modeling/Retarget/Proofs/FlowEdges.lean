/-
# Proofs.FlowEdges -- flow between statements is drawn
-/
import Retarget.Proofs.AliasOrigin
import Retarget.Proofs.Bracketing
import Retarget.Proofs.DataDependence
import Retarget.Proofs.FlowNodes
import Retarget.Proofs.LoweredNames

namespace Retarget

open Retarget.Source (Node NodeId Mark)

set_option autoImplicit false
set_option linter.dupNamespace false

/-! ## Sources of flow -/

theorem Kernel.Scope.writes_of_defUse (scope : Kernel.Scope) {n : Node}
    (defines : (scope.defUse n).defs ≠ []) : n.writes = true := by
  cases n with
  | assign | step | valueSpec | declStmt | rangeStmt => rfl
  | forStmt m init cond => cases cond <;> exact absurd rfl defines
  | _ => exact absurd rfl defines

namespace SourceUnit

variable {u : SourceUnit}

/-- The number is that of a statement or specification that writes. -/
def Writer (u : SourceUnit) (s : NodeId) : Prop := ∃ w ∈ u.nodes, w.id = s ∧ w.writes = true

theorem writer_of_defs {s : NodeId} (defines : (u.defUseOf s).defs ≠ []) : u.Writer s := by
  unfold defUseOf at defines
  cases found : u.node? s with
  | none => simp [found] at defines
  | some w =>
      obtain ⟨member, same⟩ := mem_of_node? found
      refine ⟨w, member, same, u.scope.writes_of_defUse ?_⟩
      simpa [found] using defines

theorem defs_of_accessTo {stmts : List NodeId} {s : NodeId} {v : String}
    (defines : v ∈ (u.accessTo stmts).defs s) : v ∈ (u.defUseOf s).defs := by
  simp only [accessTo, Access.ofTable, u.lookup_defUse] at defines
  split at defines
  · exact defines
  · cases defines

theorem declOf?_spec {s : NodeId} {d : Node} (found : u.declOf? s = some d) :
    d ∈ u.nodes ∧ ∃ m dm kind specs, d = .declStmt m (.decl dm kind specs) ∧ ∃ spec ∈ specs, spec.id = s := by
  obtain ⟨t, tree, inner⟩ := List.exists_of_findSome?_eq_some found
  refine ⟨mem_nodes_of_tree tree (List.mem_of_find?_eq_some inner), ?_⟩
  have holds := List.find?_some inner
  split at holds
  · obtain ⟨spec, member, same⟩ := List.any_eq_true.mp holds
    exact ⟨_, _, _, _, rfl, spec, member, by simpa using same⟩
  · cases holds

theorem Numbered.apt (numbered : u.Numbered) {t : Node} (tree : t ∈ u.trees) :
    Lowering.Apt u.Writer t := by
  rintro a below silent ⟨w, member, same, writes⟩
  obtain rfl := numbered.inj member (mem_nodes_of_tree tree below) same
  exact Bool.false_ne_true (silent.symm.trans writes)

end SourceUnit

namespace PropertyGraph

variable {u : SourceUnit} {g : PropertyGraph} {b : BuiltKernel} {dep : DataDep}

/-- The dependence is among those found for a kernel that is built. -/
def Records (g : PropertyGraph) (dep : DataDep) : Prop :=
  ∃ b ∈ g.built, ∃ n, dep ∈ (b.facts.deps.record n).data

/-- The statement is answered for by the node of `stmt`. -/
def AnswersFor (g : PropertyGraph) (owner stmt : NodeId) : Prop :=
  ∃ s, g.slotOf? owner = some s ∧ g.Resolves stmt s

/-- What is found for a kernel leads from a write in its flow graph to a node of it. -/
theorem BuiltKernel.dep_spec (numbered : u.Numbered) (stands : b.Stands u g) {n : NodeId}
    (found : dep ∈ (b.facts.deps.record n).data) (flow : dep.kind = .flow) :
    dep ∈ (b.facts.deps.record dep.sink).data ∧ dep.sink ∈ b.stmts ∧
      dep.var ∈ (u.defUseOf dep.source).defs := by
  obtain ⟨k, listed, describes⟩ := stands.listed
  have distinct := numbered.statements_nodup listed describes.graph
  rw [describes.facts, record_data, List.mem_filter] at found
  obtain ⟨s, stands, into⟩ := List.mem_flatMap.mp found.1
  obtain ⟨rfl, origin⟩ := mem_depsInto.mp into
  rw [flow] at origin
  obtain ⟨-, defines, -⟩ := reaches_of_mem_originsOf distinct origin.2
  refine ⟨?_, describes.stmts ▸ stands, SourceUnit.defs_of_accessTo defines⟩
  rw [describes.facts, record_data, List.mem_filter]
  exact ⟨found.1, by simp⟩

/-! ## The name a statement is known by -/

theorem Wired.canonical_of_answers {calls : List CallRecord} {owner stmt : NodeId}
    (answers : g.AnswersFor owner stmt) (wired : g.Wired u calls) :
    g.canonical owner = stmt ∧ (g.index.lookup stmt).isSome = true := by
  obtain ⟨s, slot, n, here, -, named, -⟩ := answers
  obtain ⟨m, there, -, own, -⟩ := wired.resolves_of_lookup slot
  obtain rfl := Option.some.inj (here.symm.trans there)
  obtain rfl := Option.some.inj (own.symm.trans named)
  exact ⟨rfl, Option.isSome_of_eq_some slot⟩

/-- A statement with a node is known by its own name. -/
theorem canonical_of_indexed {stmt : NodeId} (indexed : (g.index.lookup stmt).isSome = true) :
    g.canonical stmt = stmt := if_pos indexed

theorem canonical_cases {owner stmt : NodeId} (known : g.canonical owner = stmt) :
    owner = stmt ∨ (owner, stmt) ∈ g.aliases := by
  unfold canonical at known
  split at known
  · exact Or.inl known
  · cases found : g.aliases.lookup owner with
    | none => exact Or.inl (by simpa [found] using known)
    | some other =>
        obtain rfl : other = stmt := by simpa [found] using known
        obtain ⟨front, back, split, -⟩ := List.lookup_eq_some_iff.mp found
        exact Or.inr (by simp [split])

/-- What is known of a statement with a node is what is known of the kernel it stands in. -/
theorem Wired.infoOf?_eq (numbered : u.Numbered) {calls : List CallRecord} (wired : g.Wired u calls)
    (built : b ∈ g.built) {stmt : NodeId} (stands : stmt ∈ b.stmts)
    (indexed : (g.index.lookup stmt).isSome = true) : g.infoOf? stmt = some b := by
  obtain ⟨s, slot⟩ := Option.isSome_iff_exists.mp indexed
  obtain ⟨front, back, split, -⟩ := List.lookup_eq_some_iff.mp slot
  obtain ⟨c, builtC, standsC, own, -⟩ := wired.index stmt s (by simp [split])
  obtain ⟨n, here, -, kernel, -⟩ := (wired.kernels c builtC).own s own
  obtain ⟨k, listed, describes⟩ := (wired.kernels b built).listed
  obtain ⟨k', listed', describes'⟩ := (wired.kernels c builtC).listed
  obtain rfl : k = k' := numbered.kernel_eq_of_statement listed listed' describes.graph
    describes'.graph (describes.stmts ▸ stands) (describes'.stmts ▸ standsC)
  obtain rfl : b = c :=
    wired.kernel_inj built builtC (describes.kernel.trans describes'.kernel.symm)
  have resolved : g.slotOf? stmt = some s := by rw [slotOf?, canonical_of_indexed indexed, slot]
  have same : g.builtKernel? n.kernel = some b :=
    (show n.kernel = b.kernel from kernel) ▸ wired.builtKernel?_eq built
  simp [infoOf?, resolved, here, same]

/-- The flow into a statement, asked for by any of its names. -/
theorem Wired.mem_incomingFlow (numbered : u.Numbered) {calls : List CallRecord}
    (wired : g.Wired u calls) (records : g.Records dep) (flow : dep.kind = .flow) {owner : NodeId}
    (answers : g.AnswersFor owner dep.sink) : dep ∈ g.incomingFlow owner := by
  obtain ⟨b, built, n, found⟩ := records
  obtain ⟨recorded, stands, -⟩ := BuiltKernel.dep_spec numbered (wired.kernels b built) found flow
  obtain ⟨known, indexed⟩ := wired.canonical_of_answers answers
  have self := canonical_of_indexed indexed
  have record : g.dataDepsOf dep.sink = (b.facts.deps.record dep.sink).data := by
    rw [dataDepsOf, depRecord?, wired.infoOf?_eq numbered built stands indexed, self]
    rfl
  rw [incomingFlow, known, record, List.mem_filter]
  exact ⟨recorded, by simp [flow]⟩

end PropertyGraph

/-! ## The name of a node -/

namespace Lowering

variable {u : SourceUnit} {k : KernelFn} {g : PropertyGraph}

/-- A declaration that is not of exactly one variable with at most one value. -/
def IsGrouped (n : Node) : Prop := ∃ m decl, n = .declStmt m decl ∧ singleSpec? decl = none

/-- What decides a branch writes nothing, unless it is the branching statement itself. -/
def BranchesOnTests (u : SourceUnit) : Prop :=
  ∀ k ∈ u.kernels, ∀ flow ∈ u.flowGraph? k, ∀ b ∈ flow.blocks, ∀ t ∈ b.terminator?,
    b.branch = some t ∨ (u.defUseOf t).defs = []

instance (u : SourceUnit) : Decidable (BranchesOnTests u) := by
  unfold BranchesOnTests; infer_instance

/-- A node that stands for a statement by another name bears that name, too. -/
theorem mem_names_of_answers (numbered : u.Numbered) (tests : BranchesOnTests u)
    (explained : PropertyGraph.Explained u g.aliases) {d : Draft} {n : Node} {stmt : NodeId}
    {root : Node} (tree : root ∈ u.trees) (bears : d.Bears root) (origin : d.origin = some n)
    (known : g.canonical n.id = stmt) (writes : (u.defUseOf stmt).defs ≠ [])
    (single : ¬IsGrouped n) : stmt ∈ d.names := by
  have own : n.id ∈ d.names := by simp [Draft.names, origin]
  have inside : n ∈ u.nodes := SourceUnit.mem_nodes_of_tree tree (bears.among n origin)
  rcases PropertyGraph.canonical_cases known with rfl | listed
  · exact own
  · cases explained _ _ listed with
    | branch k among flow found b block ends owns =>
        rcases tests k among flow found b block stmt ends with itself | silent
        · obtain rfl := Option.some.inj (owns.symm.trans itself)
          exact own
        · exact absurd silent writes
    | declaration d spec holds named found =>
        obtain ⟨member, m, dm, kind, specs, rfl, part, among, same⟩ := SourceUnit.declOf?_spec holds
        obtain rfl := numbered.inj member inside named
        cases one : singleSpec? (.decl dm kind specs) with
        | none => exact absurd ⟨m, _, rfl, one⟩ single
        | some found =>
            obtain ⟨spec, var, init⟩ := found
            have covered := bears.spec m _ spec var init origin one
            obtain ⟨_, _, sm, _, _, _, _, shape, rfl, -⟩ := singleSpec?_eq one
            cases shape
            obtain rfl := List.mem_singleton.mp among
            exact same ▸ covered
    | expression m x found named =>
        exact absurd (by simp [SourceUnit.defUseOf, found]; rfl) writes

/-- A node with syntax stands for a draft that bears it. -/
theorem exists_draft {root : Node} (body : k.body = some root) {target : Option Architecture}
    {i : Nat} {m : OpNode} {a : NodeId} (here : (lowered u g k target).node? (i : OpId) = some m)
    (named : m.stmt = some a) : ∃ d n, (draftsOf u k)[i]? = some d ∧ d.origin = some n ∧ n.id = a ∧
      d.Bears root := by
  have placed := node?_lowered u g k target i
  rw [here, Option.map_some, eq_comm, Option.map_eq_some_iff] at placed
  obtain ⟨d, listed, same⟩ := placed
  have drafted : draftsOf u k = lower u k false root := by simp [draftsOf, body]
  have bears := lower_bears root false d (drafted ▸ List.mem_of_getElem? listed)
  have stmt := congrArg OpNode.stmt same
  change d.node.stmt = m.stmt at stmt
  rw [bears.stmt, named, Option.map_eq_some_iff] at stmt
  obtain ⟨n, origin, id⟩ := stmt
  exact ⟨d, n, listed, origin, id, bears⟩

/-- Flow from a node to another is drawn, unless it comes out of a grouped declaration. -/
theorem flow_drawn (numbered : u.Numbered) (tests : BranchesOnTests u) (wired : g.Wired u g.calls)
    (explained : PropertyGraph.Explained u g.aliases) (listed : k ∈ u.kernels) {root : Node}
    (body : k.body = some root) {target : Option Architecture} {i j : Nat} {m n : OpNode}
    {a b : NodeId} {dep : DataDep} (apart : i ≠ j)
    (atI : (lowered u g k target).node? (i : OpId) = some m)
    (atJ : (lowered u g k target).node? (j : OpId) = some n) (ofM : m.stmt = some a)
    (ofN : n.stmt = some b) (records : g.Records dep) (flow : dep.kind = .flow)
    (source : g.AnswersFor a dep.source) (sink : g.AnswersFor b dep.sink)
    (single : ∀ w ∈ u.node? a, ¬IsGrouped w) :
    (⟨i, j, .data, dep.var⟩ : OpEdge) ∈ (lowered u g k target).edges := by
  have tree := SourceUnit.tree_of_body listed body
  obtain ⟨d, x, placed, origin, rfl, bears⟩ := exists_draft body atI ofM
  obtain ⟨e, y, placed', origin', rfl, -⟩ := exists_draft body atJ ofN
  have found := numbered.node?_of_mem (SourceUnit.mem_nodes_of_tree tree (bears.among x origin))
  have defines : dep.var ∈ (u.defUseOf dep.source).defs := by
    obtain ⟨c, built, s, recorded⟩ := records
    exact (PropertyGraph.BuiltKernel.dep_spec numbered (wired.kernels c built) recorded flow).2.2
  have writes := List.ne_nil_of_mem defines
  have named : dep.source ∈ d.names := mem_names_of_answers numbered tests explained tree bears origin
    (wired.canonical_of_answers source).1 writes (single x found)
  -- the number of the source leads back to the node that stands for it
  have once : NamesOnce u.Writer root.ids (draftsOf u k) := by
    have drafted : draftsOf u k = lower u k false root := by simp [draftsOf, body]
    exact drafted ▸ lower_namesOnce false root (numbered.tree tree) (numbered.apt tree)
  have known := once.lookup placed named (SourceUnit.writer_of_defs writes)
  have flows := wired.mem_incomingFlow numbered records flow sink
  refine mem_edges_lowered.mpr ⟨j, e, placed', fun same => apart (Int.ofNat_inj.mp same), ?_, rfl, rfl⟩
  exact mem_wiring.mpr ⟨y, origin', Or.inr (Or.inr ⟨dep, flows, known, rfl⟩)⟩

end Lowering

/-- Where the source and the sink of a flow dependence have different nodes, an edge joins them,
except out of syntax in `lost`. -/
def Lowering.FlowDrawn (u : SourceUnit) (g : PropertyGraph) (graph : OperationGraph)
    (lost : Node → Prop) : Prop :=
  ∀ m ∈ graph.nodes, ∀ n ∈ graph.nodes, m ≠ n → ∀ a ∈ m.stmt, ∀ b ∈ n.stmt, ∀ dep : DataDep,
    dep.kind = .flow → g.Records dep → g.AnswersFor a dep.source → g.AnswersFor b dep.sink →
    (∀ w ∈ u.node? a, ¬lost w) → ⟨m.id, n.id, .data, dep.var⟩ ∈ graph.edges

/-- Whatever has been built and discarded before, the graph of a kernel has an edge for every flow
dependence between statements that have different nodes, unless it comes out of a declaration of
several variables. -/
theorem flowEdges_drawn {u : SourceUnit} (numbered : u.Numbered)
    (tests : Lowering.BranchesOnTests u) (cap : Int) (ops : List (GraphOp u)) {k : KernelFn}
    (listed : k ∈ u.kernels) (source target : Option Architecture) :
    let before := PropertyGraph.history u cap ops
    Lowering.FlowDrawn u (before.build u k).value (convert u before k source target).value.1.graph
      Lowering.IsGrouped := by
  intro before m inM n inN apart a ofM b ofN dep flow records answersA answersB single
  by_cases hasBody : k.hasBody = true
  · let after := ops ++ [GraphOp.build k listed]
    have built : PropertyGraph.history u cap after = (before.build u k).value :=
      PropertyGraph.history_concat u cap ops _
    have ordered := PropertyGraph.history_ordered u cap after
    have explained := PropertyGraph.history_aliases u cap after
    rw [built] at ordered explained
    rw [Lowering.convert_graph hasBody] at inM inN ⊢
    obtain ⟨i, atI, idM⟩ := Lowering.exists_slot inM
    obtain ⟨j, atJ, idN⟩ := Lowering.exists_slot inN
    obtain ⟨root, body⟩ := Option.isSome_iff_exists.mp hasBody
    have differ : i ≠ j := by
      rintro rfl
      exact apart (Option.some.inj (atI.symm.trans atJ))
    rw [idM, idN]
    exact Lowering.flow_drawn numbered tests ordered.wired explained listed body differ atI atJ ofM ofN
      records flow answersA answersB single
  · have bare : (convert u before k source target).value.1.graph = OperationGraph.new k.name := by
      unfold convert
      simp [hasBody]
    rw [bare] at inM
    cases inM

/-! ## Two kernels -/

namespace PropertyGraph

variable {g : PropertyGraph}

theorem records_of_any {dep : DataDep}
    (found : (g.built.any fun b => (b.facts.deps.record dep.sink).data.contains dep) = true) :
    g.Records dep := by
  obtain ⟨b, built, member⟩ := List.any_eq_true.mp found
  exact ⟨b, built, dep.sink, by simpa using member⟩

theorem answersFor_of_any {owner stmt : NodeId}
    (found : (((g.slotOf? owner).bind g.node?).any fun n =>
      !n.removed && n.stmt == some stmt && g.isBuilt n.kernel) = true) : g.AnswersFor owner stmt := by
  cases slot : g.slotOf? owner with
  | none => simp [slot] at found
  | some s =>
      cases here : g.node? s with
      | none => simp [slot, here] at found
      | some n =>
          simp only [slot, here, Option.bind_some, Option.any_some, Bool.and_eq_true,
            Bool.not_eq_true', beq_iff_eq] at found
          exact ⟨s, slot, n, here, found.1.1, found.1.2, found.2⟩

end PropertyGraph

namespace FlowEdges

/-- A declaration of one variable, read by the condition of a loop. -/
def counting : String :=
  "func f(n int) int \x7b\n\tvar x int = n\n\tfor x < 10 \x7b\n\t\tx = x + n\n\t\x7d\n\treturn x\n\x7d\n"

/-- A declaration of two variables, both read by the next statement. -/
def paired : String :=
  "func f() int \x7b\n\tvar x, y int = 1, 2\n\tz := x + y\n\treturn z\n\x7d\n"

/-- The property graph of a text. -/
def built (text : String) : PropertyGraph :=
  ((PropertyGraph.history (Bracketing.unit text) 0 []).build (Bracketing.unit text)
    (Bracketing.kernel text)).value

/-- The operation graph of a text. -/
def graph (text : String) : OperationGraph :=
  (convert (Bracketing.unit text) (PropertyGraph.history (Bracketing.unit text) 0 [])
    (Bracketing.kernel text) none none).value.1.graph

/-- The numbers and the syntax of the nodes of a text. -/
def nodes (text : String) : List (OpId × Option NodeId) := (graph text).nodes.map fun n => (n.id, n.stmt)

/-- Whether an edge is drawn in the graph of a text. -/
def joins (text : String) (source target : OpId) (label : String) : Bool :=
  (graph text).edges.any fun e => e.source == source && e.target == target && e.label == label

section Spelled

open Bracketing (spelledUnit spelledKernel unit_spelled kernel_spelled)

variable {text : String} {cs : List Char}

/-- The property graph of a text with these characters. -/
def spelledBuilt (cs : List Char) : PropertyGraph :=
  ((PropertyGraph.history (spelledUnit cs) 0 []).build (spelledUnit cs) (spelledKernel cs)).value

/-- The operation graph of a text with these characters. -/
def spelledGraph (cs : List Char) : OperationGraph :=
  (convert (spelledUnit cs) (PropertyGraph.history (spelledUnit cs) 0 []) (spelledKernel cs) none
    none).value.1.graph

theorem built_spelled (spelled : text.toList = cs) : built text = spelledBuilt cs := by
  rw [built, spelledBuilt, unit_spelled spelled, kernel_spelled spelled]

theorem graph_spelled (spelled : text.toList = cs) : graph text = spelledGraph cs := by
  rw [graph, spelledGraph, unit_spelled spelled, kernel_spelled spelled]

theorem nodes_spelled (spelled : text.toList = cs) :
    nodes text = (spelledGraph cs).nodes.map fun n => (n.id, n.stmt) := by
  rw [nodes, graph_spelled spelled]

theorem joins_spelled (spelled : text.toList = cs) (source target : OpId) (label : String) :
    joins text source target label = (spelledGraph cs).edges.any fun e =>
      e.source == source && e.target == target && e.label == label := by
  rw [joins, graph_spelled spelled]

end Spelled

theorem exists_node {text : String} {i : OpId} {a : NodeId} (listed : (i, some a) ∈ nodes text) :
    ∃ m ∈ (graph text).nodes, m.id = i ∧ a ∈ m.stmt := by
  simpa only [nodes, List.mem_map, Prod.mk.injEq, Option.mem_def] using listed

theorem joins_of_mem {text : String} {source target : OpId} {kind : OpEdgeKind} {label : String}
    (drawn : ⟨source, target, kind, label⟩ ∈ (graph text).edges) : joins text source target label = true := by
  simp only [joins, List.any_eq_true]
  exact ⟨_, drawn, by simp⟩

/-- Whether syntax is a declaration that is not of exactly one variable. -/
def isGrouped : Node → Bool
  | .declStmt _ decl => (Lowering.singleSpec? decl).isNone
  | _ => false

theorem not_isGrouped_of_all {n : Option Node} (each : n.all (!isGrouped ·) = true) :
    ∀ w ∈ n, ¬Lowering.IsGrouped w := by
  rintro w rfl ⟨mark, decl, rfl, several⟩
  simp [isGrouped, several] at each

/-- What is drawn between two nodes of a text. -/
theorem joins_of_drawn {text : String} {lost : Node → Prop} {i j : OpId} {a b : NodeId} {dep : DataDep}
    (drawn : Lowering.FlowDrawn (Bracketing.unit text) (built text) (graph text) lost) (apart : i ≠ j)
    (first : (i, some a) ∈ nodes text) (second : (j, some b) ∈ nodes text) (flow : dep.kind = .flow)
    (records : (built text).Records dep) (source : (built text).AnswersFor a dep.source)
    (sink : (built text).AnswersFor b dep.sink)
    (kept : ∀ w ∈ (Bracketing.unit text).node? a, ¬lost w) : joins text i j dep.var = true := by
  obtain ⟨m, inM, rfl, ofM⟩ := exists_node first
  obtain ⟨n, inN, rfl, ofN⟩ := exists_node second
  have differ : m ≠ n := fun same => apart (congrArg OpNode.id same)
  exact joins_of_mem (drawn m inM n inN differ a ofM b ofN dep flow records source sink kept)

end FlowEdges

open FlowEdges in
/-- The declaration is known by its specification, the loop by its condition, and they are joined. -/
theorem flowEdges_drawn_counting :
    (Bracketing.unit counting).Numbered ∧ Lowering.BranchesOnTests (Bracketing.unit counting) ∧
      Bracketing.kernel counting ∈ (Bracketing.unit counting).kernels ∧
      (built counting).Records ⟨12, 17, "x", .flow⟩ ∧ (built counting).AnswersFor 14 12 ∧
      (built counting).AnswersFor 25 17 ∧ (0, some 14) ∈ nodes counting ∧
      (1, some 25) ∈ nodes counting ∧ joins counting 0 1 "x" = true := by
  obtain ⟨numbered, tests, some, recorded, source, sink, first, second, single⟩ :
      (Bracketing.unit counting).Numbered ∧ Lowering.BranchesOnTests (Bracketing.unit counting) ∧
        (Bracketing.unit counting).kernels ≠ [] ∧
        ((built counting).built.any fun b =>
          (b.facts.deps.record 17).data.contains ⟨12, 17, "x", .flow⟩) = true ∧
        ((((built counting).slotOf? 14).bind (built counting).node?).any fun n =>
          !n.removed && n.stmt == some 12 && (built counting).isBuilt n.kernel) = true ∧
        ((((built counting).slotOf? 25).bind (built counting).node?).any fun n =>
          !n.removed && n.stmt == some 17 && (built counting).isBuilt n.kernel) = true ∧
        (0, some 14) ∈ nodes counting ∧ (1, some 25) ∈ nodes counting ∧
        ((Bracketing.unit counting).node? 14).all (!isGrouped ·) = true := by
    have spelled : counting.toList = _ := String.toList_ofList
    rw [nodes_spelled spelled, built_spelled spelled, Bracketing.unit_spelled spelled]
    decide +kernel
  have records := PropertyGraph.records_of_any recorded
  have ofSource := PropertyGraph.answersFor_of_any source
  have ofSink := PropertyGraph.answersFor_of_any sink
  have drawn : Lowering.FlowDrawn (Bracketing.unit counting) (built counting) (graph counting)
      Lowering.IsGrouped := by
    rw [built, graph]
    exact flowEdges_drawn numbered tests 0 [] (Bracketing.kernel_mem some) none none
  have joined := joins_of_drawn drawn (by decide) first second rfl records ofSource ofSink
    (not_isGrouped_of_all single)
  exact ⟨numbered, tests, Bracketing.kernel_mem some, records, ofSource, ofSink, first, second, joined⟩

open FlowEdges in
/-- The declaration of two variables writes both, and no edge leads from it to their reader. -/
theorem flowEdges_lost_paired :
    ¬Lowering.FlowDrawn (Bracketing.unit paired) (built paired) (graph paired) fun _ => False := by
  intro drawn
  obtain ⟨recorded, source, sink, first, second, missing⟩ :
      ((built paired).built.any fun b =>
          (b.facts.deps.record 18).data.contains ⟨11, 18, "x", .flow⟩) = true ∧
        ((((built paired).slotOf? 13).bind (built paired).node?).any fun n =>
          !n.removed && n.stmt == some 11 && (built paired).isBuilt n.kernel) = true ∧
        ((((built paired).slotOf? 18).bind (built paired).node?).any fun n =>
          !n.removed && n.stmt == some 18 && (built paired).isBuilt n.kernel) = true ∧
        (0, some 13) ∈ nodes paired ∧ (1, some 18) ∈ nodes paired ∧
        joins paired 0 1 "x" = false := by
    have spelled : paired.toList = _ := String.toList_ofList
    rw [nodes_spelled spelled, built_spelled spelled, joins_spelled spelled]
    decide +kernel
  have joined := joins_of_drawn drawn (by decide) first second rfl
    (PropertyGraph.records_of_any recorded) (PropertyGraph.answersFor_of_any source)
    (PropertyGraph.answersFor_of_any sink) fun _ _ => not_false
  exact Bool.false_ne_true (missing.symm.trans joined)

end Retarget
