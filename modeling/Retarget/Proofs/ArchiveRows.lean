/-
# Proofs.ArchiveRows -- which nodes the rows of an archive name

One writing adds, for each result, rows for the nodes of its kernel, for the edges that leave these
and for the dependences of its statements (`write_rows`).  After a run over a unit the nodes written
are those of all built kernels (`Complete.node_written`), but not the ones made for linked calls.

So every edge starts at a node that is written, and every dependence runs between two such nodes.  An
edge leads to one unless it is of a kind that leads from a kernel to a node of a call: from the exit
of a callee to the return site or to the result, and from a call site to an argument
(`Wired.own_target_iff`).  `archive_closed_iff` puts this together: all ends of edges are written if
and only if no kernel calls one that has a body.
-/
import Retarget.Archive
import Retarget.Proofs.AnalysisRun
import Retarget.Proofs.Bracketing
import Retarget.Proofs.ControlDependence
import Retarget.Proofs.TraceGround

namespace Retarget

open Retarget.Source (NodeId)

set_option autoImplicit false
set_option linter.dupNamespace false

/-- The edge leads from a node of a kernel to one made for a linked call. -/
def EdgeKind.entersLink : EdgeKind → Bool
  | .ret | .paramIn | .paramOut => true
  | .within | .call | .taken | .skipped | .between => false

theorem EdgeKind.entersLink_of_isLocal {k : EdgeKind} (isLocal : k.isLocal = true) :
    k.entersLink = false := by
  cases k <;> first | rfl | cases isLocal

/-- No statement of a kernel calls a kernel that has a body. -/
def SourceUnit.Flat (u : SourceUnit) : Prop :=
  ∀ k ∈ u.kernels, ∀ flow, u.flowGraph? k = some flow → ∀ d ∈ flow.statements, ∀ c ∈ u.callsOf d,
    ∀ f, u.callee? c = some f → f.hasBody = false

instance (u : SourceUnit) : Decidable u.Flat :=
  decidable_of_iff (∀ k ∈ u.kernels, ∀ d ∈ (u.flowGraph? k).toList.flatMap FlowGraph.statements,
    ∀ c ∈ u.callsOf d, (u.callee? c).all (!·.hasBody)) <| by
    refine forall₂_congr fun k _ => ?_
    cases u.flowGraph? k <;> simp [Option.all_eq_true]

/-! ## Nodes of kernels -/

namespace PropertyGraph

variable {u : SourceUnit} {g : PropertyGraph} {calls : List CallRecord} {b : BuiltKernel}
  {r : CallRecord} {s : Slot} {e : Edge}

/-- The slot belongs to a built kernel. -/
def Own (g : PropertyGraph) (s : Slot) : Prop := ∃ b ∈ g.built, s ∈ b.slots

theorem Wired.created_not_own (wired : g.Wired u calls) (member : r ∈ calls)
    (created : s ∈ r.created) : ¬g.Own s := by
  rintro ⟨b, built, own⟩
  exact wired.link_not_own built own ((wired.records r member).created s created)

/-- An edge of a linked call that leaves a kernel leads to the entry of the callee, or to a node made
for the call. -/
theorem Wired.callArcs_target (wired : g.Wired u calls) (laid : g.Laid u calls) (member : r ∈ calls)
    (linked : r.linked = true) {a : Arc} (drawn : a ∈ g.callArcs u r) (own : g.Own a.1) :
    (a.2.2.entersLink = false ∧ g.Own a.2.1) ∨ (a.2.2.entersLink = true ∧ a.2.1 ∈ r.created) := by
  obtain ⟨c, built, t, spans, arcs⟩ := wired.linked_call laid member linked
  have apart {i : Nat} (made : t + i ∈ r.created) (start : a.1 = t + i) : False :=
    wired.created_not_own member (start ▸ made) own
  rw [arcs] at drawn
  rcases mem_linkArcs.mp drawn with rfl | rfl | ⟨_, -, rfl⟩ | ⟨i, low, rfl | rfl⟩ | ⟨gives, result⟩
  · exact Or.inl ⟨rfl, c, built, (wired.kernels c built).entry.1⟩
  · exact Or.inr ⟨rfl, spans.mem_args (Nat.zero_le _)⟩
  · exact (apart (spans.mem_args (Nat.zero_le _)) rfl).elim
  · exact Or.inr ⟨rfl, spans.mem_args (by omega)⟩
  · exact (apart (spans.mem_args (by omega)) rfl).elim
  · simp only [resultArcs, List.mem_cons, List.not_mem_nil, or_false] at result
    rcases result with rfl | rfl | rfl
    · exact Or.inr ⟨rfl, spans.mem_result gives (by omega)⟩
    · exact (apart (spans.mem_result gives (by omega)) rfl).elim
    · exact (apart (spans.mem_result gives (Nat.le_refl _)) rfl).elim

/-- An edge that leaves a kernel leads to a node of a kernel, or it is of a kind that leads to a node
of a linked call and does so. -/
theorem Wired.leaving_cases (wired : g.Wired u calls) (laid : g.Laid u calls) (own : g.Own s)
    (leaves : e ∈ g.succsOf s) :
    (e.kind.entersLink = false ∧ g.Own e.other) ∨
      (e.kind.entersLink = true ∧ ∃ r ∈ calls, r.linked = true ∧ e.other ∈ r.created) := by
  obtain ⟨strays, accounts, shapes⟩ := laid.drawn
  have drawn := accounts.mem_iff (e := (s, e.other, e.kind)).mpr leaves
  rcases List.mem_append.mp drawn with known | stray
  · rcases List.mem_append.mp known with kernel | called
    · obtain ⟨b, built, -, -, target, isLocal⟩ := laid.mem_ownArcs kernel
      exact Or.inl ⟨EdgeKind.entersLink_of_isLocal isLocal, b, built, target⟩
    · obtain ⟨r, member, inner⟩ := List.mem_flatMap.mp called
      cases linked : r.linked with
      | false =>
          rw [callArcs_of_unlinked ((laid.records r member).unlinked linked).1] at inner
          cases inner
      | true =>
          refine (wired.callArcs_target laid member linked inner own).imp_right fun found => ?_
          exact ⟨found.1, r, member, linked, found.2⟩
  · -- a stray starts at a return site
    obtain ⟨r, member, _, -, t, _, _, noted, -, -, -, -, same⟩ := shapes _ stray
    obtain ⟨_, spans⟩ := (laid.records r member).spans noted
    have start : s = t := congrArg Prod.fst same
    exact absurd own (wired.created_not_own member (start ▸ spans.returnSite_mem))

/-- An edge that leaves a kernel leads to a node of a kernel unless it is of such a kind. -/
theorem Wired.own_target_iff (wired : g.Wired u calls) (laid : g.Laid u calls) (own : g.Own s)
    (leaves : e ∈ g.succsOf s) : g.Own e.other ↔ e.kind.entersLink = false := by
  rcases wired.leaving_cases laid own leaves with ⟨kind, target⟩ | ⟨kind, r, member, -, created⟩
  · exact iff_of_true target kind
  · exact iff_of_false (wired.created_not_own member created) (by simp [kind])

/-- The exit of the callee of a linked call leads to a node made for the call. -/
theorem Wired.returns_of_linked (wired : g.Wired u calls) (laid : g.Laid u calls) (member : r ∈ calls)
    (linked : r.linked = true) :
    ∃ s, g.Own s ∧ ∃ e ∈ g.succsOf s, e.kind.entersLink = true := by
  obtain ⟨c, built, t, -, arcs⟩ := wired.linked_call laid member linked
  obtain ⟨strays, accounts, -⟩ := laid.drawn
  have drawn : (c.exit, t + 0, EdgeKind.ret) ∈ g.callArcs u r := by
    rw [arcs]
    exact mem_linkArcs.mpr (Or.inr (Or.inl rfl))
  have listed := List.mem_append_left strays
    (List.mem_append_right g.ownArcs (List.mem_flatMap.mpr ⟨r, member, drawn⟩))
  exact ⟨c.exit, ⟨c, built, (wired.kernels c built).exit.1⟩, _, accounts.mem_iff.mp listed, rfl⟩

/-- All edges that leave kernels lead to kernels if and only if no call is linked. -/
theorem Wired.closed_iff (wired : g.Wired u calls) (laid : g.Laid u calls) :
    (∀ s, g.Own s → ∀ e ∈ g.succsOf s, g.Own e.other) ↔ ∀ r ∈ calls, r.linked = false := by
  constructor
  · intro closed r member
    by_contra linked
    obtain ⟨s, own, e, leaves, kind⟩ :=
      wired.returns_of_linked laid member (Bool.not_eq_false _ ▸ linked)
    have stays := (wired.own_target_iff laid own leaves).mp (closed s own e leaves)
    exact Bool.false_ne_true (stays.symm.trans kind)
  · intro unlinked s own e leaves
    rcases wired.leaving_cases laid own leaves with ⟨-, target⟩ | ⟨-, r, member, linked, -⟩
    · exact target
    · cases (unlinked r member).symm.trans linked

/-! ## Statements and dependences -/

/-- The node of a statement of a built kernel belongs to a built kernel. -/
theorem Charted.slot_own (charted : g.Charted u) (built : b ∈ g.built) {d : NodeId}
    (stands : d ∈ b.stmts) : ∃ s, g.slotOf? d = some s ∧ g.Own s := by
  obtain ⟨s, slot⟩ := Option.isSome_iff_exists.mp (charted.indexed.lookup built stands)
  obtain ⟨front, back, split, -⟩ := List.lookup_eq_some_iff.mp slot
  obtain ⟨c, builtC, -, own, -⟩ := charted.wired.index d s (by simp [split])
  exact ⟨s, by rw [slotOf?, charted.canonical_eq built stands, slot], c, builtC, own⟩

/-- Dependences that a statement of a built kernel takes part in are between statements of it. -/
theorem Charted.deps_inside (charted : g.Charted u) (built : b ∈ g.built) {n : NodeId}
    (stands : n ∈ b.stmts) :
    (∀ d ∈ g.dataDepsOf n, d.source ∈ b.stmts ∧ d.sink ∈ b.stmts) ∧
      ∀ d ∈ g.controlDepsAt n, d.controller ∈ b.stmts ∧ d.dependent ∈ b.stmts := by
  obtain ⟨k, -, describes⟩ := (charted.wired.kernels b built).listed
  have record : (g.depRecord? n).getD {} = b.facts.deps.record n := by
    rw [depRecord?, charted.infoOf?_eq built stands, charted.canonical_eq built stands]
    rfl
  have inNodes {m : NodeId} {i : Nat} (inner : m ∈ b.graph.nodes i) : m ∈ b.stmts := by
    obtain ⟨j, low, same⟩ := List.mem_iff_getElem.mp inner
    exact describes.stmts ▸ FlowGraph.mem_statements.mpr
      ⟨⟨i, j⟩, List.getElem?_eq_some_iff.mpr ⟨low, same⟩⟩
  constructor
  · intro d listed
    rw [dataDepsOf, record, describes.facts, record_data] at listed
    obtain ⟨m, there, into⟩ := List.mem_flatMap.mp (List.mem_filter.mp listed).1
    obtain ⟨rfl, origin⟩ := mem_depsInto.mp into
    rw [describes.stmts]
    refine ⟨?_, there⟩
    cases kind : d.kind with
    | flow =>
        rw [kind] at origin
        exact (mem_originsOf.mp origin.2).1
    | output =>
        rw [kind] at origin
        exact (mem_originsOf.mp origin.2).1
    | anti =>
        rw [kind] at origin
        exact (mem_originsOf.mp origin.2.1).1
  · intro d listed
    rw [controlDepsAt, record, describes.facts, record_control] at listed
    obtain ⟨i, -, found⟩ := List.mem_flatMap.mp (List.mem_filter.mp listed).1
    obtain ⟨ends, _, _, -, -, j, -, dependent⟩ := mem_controlDepsOf.mp found
    exact ⟨inNodes (FlowGraph.condition?_eq_some ends).2, inNodes dependent⟩

end PropertyGraph

/-! ## Rows of one writing -/

namespace Archive

section Rows

variable (a : Analyzer) (id : Nat) (r : AnalysisResult)

/-- The rows of one result for nodes. -/
def nodesOf : List NodeRow := (ownNodes a r).map fun (s, n) => nodeRow a id s n

/-- Those for edges. -/
def edgesOf : List EdgeRow := (ownNodes a r).flatMap fun (s, n) => edgeRows id s n

/-- Those for dependences. -/
def dependencesOf : List DependenceRow := (a.graph.statements r.kernel).flatMap (dependenceRows a id)

end Rows

/-- What results add to a table when they are written after what an archive holds. -/
def added {α : Type} (t : Archive) (rows : Nat → AnalysisResult → List α)
    (rs : List AnalysisResult) : List α :=
  (rs.zipIdx (t.functions.length + 1)).flatMap fun (r, id) => rows id r

variable {t : Archive} {a : Analyzer} {file : String} {rs : List AnalysisResult}
  {r : AnalysisResult} {s : Slot}

theorem added_cons {α : Type} (rows : Nat → AnalysisResult → List α) (file : String) (a : Analyzer)
    (t : Archive) (r : AnalysisResult) (rs : List AnalysisResult) :
    added t rows (r :: rs)
      = rows (t.functions.length + 1) r ++ added (writeResult file a t r) rows rs := by
  simp [added, List.zipIdx_cons, writeResult]

/-- A writing adds the rows of its results to the tables. -/
theorem write_rows (t : Archive) (file : String) (a : Analyzer) (rs : List AnalysisResult) :
    (t.write file a rs).value.nodes = t.nodes ++ added t (nodesOf a) rs ∧
      (t.write file a rs).value.edges = t.edges ++ added t (edgesOf a) rs ∧
      (t.write file a rs).value.dependences = t.dependences ++ added t (dependencesOf a) rs := by
  have each : ∀ t : Archive,
      (rs.foldl (writeResult file a) t).nodes = t.nodes ++ added t (nodesOf a) rs ∧
      (rs.foldl (writeResult file a) t).edges = t.edges ++ added t (edgesOf a) rs ∧
      (rs.foldl (writeResult file a) t).dependences
        = t.dependences ++ added t (dependencesOf a) rs := by
    induction rs with
    | nil => simp [added]
    | cons r rs ih =>
        intro t
        obtain ⟨nodes, edges, dependences⟩ := ih (writeResult file a t r)
        simp only [List.foldl_cons, nodes, edges, dependences, added_cons _ file a]
        simp only [← List.append_assoc]
        exact ⟨rfl, rfl, rfl⟩
  exact each t

theorem mem_added {α : Type} {rows : Nat → AnalysisResult → List α} {x : α} :
    x ∈ added t rows rs ↔ ∃ r id, (r, id) ∈ rs.zipIdx (t.functions.length + 1) ∧ x ∈ rows id r := by
  simp only [added, List.mem_flatMap, Prod.exists]

/-- A property of rows that does not depend on the number of the function. -/
theorem exists_added {α : Type} {rows : Nat → AnalysisResult → List α} {P : α → Prop}
    {Q : AnalysisResult → Prop} (shape : ∀ id r, (∃ x ∈ rows id r, P x) ↔ Q r) :
    (∃ x ∈ added t rows rs, P x) ↔ ∃ r ∈ rs, Q r := by
  constructor
  · rintro ⟨x, listed, holds⟩
    obtain ⟨r, id, among, inner⟩ := mem_added.mp listed
    exact ⟨r, List.fst_mem_of_mem_zipIdx among, (shape id r).mp ⟨x, inner, holds⟩⟩
  · rintro ⟨r, among, holds⟩
    obtain ⟨⟨_, id⟩, numbered, rfl⟩ : ∃ e ∈ rs.zipIdx (t.functions.length + 1), e.1 = r := by
      rw [← List.zipIdx_map_fst (t.functions.length + 1) rs] at among
      exact List.mem_map.mp among
    obtain ⟨x, inner, shows⟩ := (shape id _).mpr holds
    exact ⟨x, mem_added.mpr ⟨_, id, numbered, inner⟩, shows⟩

theorem mem_ownNodes {n : GraphNode} :
    (s, n) ∈ ownNodes a r ↔ s ∈ a.graph.kernelSlots r.kernel ∧ a.graph.node? s = some n := by
  simp only [ownNodes, List.mem_filterMap, Option.map_eq_some_iff, Prod.mk.injEq]
  constructor
  · rintro ⟨_, listed, _, here, rfl, rfl⟩
    exact ⟨listed, here⟩
  · rintro ⟨listed, here⟩
    exact ⟨s, listed, n, here, rfl, rfl⟩

/-- The nodes written are those of the kernels that there are results for. -/
theorem exists_node_iff : (∃ row ∈ added t (nodesOf a) rs, row.node = s) ↔
    ∃ r ∈ rs, ∃ n, (s, n) ∈ ownNodes a r := by
  refine exists_added fun id r => ?_
  simp only [nodesOf, List.mem_map, Prod.exists]
  constructor
  · rintro ⟨_, ⟨s, n, listed, rfl⟩, rfl⟩
    exact ⟨n, listed⟩
  · rintro ⟨n, listed⟩
    exact ⟨_, ⟨s, n, listed, rfl⟩, rfl⟩

/-- The edges written are those that leave these nodes. -/
theorem exists_edge_iff {target : Slot} {kind : String} :
    (∃ row ∈ added t (edgesOf a) rs, row.source = s ∧ row.target = target ∧ row.kind = kind) ↔
      ∃ r ∈ rs, ∃ n, (s, n) ∈ ownNodes a r ∧
        ∃ e ∈ a.graph.succsOf s, e.other = target ∧ e.kind.name = kind := by
  refine exists_added fun id r => ?_
  simp only [edgesOf, edgeRows, List.mem_flatMap, List.mem_map, Prod.exists]
  constructor
  · rintro ⟨_, ⟨s, n, listed, e, leaves, rfl⟩, rfl, rfl, rfl⟩
    have succs := PropertyGraph.succsOf_eq (mem_ownNodes.mp listed).2
    exact ⟨n, listed, e, succs ▸ leaves, rfl, rfl⟩
  · rintro ⟨n, listed, e, leaves, rfl, rfl⟩
    have succs := PropertyGraph.succsOf_eq (mem_ownNodes.mp listed).2
    exact ⟨_, ⟨s, n, listed, e, succs ▸ leaves, rfl⟩, rfl, rfl, rfl⟩

end Archive

/-! ## After a run -/

/-- Every kernel with a body is built, and the results are those of the built kernels. -/
structure Complete (u : SourceUnit) (a : Analyzer) (rs : List AnalysisResult) : Prop where
  charted : a.graph.Charted u
  ordered : a.graph.Ordered u
  bodies : ∀ k ∈ u.kernels, k.hasBody = true → a.graph.isBuilt k.id = true
  results : ∀ b ∈ a.graph.built, ∃ r ∈ rs, r.kernel = b.kernel

theorem complete_of_run {a a' : Analyzer} {rs : List AnalysisResult} {c : Circumstances}
    (numbered : a.unit.Numbered) {cap : Int} {ops : List (GraphOp a.unit)}
    (graph : a.graph = .history a.unit cap ops) (ran : (a.analyseUnit c).value = .ok (a', rs)) :
    Complete a.unit a' rs := by
  have ordered : a.graph.Ordered a.unit := graph ▸ PropertyGraph.history_ordered a.unit cap ops
  obtain ⟨unit, kernels⟩ := Analyzer.analyseUnit_spec ordered ran
  have after := Analyzer.analyseUnit_history graph ran
  have last : a'.graph.Ordered a.unit := after ▸ PropertyGraph.history_ordered _ _ _
  refine ⟨after ▸ PropertyGraph.history_charted numbered _ _, last, fun k listed hasBody => ?_,
    fun b built => ?_⟩
  · rw [unit]
    exact (ordered.isBuilt_buildUnit k.id).mpr (Or.inr ⟨k, listed, hasBody, rfl⟩)
  · obtain ⟨k, listed, describes⟩ := (last.wired.kernels b built).listed
    have among : b.kernel ∈ rs.map (·.kernel) := by
      rw [kernels, describes.kernel]
      exact List.mem_map_of_mem (List.mem_filter.mpr ⟨listed, describes.hasBody⟩)
    exact List.mem_map.mp among

namespace Complete

open Archive

variable {u : SourceUnit} {a : Analyzer} {rs : List AnalysisResult} {t : Archive} {s : Slot}
  (complete : Complete u a rs)

include complete

/-- The nodes written are those of the built kernels. -/
theorem node_written : (∃ row ∈ added t (nodesOf a) rs, row.node = s) ↔ a.graph.Own s := by
  rw [exists_node_iff]
  constructor
  · rintro ⟨r, -, n, own⟩
    have slot := (mem_ownNodes.mp own).1
    cases found : a.graph.builtKernel? r.kernel with
    | none => simp [PropertyGraph.kernelSlots, found] at slot
    | some b =>
        rw [PropertyGraph.kernelSlots, found] at slot
        exact ⟨b, (PropertyGraph.mem_of_builtKernel? found).1, slot⟩
  · rintro ⟨b, built, own⟩
    obtain ⟨r, among, kernel⟩ := complete.results b built
    obtain ⟨n, here, -⟩ := (complete.ordered.wired.kernels b built).own s own
    refine ⟨r, among, n, mem_ownNodes.mpr ⟨?_, here⟩⟩
    rw [PropertyGraph.kernelSlots, kernel, complete.ordered.wired.builtKernel?_eq built]
    exact own

/-- An edge leaves a node that is written. -/
theorem edge_leaves {row : EdgeRow} (listed : row ∈ added t (edgesOf a) rs) :
    a.graph.Own row.source ∧
      ∃ e ∈ a.graph.succsOf row.source, e.other = row.target ∧ e.kind.name = row.kind := by
  obtain ⟨r, among, n, own, leaves⟩ := exists_edge_iff.mp ⟨row, listed, rfl, rfl, rfl⟩
  exact ⟨(complete.node_written (t := t)).mp (exists_node_iff.mpr ⟨r, among, n, own⟩), leaves⟩

/-- All edges that leave kernels are written. -/
theorem edge_written (own : a.graph.Own s) {e : Edge} (leaves : e ∈ a.graph.succsOf s) :
    ∃ row ∈ added t (edgesOf a) rs,
      row.source = s ∧ row.target = e.other ∧ row.kind = e.kind.name := by
  obtain ⟨r, among, n, inner⟩ := exists_node_iff.mp ((complete.node_written (t := t)).mpr own)
  exact exists_edge_iff.mpr ⟨r, among, n, inner, e, leaves, rfl, rfl⟩

/-- A call is linked if and only if it is one of a kernel with a body. -/
theorem unlinked_iff : (∀ r ∈ a.graph.calls, r.linked = false) ↔ u.Flat := by
  constructor
  · intro unlinked k listed flow graph d inside c makes f callee
    by_contra hasBody
    have has : f.hasBody = true := Bool.not_eq_false _ ▸ hasBody
    obtain ⟨body, some, -⟩ := Option.map_eq_some_iff.mp graph
    obtain ⟨b, found⟩ := Option.isSome_iff_exists.mp
      (complete.bodies k listed (by rw [KernelFn.hasBody, some, Option.isSome_some]))
    obtain ⟨built, kernel⟩ := PropertyGraph.mem_of_builtKernel? found
    obtain ⟨k', listed', describes⟩ := (complete.charted.wired.kernels b built).listed
    obtain rfl : k = k' := SourceUnit.kernel_inj listed listed' (kernel.symm.trans describes.kernel)
    obtain rfl : flow = b.graph := Option.some.inj (graph.symm.trans describes.graph)
    obtain ⟨r, recorded, notes⟩ :=
      complete.charted.record_of_call built (describes.stmts ▸ inside) makes
    have linked := complete.ordered.settled r recorded f.id (by rw [notes.target, callee]; rfl)
      (complete.bodies f (SourceUnit.mem_of_callee? callee) has)
    cases (unlinked r recorded).symm.trans linked
  · intro flat r recorded
    by_contra linked
    obtain ⟨b, built, d, stands, c, makes, notes⟩ := complete.charted.call_of_record recorded
    obtain ⟨callee, builtC, joins⟩ :=
      (complete.ordered.wired.records r recorded).linked (Bool.not_eq_false _ ▸ linked)
    obtain ⟨f, target, same⟩ := Option.map_eq_some_iff.mp (notes.target.symm.trans joins.target)
    obtain ⟨k, listed, describes⟩ := (complete.charted.wired.kernels b built).listed
    obtain ⟨f', listed', describes'⟩ := (complete.charted.wired.kernels callee builtC).listed
    obtain rfl : f = f' := SourceUnit.kernel_inj (SourceUnit.mem_of_callee? target) listed'
      (same.trans describes'.kernel)
    have bare := flat k listed b.graph describes.graph d (describes.stmts ▸ stands) c makes f target
    cases bare.symm.trans describes'.hasBody

/-- All targets of edges are written if and only if no kernel calls one with a body. -/
theorem closed_iff : (∀ e ∈ added t (edgesOf a) rs, ∃ n ∈ added t (nodesOf a) rs, n.node = e.target) ↔
    u.Flat := by
  rw [← complete.unlinked_iff, ← complete.charted.wired.closed_iff complete.charted.laid]
  constructor
  · intro closed s own e leaves
    obtain ⟨row, listed, -, target, -⟩ := complete.edge_written (t := t) own leaves
    exact target ▸ complete.node_written.mp (closed row listed)
  · intro closed row listed
    obtain ⟨own, e, leaves, target, -⟩ := complete.edge_leaves listed
    exact complete.node_written.mpr (target ▸ closed row.source own e leaves)

/-- Dependences run between nodes that are written. -/
theorem dependence_written {row : DependenceRow} (listed : row ∈ added t (dependencesOf a) rs) :
    (∃ n ∈ added t (nodesOf a) rs, (n.node : Int) = row.source) ∧
      ∃ n ∈ added t (nodesOf a) rs, (n.node : Int) = row.sink := by
  obtain ⟨r, id, -, inner⟩ := mem_added.mp listed
  obtain ⟨stmt, stands, made⟩ := List.mem_flatMap.mp inner
  obtain ⟨b, built, inside⟩ : ∃ b ∈ a.graph.built, stmt ∈ b.stmts := by
    cases found : a.graph.builtKernel? r.kernel with
    | none => simp [PropertyGraph.statements, found] at stands
    | some b =>
        rw [PropertyGraph.statements, found] at stands
        exact ⟨b, (PropertyGraph.mem_of_builtKernel? found).1, stands⟩
  have written {d : NodeId} (stands : d ∈ b.stmts) :
      ∃ n ∈ added t (nodesOf a) rs, (n.node : Int) = nodeNumber a d := by
    obtain ⟨s, slot, own⟩ := complete.charted.slot_own built stands
    obtain ⟨n, listed, rfl⟩ := (complete.node_written (t := t)).mpr own
    exact ⟨n, listed, by rw [nodeNumber, slot]⟩
  obtain ⟨data, control⟩ := complete.charted.deps_inside built inside
  rcases List.mem_append.mp made with flow | branch
  · obtain ⟨d, found, rfl⟩ := List.mem_map.mp flow
    obtain ⟨source, sink⟩ := data d (List.mem_filter.mp found).1
    exact ⟨written source, written sink⟩
  · obtain ⟨d, found, rfl⟩ := List.mem_map.mp branch
    obtain ⟨source, sink⟩ := control d (List.mem_filter.mp found).1
    exact ⟨written source, written sink⟩

end Complete

theorem EdgeKind.name_entersLink (k : EdgeKind) :
    k.entersLink = false ↔ k.name ∉ ["Return", "ParamIn", "ParamOut"] := by
  cases k <;> decide

/-- Whatever has been built and discarded before a unit is analysed, the rows that writing the
results adds name written nodes as sources of edges and as both ends of dependences; the target of an
edge is a written node unless the edge is one of a linked call that does not lead to its callee; and
all targets are if and only if no kernel calls one that has a body. -/
theorem archive_closed_iff (a : Analyzer) (numbered : a.unit.Numbered) (cap : Int)
    (ops : List (GraphOp a.unit)) (graph : a.graph = .history a.unit cap ops) (c : Circumstances)
    (a' : Analyzer) (rs : List AnalysisResult) (ran : (a.analyseUnit c).value = .ok (a', rs))
    (t : Archive) (file : String) :
    ∃ nodes edges dependences,
      (t.write file a' rs).value.nodes = t.nodes ++ nodes ∧
      (t.write file a' rs).value.edges = t.edges ++ edges ∧
      (t.write file a' rs).value.dependences = t.dependences ++ dependences ∧
      (∀ e ∈ edges, ∃ n ∈ nodes, n.node = e.source) ∧
      (∀ d ∈ dependences, (∃ n ∈ nodes, (n.node : Int) = d.source) ∧
        ∃ n ∈ nodes, (n.node : Int) = d.sink) ∧
      (∀ e ∈ edges, (∃ n ∈ nodes, n.node = e.target) ↔
        e.kind ∉ ["Return", "ParamIn", "ParamOut"]) ∧
      ((∀ e ∈ edges, ∃ n ∈ nodes, n.node = e.target) ↔ a.unit.Flat) := by
  have complete := complete_of_run numbered graph ran
  obtain ⟨nodes, edges, dependences⟩ := Archive.write_rows t file a' rs
  refine ⟨_, _, _, nodes, edges, dependences, fun e listed => ?_, fun d => complete.dependence_written,
    fun e listed => ?_, complete.closed_iff⟩
  · exact complete.node_written.mpr (complete.edge_leaves listed).1
  · obtain ⟨own, x, leaves, target, kind⟩ := complete.edge_leaves listed
    rw [complete.node_written, ← target, ← kind, ← EdgeKind.name_entersLink]
    exact complete.charted.wired.own_target_iff complete.charted.laid own leaves

/-! ## A call and a loop -/

namespace Exports

/-- A call whose callee has a body. -/
def calling : SourceUnit := Bracketing.unit
  "func leaf(x int) int \x7b\n\treturn x\n\x7d\n\nfunc f(a int) int \x7b\n\treturn leaf(a)\n\x7d\n"

/-- A loop and no calls. -/
def counting : SourceUnit := Bracketing.unit
  "func f(n int) int \x7b\n\tfor n > 0 \x7b\n\t\tn--\n\t\x7d\n\treturn n\n\x7d\n"

/-- An analyzer with default settings that can be made comes to an end with results. -/
theorem exists_run {u : SourceUnit} (ready : (Analyzer.new u {} {}).value.isOk = true) :
    ∃ a a' rs, (Analyzer.new u {} {}).value = .ok a ∧ (a.analyseUnit {}).value = .ok (a', rs) := by
  cases made : (Analyzer.new u {} {}).value with
  | error e => simp [made, Except.isOk, Except.toBool] at ready
  | ok a =>
      obtain ⟨⟨a', rs⟩, ran⟩ := a.analyseUnit_ok (c := {}) rfl
      exact ⟨a, a', rs, rfl, ran⟩

end Exports

open Exports in
/-- Without calls every end of an edge is a node that is written. -/
theorem archive_closed_iff_counting : ∃ a a' rs, (Analyzer.new counting {} {}).value = .ok a ∧
    (a.analyseUnit {}).value = .ok (a', rs) ∧
      ∀ e ∈ (Archive.write {} "counting.go" a' rs).value.edges,
        (∃ n ∈ (Archive.write {} "counting.go" a' rs).value.nodes, n.node = e.source) ∧
          ∃ n ∈ (Archive.write {} "counting.go" a' rs).value.nodes, n.node = e.target := by
  obtain ⟨ready, numbered, flat⟩ : (Analyzer.new counting {} {}).value.isOk = true ∧
      counting.Numbered ∧ counting.Flat := by
    rw [show counting = _ from Bracketing.unit_spelled String.toList_ofList]
    decide +kernel
  obtain ⟨a, a', rs, made, ran⟩ := exists_run ready
  obtain ⟨unit, graph⟩ := Analyzer.new_spec made
  obtain ⟨nodes, edges, -, nodeRows, edgeRows, -, sources, -, -, closed⟩ :=
    archive_closed_iff a (unit ▸ numbered) 0 [] graph {} a' rs ran {} "counting.go"
  refine ⟨a, a', rs, made, ran, ?_⟩
  rw [nodeRows, edgeRows]
  exact fun e listed => ⟨sources e listed, closed.mpr (unit ▸ flat) e listed⟩

open Exports in
/-- With a call some edge leads to a node that is not written. -/
theorem archive_open_calling : ∃ a a' rs, (Analyzer.new calling {} {}).value = .ok a ∧
    (a.analyseUnit {}).value = .ok (a', rs) ∧
      ∃ e ∈ (Archive.write {} "calling.go" a' rs).value.edges,
        ∀ n ∈ (Archive.write {} "calling.go" a' rs).value.nodes, n.node ≠ e.target := by
  obtain ⟨ready, numbered, nested⟩ : (Analyzer.new calling {} {}).value.isOk = true ∧
      calling.Numbered ∧ ¬calling.Flat := by
    rw [show calling = _ from Bracketing.unit_spelled String.toList_ofList]
    decide +kernel
  obtain ⟨a, a', rs, made, ran⟩ := exists_run ready
  obtain ⟨unit, graph⟩ := Analyzer.new_spec made
  have complete := complete_of_run (unit ▸ numbered) graph ran
  obtain ⟨nodeRows, edgeRows, -⟩ := Archive.write_rows {} "calling.go" a' rs
  have unclosed := (complete.closed_iff (t := {})).not.mpr (unit ▸ nested)
  refine ⟨a, a', rs, made, ran, ?_⟩
  rw [nodeRows, edgeRows]
  simpa using unclosed

end Retarget
