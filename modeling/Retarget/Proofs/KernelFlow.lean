/-
# Proofs.KernelFlow -- the graph of a kernel runs as its flow graph runs

Between the blocks of a flow graph control goes from end to start; between the nodes of the graph
it goes from node to node, and empty blocks have no node.  `Realizes` says what the nodes and
edges of a kernel have to be for both to run alike: one node for the entry, for the exit and for
every node of the flow graph, and from each of them an edge of the right kind to every stop that
control comes to next.  Then an edge path leads from one node to another exactly if a path of the
flow graph does (`Realizes.flows`).

Every kernel that is built is realized so, whatever is built, linked or invalidated before and
after (`wiring_realizes_flow`), provided only blocks with nodes have several successors; empty
blocks may be chained and may go round for ever.
-/
import Retarget.Proofs.LayoutHistory
import Retarget.Proofs.StopWiring

namespace Retarget

open Retarget.Source (NodeId)

set_option autoImplicit false
set_option linter.dupNamespace false

namespace PropertyGraph

/-- An edge of a local kind leads from one slot to the other. -/
def LocalStep (g : PropertyGraph) (a b : Slot) : Prop :=
  ∃ e ∈ g.succsOf a, e.other = b ∧ e.kind.isLocal = true

/-- The nodes of kernel `k` from slot `first` on, and the edges of the local kinds out of them, are
those of the flow graph. -/
structure Realizes (u : SourceUnit) (g : PropertyGraph) (k : KernelId) (flow : FlowGraph)
    (first : Slot) (landing : Nat → Option Stop) : Prop where
  entry : g.LiveAs (flow.slot first .entry) fun m =>
    m.kind = .entry ∧ m.kernel = k ∧ m.stmt = none
  exit : g.LiveAs (flow.slot first .exit) fun m =>
    m.kind = .exit ∧ m.kernel = k ∧ m.stmt = none
  node : ∀ p n, flow.At p n → g.LiveAs (flow.slot first (.node p)) fun m =>
    m.kind = (if (u.callsOf n).isEmpty then .statement else .callSite) ∧ m.kernel = k ∧
      m.stmt = some n
  distinct : ∀ a b, flow.Has a → flow.Has b → flow.slot first a = flow.slot first b → a = b
  edges : ∀ a, flow.Has a → ((g.succsOf (flow.slot first a)).filter (·.kind.isLocal)).Perm
    ((onward flow landing a).map fun (s, kind) => ⟨flow.slot first s, kind⟩)
  flows : ∀ a b, flow.Has a → flow.Has b →
    (Relation.TransGen g.LocalStep (flow.slot first a) (flow.slot first b) ↔ flow.Flows a b)

variable {u : SourceUnit} {g : PropertyGraph} {k : KernelFn} {flow : FlowGraph} {first : Nat}
  {landing : Nat → Option Stop}

/-! ## Edge paths and flow -/

theorem has_of_next {a b : Stop} (next : flow.Next a b) : flow.Has b := by
  obtain ⟨-, -, q, before, -⟩ := next
  cases b with
  | entry => trivial
  | exit => trivial
  | node p => exact before.2

section Steps

variable (lands : flow.Lands landing)
  (edges : ∀ a, flow.Has a → ((g.succsOf (flow.slot first a)).filter (·.kind.isLocal)).Perm
    ((onward flow landing a).map fun (s, kind) => ⟨flow.slot first s, kind⟩))

include lands edges

/-- From the slot of a stop local edges lead to the slots of the stops that follow it. -/
theorem localStep_iff {a : Stop} (has : flow.Has a) {y : Slot} :
    g.LocalStep (flow.slot first a) y ↔ ∃ b, flow.Next a b ∧ y = flow.slot first b := by
  have listed : g.LocalStep (flow.slot first a) y
      ↔ ∃ e ∈ (g.succsOf (flow.slot first a)).filter (·.kind.isLocal), e.other = y := by
    simp only [LocalStep, List.mem_filter]
    grind
  simp only [listed, (edges a has).mem_iff, List.mem_map, ← exists_mem_onward lands has]
  constructor
  · rintro ⟨e, ⟨⟨b, kind⟩, member, rfl⟩, rfl⟩
    exact ⟨b, ⟨kind, member⟩, rfl⟩
  · rintro ⟨b, ⟨kind, member⟩, rfl⟩
    exact ⟨_, ⟨(b, kind), member, rfl⟩, rfl⟩

theorem exists_stop_of_steps {a : Stop} (has : flow.Has a) {y : Slot}
    (steps : Relation.TransGen g.LocalStep (flow.slot first a) y) :
    ∃ b, flow.Has b ∧ y = flow.slot first b ∧ Relation.TransGen flow.Next a b := by
  induction steps with
  | single step =>
      obtain ⟨b, next, rfl⟩ := (localStep_iff lands edges has).mp step
      exact ⟨b, has_of_next next, rfl, .single next⟩
  | tail _ step ih =>
      obtain ⟨b, hasB, rfl, before⟩ := ih
      obtain ⟨c, next, rfl⟩ := (localStep_iff lands edges hasB).mp step
      exact ⟨c, has_of_next next, rfl, before.tail next⟩

theorem steps_of_next {a b : Stop} (has : flow.Has a) (steps : Relation.TransGen flow.Next a b) :
    Relation.TransGen g.LocalStep (flow.slot first a) (flow.slot first b) := by
  have follow {a b : Stop} (hasA : flow.Has a) (next : flow.Next a b) :
      g.LocalStep (flow.slot first a) (flow.slot first b) :=
    (localStep_iff lands edges hasA).mpr ⟨b, next, rfl⟩
  induction steps with
  | single next => exact .single (follow has next)
  | tail before next ih =>
      refine ih.tail (follow ?_ next)
      cases before with
      | single first => exact has_of_next first
      | tail _ last => exact has_of_next last

/-- Edge paths and paths of the flow graph lead from stop to stop alike. -/
theorem transGen_localStep_iff {a b : Stop} (hasA : flow.Has a) (hasB : flow.Has b) :
    Relation.TransGen g.LocalStep (flow.slot first a) (flow.slot first b) ↔ flow.Flows a b := by
  rw [← FlowGraph.transGen_next_iff]
  constructor
  · intro steps
    obtain ⟨c, hasC, same, next⟩ := exists_stop_of_steps lands edges hasA steps
    rwa [FlowGraph.slot_inj hasB hasC same]
  · exact steps_of_next lands edges hasA

end Steps

/-! ## Kernels realize their flow graphs -/

/-- Nodes and edges as they are made realize the flow graph. -/
theorem realizes_of_wired (lands : flow.Lands landing)
    (holds : ∀ i n, (kernelNodes k (rowsOf u flow))[i]? = some n → g.Holds (first + i) n)
    (edges : ∀ a, flow.Has a → ((g.succsOf (flow.slot first a)).filter (·.kind.isLocal)).Perm
      ((onward flow landing a).map fun (s, kind) => ⟨flow.slot first s, kind⟩)) :
    g.Realizes u k.id flow first landing where
  entry := (holds 0 _ rfl).imp fun m same => by simp [same, GraphNode.fixed]
  exit := (holds 1 _ rfl).imp fun m same => by simp [same, GraphNode.fixed]
  node := by
    intro p n here
    have row : (kernelNodes k (rowsOf u flow))[flow.nodesBefore p.block + p.offset + 2]? = some
        { kind := if (u.callsOf n).isEmpty then .statement else .callSite, kernel := k.id,
          stmt := some n, calls := (u.callsOf n).map Source.Node.id } := by
      simp [kernelNodes, rowsOf, here.getElem?_statements]
    have place : flow.slot first (.node p) = first + (flow.nodesBefore p.block + p.offset + 2) := by
      simp only [FlowGraph.slot, Slot]
      omega
    rw [place]
    exact (holds _ _ row).imp fun m same => by simp [same, GraphNode.fixed]
  distinct _ _ := FlowGraph.slot_inj
  edges := edges
  flows _ _ := transGen_localStep_iff lands edges

/-- A kernel that has just been wired realizes its flow graph. -/
theorem wireKernel_realizes (shaped : flow.Shaped) (lands : flow.Lands landing)
    (g : PropertyGraph) (u : SourceUnit) (k : KernelFn) :
    (g.wireKernel u k flow).Realizes u k.id flow g.nodes.size landing := by
  have adds := wireKernel_adds g u k flow
  refine realizes_of_wired lands (fun i n listed => ?_) fun a has => List.Perm.of_eq ?_
  · exact adds.liveAs_new listed (mem_kernelNodes (List.mem_of_getElem? listed)).2.2.1 rfl
  · have own : flow.slot g.nodes.size a ∈ slotsFrom flow g.nodes.size :=
      FlowGraph.mem_slotsFrom_iff.mpr ⟨a, has, rfl⟩
    have inside : ∀ e ∈ kernelEdges flow (wiringOf flow g.nodes.size),
        e.1 < (g.addNodes (kernelNodes k (rowsOf u flow))).nodes.size := fun e member =>
      (addNodes_own (kernelEdges_all (wiringOf_all flow g.nodes.size) member).1).live.lt_size
    have blank : (g.addNodes (kernelNodes k (rowsOf u flow))).succsOf (flow.slot g.nodes.size a)
        = [] := by
      have absent : g.node? (flow.slot g.nodes.size a) = none :=
        Array.getElem?_eq_none (List.mem_range'_1.mp own).1
      rw [succsOf_addNodes fun n member => (mem_kernelNodes member).2.2.2, succsOf, edgesAt, absent]
      rfl
    rw [wireKernel, succsOf_addEdges inside, blank, List.nil_append,
      ← outOf_kernelEdges shaped lands has]
    refine List.filter_eq_self.mpr fun e leaves => ?_
    exact (kernelEdges_all (wiringOf_all flow g.nodes.size) (mem_outOf.mp leaves)).2.2

/-- From a slot of a kernel lead the edges of that kernel. -/
theorem Wired.ownEdges_eq {calls : List CallRecord} (wired : g.Wired u calls)
    (laid : g.Laid u calls) {b : BuiltKernel} (built : b ∈ g.built) {s : Slot} (own : s ∈ b.slots) :
    g.ownEdges s = outOf b.arcs s := by
  rw [ownEdges, ownArcs, outOf_flatMap]
  refine flatMap_eq_of_unique wired.once.of_map built fun c member other => ?_
  refine outOf_eq_nil fun e inner source => other ?_
  have ofC := ((laid.kernels c member).mem_arcs inner).1
  exact wired.kernel_inj member built (wired.kernel_eq_of_slot built member own (source ▸ ofC))

/-- A built kernel realizes its flow graph in any graph that is laid out. -/
theorem Wired.realizes {calls : List CallRecord} (wired : g.Wired u calls) (laid : g.Laid u calls)
    {b : BuiltKernel} (built : b ∈ g.built) (shaped : b.graph.Shaped)
    (lands : b.graph.Lands landing) : g.Realizes u b.kernel b.graph b.entry landing := by
  obtain ⟨k, -, describes⟩ := (wired.kernels b built).listed
  have base := laid.kernels b built
  rw [describes.kernel]
  refine realizes_of_wired lands (base.nodes k describes.kernel.symm) fun a has => ?_
  have own : b.graph.slot b.entry a ∈ b.slots := by
    rw [base.slots]
    exact FlowGraph.mem_slotsFrom_iff.mpr ⟨a, has, rfl⟩
  have edges := wired.local_succs_own laid built own
  rw [wired.ownEdges_eq laid built own] at edges
  rwa [← outOf_kernelEdges shaped lands has]

/-- The kernel has no other nodes than those of its flow graph and those made for calls. -/
theorem Wired.exists_stop {calls : List CallRecord} (wired : g.Wired u calls)
    (laid : g.Laid u calls) {b : BuiltKernel} (built : b ∈ g.built) {s : Slot}
    (alive : g.LiveAs s fun m => m.kernel = b.kernel ∧ m.kind.isLink = false) :
    ∃ a, b.graph.Has a ∧ b.graph.slot b.entry a = s := by
  rcases laid.covers s alive.live with ⟨c, member, own⟩ | ⟨r, recorded, created⟩
  · obtain ⟨n, -, -, inB, inC⟩ := alive.and ((wired.kernels c member).own s own)
    obtain rfl : c = b := wired.kernel_inj member built (inC.1.symm.trans inB.1)
    rw [(laid.kernels c member).slots] at own
    exact FlowGraph.mem_slotsFrom_iff.mp own
  · obtain ⟨n, -, -, notLink, link⟩ := alive.and ((wired.records r recorded).created s created)
    exact absurd (notLink.2.symm.trans link) Bool.false_ne_true

/-- The graph of every kernel realizes its flow graph: when the kernel is wired into any graph,
and in every graph that a history leads to.  There are no other nodes of the kernel than those of
the flow graph and those made for calls. -/
theorem wiring_realizes_flow {flow : FlowGraph} (shaped : flow.Shaped) :
    ∃ landing, flow.Lands landing ∧
      (∀ (g : PropertyGraph) (u : SourceUnit) (k : KernelFn),
        (g.wireKernel u k flow).Realizes u k.id flow g.nodes.size landing ∧
        ∀ s, (g.wireKernel u k flow).Live s → g.nodes.size ≤ s →
          ∃ a, flow.Has a ∧ flow.slot g.nodes.size a = s) ∧
      ∀ (u : SourceUnit) (cap : Int) (ops : List (GraphOp u)), ∀ b ∈ (history u cap ops).built,
        b.graph = flow →
        (history u cap ops).Realizes u b.kernel flow b.entry landing ∧
        ∀ s, ((history u cap ops).LiveAs s fun m => m.kernel = b.kernel ∧ m.kind.isLink = false) →
          ∃ a, flow.Has a ∧ flow.slot b.entry a = s := by
  obtain ⟨landing, lands⟩ := shaped.exists_landing
  refine ⟨landing, lands, fun g u k => ⟨wireKernel_realizes shaped lands g u k, fun s alive new => ?_⟩,
    fun u cap ops b built same => ?_⟩
  · rcases (wireKernel_adds g u k flow).live_cases alive with old | ⟨i, inside, rfl⟩
    · exact absurd new (Nat.not_le_of_lt old.lt_size)
    · rw [kernelNodes_length] at inside
      exact FlowGraph.mem_slotsFrom_iff.mp
        (List.mem_range'_1.mpr ⟨new, Nat.add_lt_add_left inside _⟩)
  · have wired := (history_ordered u cap ops).wired
    have laid := history_laid u cap ops
    subst same
    exact ⟨wired.realizes laid built shaped lands, fun s alive => wired.exists_stop laid built alive⟩

/-- A condition with an empty arm that goes round for ever and an empty arm to the exit. -/
def spinning : FlowGraph where
  blocks := [⟨.body, [1], [(1, .taken), (2, .skipped)], none⟩, ⟨.forBody, [], [(1, .always)], none⟩,
    ⟨.ifDone, [], [(3, .always)], none⟩, ⟨.exit, [], [], none⟩]

/-- Into the arm that goes round no edge leads; the other leads to the exit. -/
theorem wiring_realizes_flow_spinning : spinning.Shaped ∧ ∃ landing, spinning.Lands landing ∧
    onward spinning landing (.node ⟨0, 0⟩) = [(.exit, .skipped)] ∧
    (new.wireKernel default default spinning).Realizes default 0 spinning 0 landing := by
  have shaped : spinning.Shaped := by decide
  obtain ⟨landing, lands, wires, -⟩ := wiring_realizes_flow shaped
  have never : landing 1 = none := by
    refine Option.eq_none_iff_forall_ne_some.mpr fun s met => ?_
    obtain ⟨blocks, through⟩ := shaped.through_of_meets ((lands 1 s).mp met)
    have again := (FlowGraph.Through.empty rfl rfl through).unique shaped through
    exact absurd (congrArg List.length again.1) (by simp)
  have leaves : landing 2 = some .exit :=
    (lands 2 .exit).mpr (FlowGraph.Through.empty rfl rfl .exit).meets
  refine ⟨shaped, landing, lands, ?_, (wires new default default).1⟩
  simp [onward, spinning, FlowGraph.nodes, FlowGraph.block?, FlowGraph.labeledSuccs, never, leaves,
    EdgeKind.ofLabel]

end PropertyGraph

end Retarget
