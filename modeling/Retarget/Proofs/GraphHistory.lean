/-
# Proofs.GraphHistory -- every graph that building and invalidating can lead to

A history is a list of the three operations, in any order, on kernels of one unit (`GraphOp`).
Each operation keeps the graph in order and leaves every call of a built kernel linked
(`Ordered`), so the graph at the end of any history is consistent (`Consistent`), and whatever
happens later, a slot keeps the node that was made for it (`history_consistent`). The facts it
answers from are those of the analyses of single flow graphs (`history_describes`).
-/
import Retarget.Proofs.Forgetting
import Retarget.Proofs.KernelWiring

namespace Retarget

open Retarget.Source (NodeId)

set_option autoImplicit false
set_option linter.dupNamespace false

/-- A change to the graph of a unit. -/
inductive GraphOp (u : SourceUnit) where
  | build (k : KernelFn) (listed : k ∈ u.kernels)
  | buildUnit
  | invalidate (k : KernelFn) (listed : k ∈ u.kernels)

theorem BuiltKernel.Describes.hasBody {u : SourceUnit} {cap : Nat} {b : BuiltKernel} {k : KernelFn}
    (describes : b.Describes u cap k) : k.hasBody = true := by
  obtain ⟨body, has, -⟩ := Option.map_eq_some_iff.mp describes.graph
  rw [KernelFn.hasBody, has, Option.isSome_some]

namespace PropertyGraph

def apply {u : SourceUnit} (g : PropertyGraph) : GraphOp u → PropertyGraph
  | .build k _ => (g.build u k).value
  | .buildUnit => (g.buildUnit u).value
  | .invalidate k _ => (g.invalidate u k).value

/-- The graph after a history that starts with an empty one. -/
def history (u : SourceUnit) (cap : Int) (ops : List (GraphOp u)) : PropertyGraph :=
  ops.foldl apply (new cap)

theorem history_concat (u : SourceUnit) (cap : Int) (ops : List (GraphOp u)) (op : GraphOp u) :
    history u cap (ops ++ [op]) = (history u cap ops).apply op := by
  rw [history, List.foldl_append]
  rfl

/-! ## Consistency -/

/-- The node that a name of a statement leads to is there, in a kernel that is built. -/
def Resolves (g : PropertyGraph) (stmt : NodeId) (s : Slot) : Prop :=
  g.LiveAs s fun n => n.stmt = some stmt ∧ g.isBuilt n.kernel = true

/-- What can be relied upon in any state. -/
structure Consistent (u : SourceUnit) (g : PropertyGraph) : Prop where
  /-- A slot holds the node that was made for it. -/
  numbered : ∀ s n, g.node? s = some n → n.id = s
  /-- An edge is stored as often at its target as at its source. -/
  mirrored : ∀ a b m n kind, g.node? a = some m → g.node? b = some n →
    m.succs.count ⟨b, kind⟩ = n.preds.count ⟨a, kind⟩
  /-- A removed node has no edges. -/
  cleared : ∀ s n, g.node? s = some n → n.removed = true → n.succs = [] ∧ n.preds = []
  /-- Edges lead to and come from live nodes. -/
  live : ∀ s n e, g.node? s = some n → e ∈ n.succs ∨ e ∈ n.preds → g.Live e.other
  /-- The index leads to live nodes of built kernels. -/
  indexed : ∀ stmt s, (stmt, s) ∈ g.index → g.Resolves stmt s
  /-- So does an alias, by the statement it names and by its own. -/
  aliased : ∀ owner stmt, (owner, stmt) ∈ g.aliases →
    (∃ s, g.slotOf? stmt = some s ∧ g.Resolves stmt s) ∧
      ∃ s other, g.slotOf? owner = some s ∧ g.Resolves other s
  /-- A call is linked if and only if its callee has a body and is built. -/
  linked_iff : ∀ r ∈ g.calls, r.linked = true ↔
    ∃ k ∈ u.kernels, r.target = some k.id ∧ k.hasBody = true ∧ g.isBuilt k.id = true
  /-- A linked call leads to the entry of its callee and is come back to from its exit alone. -/
  linked : ∀ r ∈ g.calls, r.linked = true → ∃ b s, r.target.bind g.builtKernel? = some b ∧
    r.returnSite = some s ∧ g.LiveAs s (·.kind = .returnSite) ∧
    (g.predsOf s).filter (·.kind == .ret) = [⟨b.exit, .ret⟩] ∧
    g.LiveAs b.exit (fun n => n.kind = .exit ∧ n.kernel = b.kernel) ∧
    ⟨b.entry, .call⟩ ∈ g.succsOf r.site ∧
    g.LiveAs b.entry fun n => n.kind = .entry ∧ n.kernel = b.kernel

/-- The invariant of histories: all is in order, and no call that can be linked is not. -/
structure Ordered (u : SourceUnit) (g : PropertyGraph) : Prop where
  wired : g.Wired u g.calls
  settled : g.Settled g.calls

variable {u : SourceUnit} {g : PropertyGraph}

theorem Wired.builtKernel?_eq {calls : List CallRecord} {b : BuiltKernel}
    (wired : g.Wired u calls) (built : b ∈ g.built) : g.builtKernel? b.kernel = some b := by
  cases found : g.builtKernel? b.kernel with
  | none =>
      have other := List.find?_eq_none.mp found b built
      simp at other
  | some c =>
      obtain ⟨member, same⟩ := mem_of_builtKernel? found
      rw [wired.kernel_inj member built same]

theorem Wired.isBuilt {calls : List CallRecord} {b : BuiltKernel} (wired : g.Wired u calls)
    (built : b ∈ g.built) : g.isBuilt b.kernel = true := by
  rw [PropertyGraph.isBuilt, wired.builtKernel?_eq built, Option.isSome_some]

/-- Every entry of the index resolves. -/
theorem Wired.resolves {calls : List CallRecord} (wired : g.Wired u calls) {stmt : NodeId}
    {s : Slot} (listed : (stmt, s) ∈ g.index) : g.Resolves stmt s := by
  obtain ⟨b, built, -, slot, named⟩ := wired.index stmt s listed
  refine (named.and ((wired.kernels b built).own s slot)).imp fun n shows => ⟨shows.1, ?_⟩
  rw [shows.2.1]
  exact wired.isBuilt built

theorem Wired.resolves_of_lookup {calls : List CallRecord} (wired : g.Wired u calls)
    {stmt : NodeId} {s : Slot} (found : g.index.lookup stmt = some s) : g.Resolves stmt s := by
  obtain ⟨before, after, split, -⟩ := List.lookup_eq_some_iff.mp found
  apply wired.resolves
  rw [split]
  exact List.mem_append_right _ List.mem_cons_self

theorem Wired.exists_lookup_of_alias {calls : List CallRecord} (wired : g.Wired u calls)
    {owner stmt : NodeId} (listed : (owner, stmt) ∈ g.aliases) :
    ∃ s, g.index.lookup stmt = some s := by
  obtain ⟨s, named⟩ := wired.aliases owner stmt listed
  have found : (g.index.lookup stmt).isSome = true :=
    List.lookup_isSome_iff.mpr ⟨(stmt, s), named, beq_self_eq_true stmt⟩
  exact Option.isSome_iff_exists.mp found

/-- An alias resolves, whether asked for by the statement it names or by its own. -/
theorem Wired.alias_resolves {calls : List CallRecord} (wired : g.Wired u calls)
    {owner stmt : NodeId} (listed : (owner, stmt) ∈ g.aliases) :
    (∃ s, g.slotOf? stmt = some s ∧ g.Resolves stmt s) ∧
      ∃ s other, g.slotOf? owner = some s ∧ g.Resolves other s := by
  obtain ⟨s, named⟩ := wired.exists_lookup_of_alias listed
  refine ⟨⟨s, ?_, wired.resolves_of_lookup named⟩, ?_⟩
  · rw [slotOf?, canonical, named, Option.isSome_some, if_pos rfl, named]
  · cases own : g.index.lookup owner with
    | some t =>
        refine ⟨t, owner, ?_, wired.resolves_of_lookup own⟩
        rw [slotOf?, canonical, own, Option.isSome_some, if_pos rfl, own]
    | none =>
        have entered : (g.aliases.lookup owner).isSome = true :=
          List.lookup_isSome_iff.mpr ⟨(owner, stmt), listed, beq_self_eq_true owner⟩
        -- several kernels may name one statement; the first entry is the one that counts
        obtain ⟨other, first⟩ := Option.isSome_iff_exists.mp entered
        obtain ⟨before, after, split, -⟩ := List.lookup_eq_some_iff.mp first
        have member : (owner, other) ∈ g.aliases := by
          rw [split]
          exact List.mem_append_right _ List.mem_cons_self
        obtain ⟨t, there⟩ := wired.exists_lookup_of_alias member
        refine ⟨t, other, ?_, wired.resolves_of_lookup there⟩
        rw [slotOf?, canonical, own, Option.isSome_none, if_neg Bool.false_ne_true, first,
          Option.getD_some, there]

theorem Ordered.consistent (ordered : g.Ordered u) : g.Consistent u where
  numbered := ordered.wired.sound.numbered
  mirrored := by
    intro a b m n kind atA atB
    rw [← succsOf_eq atA, ← predsOf_eq atB]
    exact ordered.wired.sound.mirrored a b kind
  cleared := ordered.wired.sound.cleared
  live := by
    rintro s n e here (out | into)
    · exact ordered.wired.sound.live_other_of_mem_succs (succsOf_eq here ▸ out)
    · exact ordered.wired.sound.live_other_of_mem_preds (predsOf_eq here ▸ into)
  indexed stmt s listed := ordered.wired.resolves listed
  aliased owner stmt listed := ordered.wired.alias_resolves listed
  linked_iff := by
    intro r member
    constructor
    · intro linked
      obtain ⟨b, built, joins⟩ := (ordered.wired.records r member).linked linked
      obtain ⟨k, listed, describes⟩ := (ordered.wired.kernels b built).listed
      refine ⟨k, listed, ?_, describes.hasBody, ?_⟩
      · rw [joins.target, describes.kernel]
      · rw [← describes.kernel]
        exact ordered.wired.isBuilt built
    · rintro ⟨k, -, target, -, built⟩
      exact ordered.settled r member k.id target built
  linked := by
    intro r member linked
    obtain ⟨b, built, joins⟩ := (ordered.wired.records r member).linked linked
    obtain ⟨s, -, noted, alive, returns⟩ := joins.returnSite
    have stands := ordered.wired.kernels b built
    refine ⟨b, s, ?_, noted, alive, returns, ?_, joins.calls, ?_⟩
    · rw [joins.target, Option.bind_some, ordered.wired.builtKernel?_eq built]
    · exact stands.exit.2.and (stands.own b.exit stands.exit.1) |>.imp
        fun n shows => ⟨shows.1, shows.2.1⟩
    · exact stands.entry.2.and (stands.own b.entry stands.entry.1) |>.imp
        fun n shows => ⟨shows.1, shows.2.1⟩

/-! ## Steps -/

theorem new_ordered (u : SourceUnit) (cap : Int) : (new cap).Ordered u where
  wired := by
    have empty (s : Slot) : (new cap).node? s = none := rfl
    refine ⟨⟨?_, fun _ _ _ => rfl, ?_, nofun⟩, .nil, nofun, nofun, .nil, nofun, nofun⟩
    · intro s n here
      cases (empty s).symm.trans here
    · intro s n here
      cases (empty s).symm.trans here
  settled := nofun

/-- A graph in order leads to one in order that keeps every node. -/
def Follows (u : SourceUnit) (g h : PropertyGraph) : Prop := h.Ordered u ∧ g.Persists h

theorem Ordered.build (ordered : g.Ordered u) {k : KernelFn} (listed : k ∈ u.kernels) :
    Follows u g (g.build u k).value := by
  unfold PropertyGraph.build
  split
  · exact ⟨ordered, .refl g⟩
  · split
    · exact ⟨ordered, .refl g⟩
    · have absent : g.isBuilt k.id = false := by simpa using ‹¬g.isBuilt k.id = true›
      obtain ⟨wired, persists⟩ := ordered.wired.buildKernel listed absent
      obtain ⟨wiredLast, settled, persistsLast⟩ := wired.linkCalls
      exact ⟨⟨wiredLast, settled⟩, persists.trans persistsLast⟩

theorem Ordered.buildUnit (ordered : g.Ordered u) : Follows u g (g.buildUnit u).value := by
  have built : Follows u g (u.kernels.foldl (fun acc k => acc.bind fun g => g.build u k)
      (⟨g, []⟩ : Logged PropertyGraph)).value := by
    apply List.foldlRecOn (motive := fun acc : Logged PropertyGraph => Follows u g acc.value)
    · exact ⟨ordered, .refl g⟩
    · intro acc before k listed
      obtain ⟨next, persists⟩ := before.1.build listed
      exact ⟨next, before.2.trans persists⟩
  obtain ⟨wired, settled, persists⟩ := built.1.wired.linkCalls
  exact ⟨⟨wired, settled⟩, built.2.trans persists⟩

theorem Ordered.invalidate (ordered : g.Ordered u) {k : KernelFn} (listed : k ∈ u.kernels) :
    Follows u g (g.invalidate u k).value := by
  unfold PropertyGraph.invalidate
  split
  · exact ⟨ordered, .refl g⟩
  · rename_i b found
    obtain ⟨built, same⟩ := mem_of_builtKernel? found
    obtain ⟨wiredLeft, left, absent⟩ := ordered.wired.forget built
    rw [same] at absent
    obtain ⟨wired, persists⟩ := wiredLeft.buildKernel listed absent
    obtain ⟨wiredLast, settled, persistsLast⟩ := wired.linkCalls
    exact ⟨⟨wiredLast, settled⟩, (left.trans persists).trans persistsLast⟩

theorem Ordered.apply (ordered : g.Ordered u) (op : GraphOp u) : Follows u g (g.apply op) := by
  cases op with
  | build k listed => exact ordered.build listed
  | buildUnit => exact ordered.buildUnit
  | invalidate k listed => exact ordered.invalidate listed

/-! ## Histories -/

theorem Ordered.foldl_apply (ordered : g.Ordered u) (ops : List (GraphOp u)) :
    Follows u g (ops.foldl PropertyGraph.apply g) := by
  induction ops generalizing g with
  | nil => exact ⟨ordered, .refl g⟩
  | cons op ops ih =>
      obtain ⟨next, persists⟩ := ordered.apply op
      obtain ⟨last, persistsLast⟩ := ih next
      exact ⟨last, persists.trans persistsLast⟩

/-- After any history, what is noted of a built kernel is the analysis of its flow graph, with the
cap the graph was made with. -/
theorem history_describes (u : SourceUnit) (cap : Int) (ops : List (GraphOp u)) :
    ∀ b ∈ (history u cap ops).built, ∃ k ∈ u.kernels, b.Describes u (new cap).cap k := by
  obtain ⟨ordered, persists⟩ := (new_ordered u cap).foldl_apply ops
  intro b built
  rw [← persists.cap]
  exact (ordered.wired.kernels b built).listed

/-- After any history the graph is consistent, and any longer history keeps every node in its
slot. -/
theorem history_consistent (u : SourceUnit) (cap : Int) (ops more : List (GraphOp u)) :
    (history u cap ops).Consistent u ∧
      (history u cap ops).Persists (history u cap (ops ++ more)) := by
  have ordered : (history u cap ops).Ordered u := ((new_ordered u cap).foldl_apply ops).1
  refine ⟨ordered.consistent, ?_⟩
  rw [history, history, List.foldl_append]
  exact (ordered.foldl_apply more).2

end PropertyGraph

end Retarget
