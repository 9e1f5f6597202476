/-
# Proofs.BuildOrder -- the order of building does not matter

Slots are given out in the order of building and never used again, so graphs of the same kernels
have other slots after other histories.  In a unit whose statements each make at most one call
that can be linked this is the only difference: a bijection of the live slots keeps what the nodes
say and how often each edge is there (`Isomorphic`), and the analyses are the same.  Both graphs
fit one blueprint, and graphs that do are isomorphic (`Fits.isomorphic`).

So a graph is told by its built kernels (`history_determined`).  Invalidating a kernel changes
nothing but slots, and building the unit is building its kernels in any order.
-/
import Mathlib.Data.Set.Function
import Retarget.Proofs.Blueprint
import Retarget.Proofs.ReturnEdges

namespace Retarget

open Retarget.Source (Node NodeId)

set_option autoImplicit false
set_option linter.dupNamespace false

/-- All that a node says, its slot and its edges apart. -/
def GraphNode.label (n : GraphNode) : GraphNode := { n with id := 0, succs := [], preds := [] }

/-- What is known of a built kernel, its slots apart: the flow graph, its nodes, and what the
analyses say of them, reaching definitions and records of dependences among it. -/
def BuiltKernel.analysis (b : BuiltKernel) : FlowGraph × List NodeId × FlowFacts :=
  (b.graph, b.stmts, b.facts)

/-- Two descriptions of one kernel are the same. -/
theorem BuiltKernel.Describes.analysis_eq {u : SourceUnit} {cap : Nat} {b c : BuiltKernel}
    {k : KernelFn} (ofB : b.Describes u cap k) (ofC : c.Describes u cap k) :
    b.analysis = c.analysis := by
  have graph : b.graph = c.graph := Option.some.inj (ofB.graph.symm.trans ofC.graph)
  have stmts : b.stmts = c.stmts := by rw [ofB.stmts, ofC.stmts, graph]
  have facts : b.facts = c.facts := by rw [ofB.facts, ofC.facts, graph, stmts]
  rw [analysis, analysis, graph, stmts, facts]

namespace PropertyGraph

/-- The map leads each live slot of `g` to one of `h` that says the same, and keeps how often each
edge is there. -/
structure Isomorphic (g h : PropertyGraph) (f : Slot → Slot) : Prop where
  nodes : Set.BijOn f {s | g.Live s} {s | h.Live s}
  labels : ∀ s, g.Live s → (h.node? (f s)).map GraphNode.label = (g.node? s).map GraphNode.label
  edges : ∀ a b kind, g.Live a → g.Live b →
    h.edgeCount (f a, f b, kind) = g.edgeCount (a, b, kind)

/-- The graphs differ in slots alone. -/
structure Equivalent (g h : PropertyGraph) : Prop where
  isomorphic : ∃ f, Isomorphic g h f
  analyses : ∀ k, (g.builtKernel? k).map BuiltKernel.analysis
    = (h.builtKernel? k).map BuiltKernel.analysis

variable {u : SourceUnit} {P : KernelId → Bool} {g h : PropertyGraph}

/-! ## Graphs with one blueprint -/

theorem Holds.label_eq {s : Slot} {n : GraphNode} (holds : g.Holds s n) :
    (g.node? s).map GraphNode.label
      = some { n.label with target := g.aim s, removed := false } := by
  obtain ⟨m, here, present, same⟩ := holds
  have aims : g.aim s = m.target := by rw [aim, here, Option.bind_some]
  rw [here, Option.map_some, aims]
  cases m
  cases n
  simp_all [GraphNode.label, GraphNode.fixed]

theorem count_map_of_inj {α β : Type} [BEq α] [LawfulBEq α] [BEq β] [LawfulBEq β] {f : α → β}
    {xs : List α} {x : α} (inj : ∀ y ∈ xs, f y = f x → y = x) :
    (xs.map f).count (f x) = xs.count x := by
  rw [List.count, List.countP_map, List.count]
  refine List.countP_congr fun y member => ?_
  simp only [Function.comp_apply, beq_iff_eq]
  exact ⟨inj y member, congrArg f⟩

/-- An edge between spots is as often in the graph as in the blueprint. -/
theorem Fits.edgeCount_place (fits : g.Fits u P)
    (parts : ∀ k, P k = true → ∃ f flow, u.part? k = some (f, flow)) {x y : Spot} {n m : GraphNode}
    (atX : Part u P x n) (atY : Part u P y m) (kind : EdgeKind) :
    g.edgeCount (g.place x, g.place y, kind) = (blueprint u P).count (x, y, kind) := by
  rw [fits.drawn]
  have moved : (g.place x, g.place y, kind) = moveArc g.place (x, y, kind) := rfl
  rw [moved]
  refine count_map_of_inj fun e member same => ?_
  obtain ⟨⟨_, source⟩, ⟨_, target⟩⟩ := mem_blueprint parts member
  have first := fits.distinct e.1 x _ _ source atX (congrArg Prod.fst same)
  have second := fits.distinct e.2.1 y _ _ target atY (congrArg (·.2.1) same)
  have last : e.2.2 = kind := congrArg (·.2.2) same
  rw [← first, ← second, ← last]

/-- Graphs that fit one blueprint are isomorphic. -/
theorem Fits.isomorphic (ofG : g.Fits u P) (ofH : h.Fits u P)
    (parts : ∀ k, P k = true → ∃ f flow, u.part? k = some (f, flow)) : ∃ f, Isomorphic g h f := by
  classical
  choose spot node part placed using ofG.covers
  let f (s : Slot) : Slot := if alive : g.Live s then h.place (spot s alive) else 0
  -- a slot of `g` goes to the slot of its spot in `h`
  have follows {x : Spot} {n : GraphNode} (atX : Part u P x n) : f (g.place x) = h.place x := by
    have alive : g.Live (g.place x) := (ofG.nodes x n atX).live
    have same := ofG.distinct _ x _ _ (part _ alive) atX (placed _ alive)
    simp only [f, dif_pos alive, same]
  refine ⟨f, ⟨?_, ?_, ?_⟩, ?_, ?_⟩
  · intro s alive
    have target := (ofH.nodes _ _ (part s alive)).live
    rwa [← follows (part s alive), placed s alive] at target
  · intro s aliveS t aliveT same
    rw [← placed s aliveS, ← placed t aliveT, follows (part s aliveS),
      follows (part t aliveT)] at same
    rw [← placed s aliveS, ← placed t aliveT,
      ofH.distinct _ _ _ _ (part s aliveS) (part t aliveT) same]
  · intro t alive
    obtain ⟨x, n, atX, rfl⟩ := ofH.covers t alive
    exact ⟨g.place x, (ofG.nodes x n atX).live, follows atX⟩
  · intro s alive
    have atS := part s alive
    rw [← placed s alive, follows atS, (ofG.nodes _ _ atS).label_eq, (ofH.nodes _ _ atS).label_eq]
    have aims : h.aim (h.place (spot s alive)) = g.aim (g.place (spot s alive)) :=
      Option.ext fun t => (ofH.aims _ _ atS t).trans (ofG.aims _ _ atS t).symm
    rw [aims]
  · intro a b kind aliveA aliveB
    have atA := part a aliveA
    have atB := part b aliveB
    rw [← placed a aliveA, ← placed b aliveB, follows atA, follows atB,
      ofG.edgeCount_place parts atA atB, ofH.edgeCount_place parts atA atB]

/-! ## Which kernels are built -/

theorem isBuilt_iff_mem {k : KernelId} : g.isBuilt k = true ↔ k ∈ g.built.map (·.kernel) := by
  rw [isBuilt, builtKernel?, List.find?_isSome, List.mem_map]
  simp only [beq_iff_eq]

theorem Ordered.isBuilt_build (ordered : g.Ordered u) {k : KernelFn} (listed : k ∈ u.kernels)
    (j : KernelId) : (g.build u k).value.isBuilt j = true ↔
      g.isBuilt j = true ∨ (k.hasBody = true ∧ k.id = j) := by
  unfold PropertyGraph.build
  cases body : k.hasBody with
  | false => simp
  | true =>
      cases known : g.isBuilt k.id with
      | true =>
          simp only [Bool.not_true, Bool.false_eq_true, if_false, if_true, true_and]
          exact ⟨Or.inl, fun either => either.elim id fun same => same ▸ known⟩
      | false =>
          obtain ⟨flow, found⟩ : ∃ flow, u.flowGraph? k = some flow := by
            obtain ⟨body, has⟩ := Option.isSome_iff_exists.mp body
            exact ⟨_, by rw [SourceUnit.flowGraph?, has, Option.map_some]⟩
          have built := (ordered.wired.buildKernel listed known).1.built_linkCalls
          rw [(buildKernel_tables found).1] at built
          simp only [Bool.not_true, Bool.false_eq_true, if_false, true_and]
          rw [isBuilt_iff_mem, isBuilt_iff_mem, Logged.map, built, List.map_append, List.mem_append]
          simp [kernelInfo, eq_comm]

/-- The graph after building kernels one by one. -/
def buildAll (u : SourceUnit) (g : PropertyGraph) (ks : List KernelFn) : PropertyGraph :=
  ks.foldl (fun g k => (g.build u k).value) g

theorem Ordered.buildAll (ordered : g.Ordered u) (ks : List KernelFn)
    (listed : ∀ k ∈ ks, k ∈ u.kernels) : (g.buildAll u ks).Ordered u ∧
      ∀ j, (g.buildAll u ks).isBuilt j = true ↔
        g.isBuilt j = true ∨ ∃ k ∈ ks, k.hasBody = true ∧ k.id = j := by
  induction ks generalizing g with
  | nil => exact ⟨ordered, fun j => by simp [PropertyGraph.buildAll]⟩
  | cons k ks ih =>
      obtain ⟨first, rest⟩ := List.forall_mem_cons.mp listed
      obtain ⟨last, built⟩ := ih (ordered.build first).1 rest
      refine ⟨last, fun j => (built j).trans ?_⟩
      rw [ordered.isBuilt_build first, or_assoc]
      simp only [List.mem_cons, exists_eq_or_imp]

theorem buildUnit_eq (u : SourceUnit) (g : PropertyGraph) :
    (g.buildUnit u).value = (g.buildAll u u.kernels).linkCalls u := by
  have run (ks : List KernelFn) (start : Logged PropertyGraph) :
      (ks.foldl (fun acc k => acc.bind fun g => g.build u k) start).value
        = start.value.buildAll u ks := by
    induction ks generalizing start with
    | nil => rfl
    | cons k ks ih => exact ih _
  rw [PropertyGraph.buildUnit, Logged.map, run]

theorem Ordered.isBuilt_buildUnit (ordered : g.Ordered u) (j : KernelId) :
    (g.buildUnit u).value.isBuilt j = true ↔
      g.isBuilt j = true ∨ ∃ k ∈ u.kernels, k.hasBody = true ∧ k.id = j := by
  obtain ⟨last, built⟩ := ordered.buildAll u.kernels fun _ => id
  rw [← built j, buildUnit_eq, isBuilt_iff_mem, isBuilt_iff_mem, last.wired.built_linkCalls]

/-- A kernel that is invalidated is built again, and no other is touched. -/
theorem Ordered.isBuilt_invalidate (ordered : g.Ordered u) {k : KernelFn} (listed : k ∈ u.kernels)
    (j : KernelId) : (g.invalidate u k).value.isBuilt j = g.isBuilt j := by
  unfold PropertyGraph.invalidate
  split
  case h_1 => rfl
  case h_2 b found =>
      obtain ⟨member, same⟩ := mem_of_builtKernel? found
      obtain ⟨k', listed', describes⟩ := (ordered.wired.kernels b member).listed
      obtain rfl : k = k' := SourceUnit.kernel_inj listed listed' (same.symm.trans describes.kernel)
      obtain ⟨wired, -, absent⟩ := ordered.wired.forget member
      obtain ⟨-, -, left⟩ := ordered.wired.forget_alike b
      have built := (wired.buildKernel listed (same ▸ absent)).1.built_linkCalls
      rw [(buildKernel_tables describes.graph).1, left] at built
      rw [Bool.eq_iff_iff, isBuilt_iff_mem, isBuilt_iff_mem, Logged.map, built, List.map_append,
        List.mem_append]
      constructor
      · rintro (other | self)
        · exact List.map_subset _ (List.filter_subset_self _) other
        · obtain rfl : j = k.id := List.mem_singleton.mp self
          exact List.mem_map.mpr ⟨b, member, same⟩
      · intro there
        obtain ⟨c, builtC, rfl⟩ := List.mem_map.mp there
        by_cases equal : c.kernel = b.kernel
        · exact Or.inr (List.mem_singleton.mpr (equal.trans same))
        · refine Or.inl (List.mem_map.mpr ⟨c, List.mem_filter.mpr ⟨builtC, ?_⟩, rfl⟩)
          simpa using equal

/-! ## Histories -/

/-- Histories that leave the same kernels built leave equivalent graphs. -/
theorem history_equivalent (single : u.SingleCalls) (cap : Int) {ops others : List (GraphOp u)}
    (same : ∀ k, (history u cap ops).isBuilt k = (history u cap others).isBuilt k) :
    (history u cap ops).Equivalent (history u cap others) where
  isomorphic := by
    have ordered := history_ordered u cap ops
    have fits := (history_plain single cap ops).fits ordered single
    have fitsOther := (history_plain single cap others).fits (history_ordered u cap others) single
    rw [← show (history u cap ops).isBuilt = (history u cap others).isBuilt from funext same]
      at fitsOther
    refine fits.isomorphic fitsOther fun k built => ?_
    obtain ⟨b, member, rfl⟩ := List.mem_map.mp (isBuilt_iff_mem.mp built)
    obtain ⟨f, -, part⟩ := ordered.wired.part?_eq member
    exact ⟨f, b.graph, part⟩
  analyses := by
    intro k
    have built := same k
    rw [isBuilt, isBuilt] at built
    cases found : (history u cap ops).builtKernel? k with
    | none =>
        rw [found, Option.isSome_none, eq_comm, Option.isSome_eq_false_iff,
          Option.isNone_iff_eq_none] at built
        rw [built, Option.map_none]
    | some b =>
        rw [found, Option.isSome_some, eq_comm, Option.isSome_iff_exists] at built
        obtain ⟨c, foundC⟩ := built
        obtain ⟨memberB, kernelB⟩ := mem_of_builtKernel? found
        obtain ⟨memberC, kernelC⟩ := mem_of_builtKernel? foundC
        obtain ⟨f, listed, describesB⟩ := history_describes u cap ops b memberB
        obtain ⟨f', listed', describesC⟩ := history_describes u cap others c memberC
        obtain rfl : f = f' := SourceUnit.kernel_inj listed listed' (by
          rw [← describesB.kernel, ← describesC.kernel, kernelB, kernelC])
        rw [foundC, Option.map_some, Option.map_some, describesB.analysis_eq describesC]

/-- In a unit with single calls the graph depends on which kernels are built, and on nothing else.
So invalidating a kernel gives an equivalent graph, and building the unit gives what building its
kernels one by one gives, in any order. -/
theorem history_determined {u : SourceUnit} (single : u.SingleCalls) (cap : Int) :
    (∀ ops others : List (GraphOp u),
      (∀ k, (history u cap ops).isBuilt k = (history u cap others).isBuilt k) →
        (history u cap ops).Equivalent (history u cap others)) ∧
    (∀ (ops : List (GraphOp u)) (k : KernelFn) (listed : k ∈ u.kernels),
      (history u cap (ops ++ [.invalidate k listed])).Equivalent (history u cap ops)) ∧
    ∀ (ops : List (GraphOp u)) (order : List { k // k ∈ u.kernels }),
      (∀ k : { k // k ∈ u.kernels }, k.1.hasBody = true → k ∈ order) →
        (history u cap (ops ++ [.buildUnit])).Equivalent
          (history u cap (ops ++ order.map fun k => .build k.1 k.2)) := by
  refine ⟨fun ops others => history_equivalent single cap, fun ops k listed => ?_,
    fun ops order all => ?_⟩
  · refine history_equivalent single cap fun j => ?_
    rw [history_concat]
    exact (history_ordered u cap ops).isBuilt_invalidate listed j
  · refine history_equivalent single cap fun j => ?_
    have ordered := history_ordered u cap ops
    have unit : history u cap (ops ++ [GraphOp.buildUnit]) =
        ((history u cap ops).buildUnit u).value := history_concat u cap ops _
    have each : history u cap (ops ++ order.map fun k => GraphOp.build k.1 k.2)
        = (history u cap ops).buildAll u (order.map (·.1)) := by
      rw [history, List.foldl_append, List.foldl_map, PropertyGraph.buildAll, List.foldl_map]
      rfl
    obtain ⟨-, built⟩ := ordered.buildAll (order.map (·.1)) fun k member => by
      obtain ⟨k, -, rfl⟩ := List.mem_map.mp member
      exact k.2
    rw [unit, each, Bool.eq_iff_iff, ordered.isBuilt_buildUnit, built]
    refine or_congr_right ⟨?_, ?_⟩
    · rintro ⟨k, listed, body, same⟩
      exact ⟨k, List.mem_map.mpr ⟨⟨k, listed⟩, all ⟨k, listed⟩ body, rfl⟩, body, same⟩
    · rintro ⟨_, member, body, same⟩
      obtain ⟨k, -, rfl⟩ := List.mem_map.mp member
      exact ⟨k.1, k.2, body, same⟩

/-! ## One call, two orders -/

/-- A kernel that calls itself and then `passing`. -/
def calling : KernelFn where
  id := 1
  name := "again"
  params := [⟨"a", "int", 0⟩]
  result := "int"
  start := 0
  stop := 0
  body := some (.block ⟨5, 0, 0⟩
    [.exprStmt ⟨6, 0, 0⟩ (.call ⟨7, 0, 0⟩ (.name ⟨8, 0, 0⟩ "again") [.name ⟨9, 0, 0⟩ "a"] false),
      .ret ⟨10, 0, 0⟩ [passingCall 11]])
  fallOff := .ret ⟨14, 0, 0⟩ []
  vars := []

/-- A unit whose statements make one call each. -/
def called : SourceUnit where
  file := ""
  lines := default
  scope := {}
  kernels := [passing, calling]

/-- The caller is built before its callee. -/
def callerFirst : List (GraphOp called) :=
  [.build calling (.tail _ (.head _)), .build passing (.head _)]

/-- The unit is built and its caller built again. -/
def callerAgain : List (GraphOp called) := [.buildUnit, .invalidate calling (.tail _ (.head _))]

/-- The two histories give out other slots and leave the same graph. -/
theorem history_determined_called :
    called.SingleCalls ∧
    (history called 0 callerFirst).nodes.size ≠ (history called 0 callerAgain).nodes.size ∧
    (history called 0 callerFirst).Equivalent (history called 0 callerAgain) := by
  have single : called.SingleCalls := by decide +kernel
  refine ⟨single, by decide +kernel, (history_determined single 0).1 _ _ fun k => ?_⟩
  have first : (history called 0 callerFirst).built.map (·.kernel) = [1, 0] := by decide +kernel
  have again : (history called 0 callerAgain).built.map (·.kernel) = [0, 1] := by decide +kernel
  rw [Bool.eq_iff_iff, isBuilt_iff_mem, isBuilt_iff_mem, first, again]
  exact (List.Perm.swap 0 1 []).mem_iff

end PropertyGraph

end Retarget
