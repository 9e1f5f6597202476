/-
# Proofs.Ledger -- the edges of a graph, counted

The arena stores an edge at both ends, in the order of making.  What a graph means depends only on
how often each edge is there (`edgeCount`), so the edges of a state are given by a list that has
each as often as the arena, in any order (`Accounts`).  Adding nodes leaves the account alone,
adding edges appends to it, and removing nodes strikes what touches them.

`Adds` says what a longer construction does as a whole: the nodes it appends to the arena and the
edges it makes, whatever the order of its steps.
-/
import Retarget.Proofs.Arena
import Retarget.Proofs.Grouping

namespace Retarget

set_option autoImplicit false
set_option linter.dupNamespace false

/-- An edge with its source. -/
abbrev Arc := Slot × Slot × EdgeKind

/-- The node without its edges. -/
def GraphNode.bare (n : GraphNode) : GraphNode := { n with succs := [], preds := [] }

namespace PropertyGraph

variable {g h : PropertyGraph} {arcs : List Arc} {fresh : List GraphNode}

/-! ## Counting edges -/

/-- How often an edge is stored at its source. -/
def edgeCount (g : PropertyGraph) (e : Arc) : Nat := (g.succsOf e.1).count ⟨e.2.1, e.2.2⟩

/-- The list has every edge as often as the graph. -/
def Accounts (g : PropertyGraph) (arcs : List Arc) : Prop := ∀ e, g.edgeCount e = arcs.count e

theorem edgeCount_pos {e : Arc} : 0 < g.edgeCount e ↔ ⟨e.2.1, e.2.2⟩ ∈ g.succsOf e.1 :=
  List.count_pos_iff

theorem edgeCount_addNodes (bare : ∀ n ∈ fresh, n.succs = [] ∧ n.preds = []) (e : Arc) :
    (g.addNodes fresh).edgeCount e = g.edgeCount e := by
  rw [edgeCount, succsOf_addNodes bare, edgeCount]

theorem edgeCount_addEdge {a b : Slot} {kind : EdgeKind} (inside : a < g.nodes.size) (e : Arc) :
    (g.addEdge a b kind).edgeCount e = g.edgeCount e + [(a, b, kind)].count e := by
  obtain ⟨x, y, k⟩ := e
  simp only [edgeCount]
  rw [succsOf_addEdge inside, List.count_append]
  by_cases source : x = a
  · subst source
    simp [List.count_singleton]
  · simp [source, Ne.symm source]

theorem edgeCount_setTarget (a : Slot) (target : Option KernelId) (e : Arc) :
    (g.setTarget a target).edgeCount e = g.edgeCount e := by
  rw [edgeCount, succsOf_setTarget, edgeCount]

theorem edgeCount_without (sound : g.Sound) (slots : List Slot) (e : Arc) :
    (g.without slots).edgeCount e
      = if e.1 ∈ slots ∨ e.2.1 ∈ slots then 0 else g.edgeCount e := by
  rw [edgeCount, succsOf_without sound]
  by_cases source : e.1 ∈ slots
  · simp [source]
  · simp only [source, if_false, false_or, count_filter_other, edgeCount]

@[simp] theorem size_addEdge (a b : Slot) (kind : EdgeKind) :
    (g.addEdge a b kind).nodes.size = g.nodes.size := by
  simp [addEdge]

@[simp] theorem size_addNode (n : GraphNode) : (g.addNode n).1.nodes.size = g.nodes.size + 1 := by
  simp [addNode]

/-- Striking what touches the removed nodes keeps the account. -/
theorem Accounts.without (accounts : g.Accounts arcs) (sound : g.Sound) (slots : List Slot) :
    (g.without slots).Accounts (arcs.filter fun e => e.1 ∉ slots ∧ e.2.1 ∉ slots) := by
  intro e
  rw [edgeCount_without sound]
  split
  · rename_i touched
    refine (List.count_eq_zero.mpr fun member => ?_).symm
    have apart := (List.mem_filter.mp member).2
    simp only [decide_eq_true_eq] at apart
    exact touched.elim apart.1 apart.2
  · rename_i apart
    rw [List.count_filter, accounts e]
    simpa [not_or] using apart

theorem Accounts.perm {others : List Arc} (accounts : g.Accounts arcs) (same : arcs.Perm others) :
    g.Accounts others :=
  fun e => (accounts e).trans (same.count_eq e)

theorem Accounts.mem_iff (accounts : g.Accounts arcs) {e : Arc} :
    e ∈ arcs ↔ ⟨e.2.1, e.2.2⟩ ∈ g.succsOf e.1 := by
  rw [← edgeCount_pos, accounts e, List.count_pos_iff]

/-! ## Edges out of one node -/

/-- The edges of a list that leave a slot. -/
def outOf (arcs : List Arc) (s : Slot) : List Edge :=
  (arcs.filter (·.1 == s)).map fun e => ⟨e.2.1, e.2.2⟩

theorem outOf_append (arcs others : List Arc) (s : Slot) :
    outOf (arcs ++ others) s = outOf arcs s ++ outOf others s := by
  simp [outOf]

theorem outOf_flatMap {α : Type} (xs : List α) (f : α → List Arc) (s : Slot) :
    outOf (xs.flatMap f) s = xs.flatMap fun x => outOf (f x) s := by
  simp [outOf, List.filter_flatMap, List.map_flatMap]

theorem outOf_eq_nil {s : Slot} (absent : ∀ e ∈ arcs, e.1 ≠ s) : outOf arcs s = [] := by
  rw [outOf, List.map_eq_nil_iff, List.filter_eq_nil_iff]
  intro e member
  simpa using absent e member

theorem mem_outOf {s : Slot} {e : Edge} : e ∈ outOf arcs s ↔ (s, e.other, e.kind) ∈ arcs := by
  obtain ⟨other, kind⟩ := e
  simp only [outOf, List.mem_map, List.mem_filter, beq_iff_eq, Edge.mk.injEq]
  constructor
  · rintro ⟨⟨a, b, k⟩, ⟨member, rfl⟩, rfl, rfl⟩
    exact member
  · intro member
    exact ⟨_, ⟨member, rfl⟩, rfl, rfl⟩

theorem count_outOf (arcs : List Arc) (s : Slot) (e : Edge) :
    (outOf arcs s).count e = arcs.count (s, e.other, e.kind) := by
  induction arcs with
  | nil => rfl
  | cons a arcs ih =>
      have split : a :: arcs = [a] ++ arcs := rfl
      rw [split, outOf_append, List.count_append, List.count_append, ih]
      obtain ⟨x, y, k⟩ := a
      obtain ⟨other, kind⟩ := e
      by_cases source : x = s
      · subst source
        simp [outOf, List.count_singleton]
      · simp [outOf, source]

/-- The successors of a node are the edges of the account that leave it, in some order. -/
theorem Accounts.succsOf_perm (accounts : g.Accounts arcs) (s : Slot) :
    (g.succsOf s).Perm (outOf arcs s) := by
  rw [List.perm_iff_count]
  intro e
  rw [count_outOf, ← accounts (s, e.other, e.kind)]
  rfl

/-- Edges added to a graph come after those that were there. -/
theorem succsOf_addEdges (inside : ∀ e ∈ arcs, e.1 < g.nodes.size) (s : Slot) :
    (g.addEdges arcs).succsOf s = g.succsOf s ++ outOf arcs s := by
  induction arcs generalizing g with
  | nil => simp [addEdges, outOf]
  | cons e arcs ih =>
      obtain ⟨first, rest⟩ := List.forall_mem_cons.mp inside
      have later := ih (g := g.addEdge e.1 e.2.1 e.2.2) fun a member => by
        rw [size_addEdge]
        exact rest a member
      have split : e :: arcs = [e] ++ arcs := rfl
      rw [addEdges, List.foldl_cons]
      refine later.trans ?_
      rw [succsOf_addEdge first, split, outOf_append, List.append_assoc]
      by_cases source : e.1 = s
      · simp [outOf, source]
      · simp [outOf, source, Ne.symm source]

/-! ## Constructions -/

/-- `h` is `g` with nodes appended and edges made. -/
structure Adds (g h : PropertyGraph) (fresh : List GraphNode) (arcs : List Arc) : Prop where
  size : h.nodes.size = g.nodes.size + fresh.length
  nodes : ∀ s, (h.node? s).map GraphNode.bare = ((g.addNodes fresh).node? s).map GraphNode.bare
  edges : ∀ e, h.edgeCount e = g.edgeCount e + arcs.count e

namespace Adds

theorem addNodes (bare : ∀ n ∈ fresh, n.succs = [] ∧ n.preds = []) :
    g.Adds (g.addNodes fresh) fresh [] where
  size := by simp [PropertyGraph.addNodes]
  nodes _ := rfl
  edges e := edgeCount_addNodes bare e

theorem refl (g : PropertyGraph) : g.Adds g [] [] := by
  have none : g.addNodes [] = g := by simp [PropertyGraph.addNodes]
  have adds : g.Adds (g.addNodes []) [] [] := addNodes fun n member => absurd member List.not_mem_nil
  rwa [none] at adds

variable (adds : g.Adds h fresh arcs)

include adds

theorem addNode (n : GraphNode) (bare : n.succs = [] ∧ n.preds = []) :
    g.Adds (h.addNode n).1 (fresh ++ [n]) arcs where
  size := by
    rw [size_addNode, adds.size, List.length_append, List.length_singleton]
    omega
  nodes := by
    intro s
    have size := adds.size
    rw [node?_addNode]
    by_cases last : s = h.nodes.size
    · have place : s = g.nodes.size + fresh.length := last.trans size
      rw [if_pos last, place, node?_addNodes_new, ← size]
      simp
    · rw [if_neg last, adds.nodes]
      rcases Nat.lt_or_ge s g.nodes.size with old | new
      · rw [node?_addNodes_old old, node?_addNodes_old old]
      · obtain ⟨i, rfl⟩ := Nat.exists_eq_add_of_le new
        have short : i ≠ fresh.length := by
          rintro rfl
          exact last size.symm
        rw [node?_addNodes_new, node?_addNodes_new, List.getElem?_append]
        rcases Nat.lt_or_gt_of_ne short with inside | outside
        · rw [if_pos inside]
        · have absent : fresh[i]? = none := List.getElem?_eq_none (by omega)
          have none : [n][i - fresh.length]? = none :=
            List.getElem?_eq_none (by rw [List.length_singleton]; omega)
          rw [if_neg (Nat.lt_asymm outside), absent, none]
  edges e := by
    rw [addNode_eq_addNodes, edgeCount_addNodes, adds.edges e]
    intro m member
    obtain rfl := List.mem_singleton.mp member
    exact bare

theorem addEdge {a b : Slot} (kind : EdgeKind) (inside : a < g.nodes.size + fresh.length) :
    g.Adds (h.addEdge a b kind) fresh (arcs ++ [(a, b, kind)]) where
  size := by rw [size_addEdge, adds.size]
  nodes := by
    intro s
    rw [← adds.nodes s, node?_addEdge, Option.map_map]
    rfl
  edges e := by
    have room : a < h.nodes.size := by rw [adds.size]; exact inside
    rw [edgeCount_addEdge room, adds.edges, List.count_append]
    omega

theorem addEdges {more : List Arc} (inside : ∀ e ∈ more, e.1 < g.nodes.size + fresh.length) :
    g.Adds (h.addEdges more) fresh (arcs ++ more) := by
  induction more generalizing h arcs with
  | nil => simpa [PropertyGraph.addEdges] using adds
  | cons e more ih =>
      obtain ⟨first, rest⟩ := List.forall_mem_cons.mp inside
      have later := ih (adds.addEdge e.2.2 (b := e.2.1) first) rest
      rwa [List.append_assoc] at later

/-- Nodes that were there are there still. -/
theorem liveAs_old {s : Slot} {P : GraphNode → Prop} (alive : g.LiveAs s P) : h.LiveAs s P := by
  obtain ⟨n, here, present, shows⟩ := alive
  have there := adds.nodes s
  rw [node?_addNodes_old (lt_size_of_node? here), here] at there
  obtain ⟨m, now, same⟩ := Option.map_eq_some_iff.mp there
  have fixed : m.bare.fixed = n.bare.fixed := congrArg GraphNode.fixed same
  have kept : m.bare.removed = n.bare.removed := congrArg GraphNode.removed same
  exact ⟨m, now, kept.trans present, (show m.fixed = n.fixed from fixed) ▸ shows⟩

/-- Each appended node is where its turn put it. -/
theorem liveAs_new {i : Nat} {n : GraphNode} {P : GraphNode → Prop} (listed : fresh[i]? = some n)
    (present : n.removed = false) (shows : P ({ n with id := g.nodes.size + i }).fixed) :
    h.LiveAs (g.nodes.size + i) P := by
  have there := adds.nodes (g.nodes.size + i)
  rw [node?_addNodes_new, listed] at there
  obtain ⟨m, here, same⟩ := Option.map_eq_some_iff.mp there
  have fixed : m.bare.fixed = ({ n with id := g.nodes.size + i }).bare.fixed :=
    congrArg GraphNode.fixed same
  have kept : m.bare.removed = ({ n with id := g.nodes.size + i }).bare.removed :=
    congrArg GraphNode.removed same
  exact ⟨m, here, kept.trans present, (show m.fixed = _ from fixed) ▸ shows⟩

/-- A live node is an old one or one of those appended. -/
theorem live_cases {s : Slot} (alive : h.Live s) :
    g.Live s ∨ ∃ i < fresh.length, s = g.nodes.size + i := by
  rcases Nat.lt_or_ge s g.nodes.size with old | new
  · obtain ⟨m, here, present⟩ := alive
    have there := adds.nodes s
    rw [node?_addNodes_old old, here] at there
    obtain ⟨n, was, same⟩ := Option.map_eq_some_iff.mp there.symm
    have kept : n.bare.removed = m.bare.removed := congrArg GraphNode.removed same
    exact Or.inl ⟨n, was, kept.trans present⟩
  · obtain ⟨i, rfl⟩ := Nat.exists_eq_add_of_le new
    have inside := alive.lt_size
    rw [adds.size] at inside
    exact Or.inr ⟨i, Nat.lt_of_add_lt_add_left inside, rfl⟩

theorem accounts {others : List Arc} (accounts : g.Accounts others) :
    h.Accounts (others ++ arcs) := by
  intro e
  rw [adds.edges, accounts e, List.count_append]

end Adds

end PropertyGraph

end Retarget
