/-
# Proofs.Arena -- nodes, edges and slots of the graph

The arena changes in four ways: nodes are added, an edge is added, the target of a call is noted,
and nodes are removed. Each has its equation for the node at every slot (`node?_addNode` and
`node?_addNodes_new`, `node?_addEdge`, `node?_setTarget`, `removeNodes_eq`), and nothing after
this module looks into the array again.

Removal strips only the neighbours it meets along the edges of the removed node. That this leaves
no edge to the node anywhere rests on the two copies of every edge being in step
(`Sound.mirrored`); then removing nodes is the same as filtering every node of the arena
(`GraphNode.without`).

What later states keep of earlier ones is said node by node: `GraphNode.Ages` for any state that
follows, `GraphNode.Grows` while nothing is removed.
-/
import Retarget.PropertyGraph.Build

namespace Retarget

open Retarget.Source (NodeId)

set_option autoImplicit false

/-! ## Single nodes -/

namespace GraphNode

/-- What never changes about a node. -/
def fixed (n : GraphNode) : GraphNode :=
  { n with target := none, succs := [], preds := [], removed := false }

/-- The edges that come back from a callee. -/
def returnsIn (n : GraphNode) : List Edge := n.preds.filter (·.kind == .ret)

/-- The node after the given slots have been emptied. -/
def without (slots : List Slot) (n : GraphNode) : GraphNode :=
  if n.id ∈ slots then { n with succs := [], preds := [], removed := true }
  else
    { n with
      succs := n.succs.filter (·.other ∉ slots)
      preds := n.preds.filter (·.other ∉ slots) }

/-- A later form of a node: it is the same node, and once removed it stays so. -/
structure Ages (n m : GraphNode) : Prop where
  fixed : m.fixed = n.fixed
  removed : n.removed = true → m.removed = true

/-- A later form of a node that has only gained edges, none of them from an exit. -/
structure Grows (n m : GraphNode) : Prop where
  fixed : m.fixed = n.fixed
  removed : m.removed = n.removed
  succs : n.succs ⊆ m.succs
  returnsIn : m.returnsIn = n.returnsIn

theorem Ages.refl (n : GraphNode) : n.Ages n := ⟨rfl, fun gone => gone⟩

theorem Ages.trans {n m l : GraphNode} (first : n.Ages m) (second : m.Ages l) : n.Ages l :=
  ⟨second.fixed.trans first.fixed, fun gone => second.removed (first.removed gone)⟩

theorem Grows.refl (n : GraphNode) : n.Grows n := ⟨rfl, rfl, List.Subset.refl _, rfl⟩

theorem Grows.trans {n m l : GraphNode} (first : n.Grows m) (second : m.Grows l) : n.Grows l where
  fixed := second.fixed.trans first.fixed
  removed := second.removed.trans first.removed
  succs := fun _ member => second.succs (first.succs member)
  returnsIn := second.returnsIn.trans first.returnsIn

theorem Grows.ages {n m : GraphNode} (grows : n.Grows m) : n.Ages m :=
  ⟨grows.fixed, fun gone => grows.removed.trans gone⟩

@[simp] theorem fixed_without (slots : List Slot) (n : GraphNode) :
    (n.without slots).fixed = n.fixed := by
  unfold without
  split <;> rfl

theorem without_ages (slots : List Slot) (n : GraphNode) : n.Ages (n.without slots) := by
  refine ⟨fixed_without slots n, fun gone => ?_⟩
  unfold without
  split
  · rfl
  · exact gone

@[simp] theorem without_nil (n : GraphNode) : n.without [] = n := by
  have all (edges : List Edge) : edges.filter (·.other ∉ ([] : List Slot)) = edges := by simp
  rw [without, if_neg List.not_mem_nil, all, all]

theorem without_cons (s : Slot) (slots : List Slot) (n : GraphNode) :
    (n.without [s]).without slots = n.without (s :: slots) := by
  by_cases first : n.id = s
  · simp [without, first]
  · by_cases later : n.id ∈ slots <;>
      simp [without, first, later, List.filter_filter, Bool.and_comm]

end GraphNode

namespace PropertyGraph

/-! ## What is read off a slot -/

section Slots

variable (g : PropertyGraph)

/-- The edges on one side of a node; an empty slot has none. -/
def edgesAt (side : GraphNode → List Edge) (s : Slot) : List Edge := ((g.node? s).map side).getD []

def succsOf (s : Slot) : List Edge := g.edgesAt (·.succs) s

def predsOf (s : Slot) : List Edge := g.edgesAt (·.preds) s

/-- The slot holds a node that has not been removed and is as described. -/
def LiveAs (s : Slot) (P : GraphNode → Prop) : Prop :=
  ∃ n, g.node? s = some n ∧ n.removed = false ∧ P n.fixed

/-- The slot holds a node that has not been removed. -/
def Live (s : Slot) : Prop := ∃ n, g.node? s = some n ∧ n.removed = false

end Slots

variable {g h : PropertyGraph}

theorem edgesAt_eq {side : GraphNode → List Edge} {s : Slot} {n : GraphNode}
    (here : g.node? s = some n) : g.edgesAt side s = side n := by
  rw [edgesAt, here, Option.map_some, Option.getD_some]

theorem succsOf_eq {s : Slot} {n : GraphNode} (here : g.node? s = some n) :
    g.succsOf s = n.succs :=
  edgesAt_eq here

theorem predsOf_eq {s : Slot} {n : GraphNode} (here : g.node? s = some n) :
    g.predsOf s = n.preds :=
  edgesAt_eq here

/-- A change of the node that changes one side of it in a known way. -/
theorem edgesAt_of_map {side : GraphNode → List Edge} {s : Slot} {change : GraphNode → GraphNode}
    (effect : List Edge → List Edge) (step : h.node? s = (g.node? s).map change)
    (reads : ∀ n, g.node? s = some n → side (change n) = effect (side n))
    (empty : g.node? s = none → effect [] = []) :
    h.edgesAt side s = effect (g.edgesAt side s) := by
  cases here : g.node? s with
  | none => simp [edgesAt, step, here, empty here]
  | some n => simpa [edgesAt, step, here] using reads n here

theorem LiveAs.live {s : Slot} {P : GraphNode → Prop} (alive : g.LiveAs s P) : g.Live s := by
  obtain ⟨n, here, kept, -⟩ := alive
  exact ⟨n, here, kept⟩

theorem LiveAs.imp {s : Slot} {P Q : GraphNode → Prop} (alive : g.LiveAs s P)
    (weaker : ∀ n, P n → Q n) : g.LiveAs s Q := by
  obtain ⟨n, here, kept, shows⟩ := alive
  exact ⟨n, here, kept, weaker n.fixed shows⟩

/-- Two descriptions of one slot are of one node. -/
theorem LiveAs.and {s : Slot} {P Q : GraphNode → Prop} (one : g.LiveAs s P) (two : g.LiveAs s Q) :
    g.LiveAs s fun n => P n ∧ Q n := by
  obtain ⟨n, here, kept, shows⟩ := one
  obtain ⟨m, there, -, showsToo⟩ := two
  obtain rfl : n = m := Option.some.inj (here.symm.trans there)
  exact ⟨n, here, kept, shows, showsToo⟩

theorem lt_size_of_node? {s : Slot} {n : GraphNode} (here : g.node? s = some n) :
    s < g.nodes.size :=
  (Array.getElem?_eq_some_iff.mp here).1

theorem Live.lt_size {s : Slot} (alive : g.Live s) : s < g.nodes.size := by
  obtain ⟨n, here, -⟩ := alive
  exact lt_size_of_node? here

/-! ## One equation for each change -/

theorem node?_addNode (n : GraphNode) (s : Slot) :
    (g.addNode n).1.node? s
      = if s = g.nodes.size then some { n with id := g.nodes.size } else g.node? s := by
  simp [addNode, node?, Array.getElem?_push]

/-- The added node stands at the end of the arena. -/
theorem liveAs_addNode {n : GraphNode} {P : GraphNode → Prop} (present : n.removed = false)
    (shows : P ({ n with id := g.nodes.size }).fixed) :
    (g.addNode n).1.LiveAs g.nodes.size P := by
  have there := node?_addNode (g := g) n g.nodes.size
  rw [if_pos rfl] at there
  exact ⟨_, there, present, shows⟩

theorem node?_addEdge (a b : Slot) (kind : EdgeKind) (s : Slot) :
    (g.addEdge a b kind).node? s = (g.node? s).map fun n =>
      { n with
        succs := if s = a then n.succs ++ [⟨b, kind⟩] else n.succs
        preds := if s = b then n.preds ++ [⟨a, kind⟩] else n.preds } := by
  simp only [addEdge, node?, Array.getElem?_modify, eq_comm (b := s)]
  cases g.nodes[s]? with
  | none => simp
  | some n => split <;> split <;> rfl

theorem node?_setTarget (a : Slot) (target : Option KernelId) (s : Slot) :
    (g.setTarget a target).node? s
      = (g.node? s).map fun n => if s = a then { n with target := target } else n := by
  simp only [setTarget, node?, Array.getElem?_modify, eq_comm (b := s)]
  cases g.nodes[s]? with
  | none => simp
  | some n => by_cases here : s = a <;> simp [here]

/-- Visiting the neighbours along a list of edges changes each of them once. -/
theorem getElem?_foldl_modify (edges : List Edge) (change : GraphNode → GraphNode)
    (idempotent : ∀ n, change (change n) = change n) (nodes : Array GraphNode) (s : Slot) :
    (edges.foldl (fun nodes e => nodes.modify e.other change) nodes)[s]?
      = if ∃ e ∈ edges, e.other = s then nodes[s]?.map change else nodes[s]? := by
  induction edges generalizing nodes with
  | nil => simp
  | cons e edges ih =>
      rw [List.foldl_cons, ih, Array.getElem?_modify]
      by_cases first : e.other = s
      · by_cases later : ∃ f ∈ edges, f.other = s <;> cases nodes[s]? <;>
          simp [first, later, idempotent]
      · simp [first]

/-! ## States that follow one another -/

/-- Every slot keeps its node, and the analyses their cap. -/
structure Persists (g h : PropertyGraph) : Prop where
  cap : h.cap = g.cap
  nodes : ∀ s n, g.node? s = some n → ∃ m, h.node? s = some m ∧ n.Ages m

/-- Nodes and edges have been added to `g`, no edge from an exit to a node of `g` among them. The
tables are the same but for the records of calls. -/
structure Extends (g h : PropertyGraph) : Prop where
  frame : h = { g with nodes := h.nodes, calls := h.calls }
  nodes : ∀ s n, g.node? s = some n → ∃ m, h.node? s = some m ∧ n.Grows m

theorem Persists.refl (g : PropertyGraph) : g.Persists g :=
  ⟨rfl, fun _ n here => ⟨n, here, .refl n⟩⟩

theorem Persists.trans {k : PropertyGraph} (first : g.Persists h) (second : h.Persists k) :
    g.Persists k where
  cap := second.cap.trans first.cap
  nodes := by
    intro s n here
    obtain ⟨m, there, ages⟩ := first.nodes s n here
    obtain ⟨l, last, agesToo⟩ := second.nodes s m there
    exact ⟨l, last, ages.trans agesToo⟩

theorem Extends.refl (g : PropertyGraph) : g.Extends g :=
  ⟨rfl, fun _ n here => ⟨n, here, .refl n⟩⟩

theorem Extends.trans {k : PropertyGraph} (first : g.Extends h) (second : h.Extends k) :
    g.Extends k where
  frame := by
    rw [second.frame, first.frame]
  nodes := by
    intro s n here
    obtain ⟨m, there, grows⟩ := first.nodes s n here
    obtain ⟨l, last, growsToo⟩ := second.nodes s m there
    exact ⟨l, last, grows.trans growsToo⟩

namespace Extends

variable (ext : g.Extends h)

include ext

theorem cap : h.cap = g.cap := by rw [ext.frame]

theorem built : h.built = g.built := by rw [ext.frame]

theorem index : h.index = g.index := by rw [ext.frame]

theorem aliases : h.aliases = g.aliases := by rw [ext.frame]

theorem persists : g.Persists h where
  cap := ext.cap
  nodes := by
    intro s n here
    obtain ⟨m, there, grows⟩ := ext.nodes s n here
    exact ⟨m, there, grows.ages⟩

theorem liveAs {s : Slot} {P : GraphNode → Prop} (alive : g.LiveAs s P) : h.LiveAs s P := by
  obtain ⟨n, here, kept, shows⟩ := alive
  obtain ⟨m, there, grows⟩ := ext.nodes s n here
  exact ⟨m, there, grows.removed.trans kept, grows.fixed ▸ shows⟩

theorem live {s : Slot} (alive : g.Live s) : h.Live s := by
  obtain ⟨n, here, kept⟩ := alive
  obtain ⟨m, there, grows⟩ := ext.nodes s n here
  exact ⟨m, there, grows.removed.trans kept⟩

theorem size_le : g.nodes.size ≤ h.nodes.size := by
  apply Nat.le_of_not_lt
  intro shorter
  have here : g.node? h.nodes.size = some g.nodes[h.nodes.size] := by simp [node?, shorter]
  obtain ⟨m, there, -⟩ := ext.nodes h.nodes.size _ here
  exact Nat.lt_irrefl _ (lt_size_of_node? there)

theorem succsOf_subset (s : Slot) : g.succsOf s ⊆ h.succsOf s := by
  cases here : g.node? s with
  | none => simp [succsOf, edgesAt, here]
  | some n =>
      obtain ⟨m, there, grows⟩ := ext.nodes s n here
      rw [succsOf_eq here, succsOf_eq there]
      exact grows.succs

theorem returnsIn_eq {s : Slot} (inside : s < g.nodes.size) :
    (h.predsOf s).filter (·.kind == .ret) = (g.predsOf s).filter (·.kind == .ret) := by
  have here : g.node? s = some g.nodes[s] := by simp [node?, inside]
  obtain ⟨m, there, grows⟩ := ext.nodes s _ here
  rw [predsOf_eq here, predsOf_eq there]
  exact grows.returnsIn

theorem addNode (n : GraphNode) : g.Extends (h.addNode n).1 := by
  refine ext.trans ⟨rfl, fun s m here => ⟨m, ?_, .refl m⟩⟩
  rw [node?_addNode, if_neg (Nat.ne_of_lt (lt_size_of_node? here)), here]

/-- An edge may be added anywhere, and one from an exit to a node that is new. -/
theorem addEdge (a b : Slot) (kind : EdgeKind) (fresh : kind = .ret → g.nodes.size ≤ b) :
    g.Extends (h.addEdge a b kind) where
  frame := by
    rw [ext.frame]
    rfl
  nodes := by
    intro s n here
    obtain ⟨m, there, grows⟩ := ext.nodes s n here
    have after := node?_addEdge (g := h) a b kind s
    rw [there, Option.map_some] at after
    refine ⟨_, after, grows.fixed, grows.removed, ?_, ?_⟩
    · intro e member
      have kept : e ∈ m.succs := grows.succs member
      by_cases source : s = a <;> simp [source, kept]
    · rw [← grows.returnsIn]
      by_cases target : s = b
      · have other : kind ≠ .ret := by
          intro ret
          have inside : b < g.nodes.size := target ▸ lt_size_of_node? here
          exact Nat.not_le_of_lt inside (fresh ret)
        simp [GraphNode.returnsIn, target, other]
      · simp [GraphNode.returnsIn, target]

theorem setTarget (a : Slot) (target : Option KernelId) : g.Extends (h.setTarget a target) where
  frame := by
    rw [ext.frame]
    rfl
  nodes := by
    intro s n here
    obtain ⟨m, there, grows⟩ := ext.nodes s n here
    have after := node?_setTarget (g := h) a target s
    rw [there, Option.map_some] at after
    refine ⟨_, after, ?_⟩
    split
    · exact ⟨grows.fixed, grows.removed, grows.succs, grows.returnsIn⟩
    · exact grows

end Extends

/-! ## Edges in step -/

/-- The arena is in order: slots number their nodes, both copies of every edge are in step,
removed nodes have none, and only exits return. -/
structure Sound (g : PropertyGraph) : Prop where
  numbered : ∀ s n, g.node? s = some n → n.id = s
  mirrored : ∀ a b kind, (g.succsOf a).count ⟨b, kind⟩ = (g.predsOf b).count ⟨a, kind⟩
  cleared : ∀ s n, g.node? s = some n → n.removed = true → n.succs = [] ∧ n.preds = []
  returns : ∀ a b, ⟨b, .ret⟩ ∈ g.succsOf a → g.LiveAs a (·.kind = .exit)

namespace Sound

variable (sound : g.Sound)

include sound

theorem mem_preds_iff {a b : Slot} {kind : EdgeKind} :
    ⟨a, kind⟩ ∈ g.predsOf b ↔ ⟨b, kind⟩ ∈ g.succsOf a := by
  rw [← List.count_pos_iff, ← List.count_pos_iff, sound.mirrored]

/-- A side that removed nodes have empty belongs to live nodes alone. -/
theorem live_of_mem_edgesAt {side : GraphNode → List Edge}
    (bare : ∀ n : GraphNode, n.succs = [] ∧ n.preds = [] → side n = []) {s : Slot} {e : Edge}
    (member : e ∈ g.edgesAt side s) : g.Live s := by
  cases here : g.node? s with
  | none => simp [edgesAt, here] at member
  | some n =>
      refine ⟨n, here, Bool.eq_false_iff.mpr fun gone => ?_⟩
      rw [edgesAt_eq here, bare n (sound.cleared s n here gone)] at member
      exact List.not_mem_nil member

theorem live_of_mem_succs {a : Slot} {e : Edge} (member : e ∈ g.succsOf a) : g.Live a :=
  sound.live_of_mem_edgesAt (fun _ bare => bare.1) member

theorem live_of_mem_preds {b : Slot} {e : Edge} (member : e ∈ g.predsOf b) : g.Live b :=
  sound.live_of_mem_edgesAt (fun _ bare => bare.2) member

/-- An edge leads to a live node. -/
theorem live_other_of_mem_succs {a : Slot} {e : Edge} (member : e ∈ g.succsOf a) :
    g.Live e.other :=
  sound.live_of_mem_preds (sound.mem_preds_iff.mpr member)

theorem live_other_of_mem_preds {b : Slot} {e : Edge} (member : e ∈ g.predsOf b) :
    g.Live e.other :=
  sound.live_of_mem_succs (sound.mem_preds_iff.mp member)

end Sound

theorem succsOf_setTarget (a : Slot) (target : Option KernelId) (s : Slot) :
    (g.setTarget a target).succsOf s = g.succsOf s :=
  edgesAt_of_map id (node?_setTarget a target s) (fun _ _ => by split <;> rfl)
    fun _ => rfl

theorem predsOf_setTarget (a : Slot) (target : Option KernelId) (s : Slot) :
    (g.setTarget a target).predsOf s = g.predsOf s :=
  edgesAt_of_map id (node?_setTarget a target s) (fun _ _ => by split <;> rfl)
    fun _ => rfl

theorem Sound.setTarget (sound : g.Sound) (a : Slot) (target : Option KernelId) :
    (g.setTarget a target).Sound where
  numbered := by
    intro s m there
    rw [node?_setTarget, Option.map_eq_some_iff] at there
    obtain ⟨n, here, rfl⟩ := there
    split <;> exact sound.numbered s n here
  mirrored := by
    intro x y kind
    rw [succsOf_setTarget, predsOf_setTarget]
    exact sound.mirrored x y kind
  cleared := by
    intro s m there gone
    rw [node?_setTarget, Option.map_eq_some_iff] at there
    obtain ⟨n, here, rfl⟩ := there
    split at gone <;> split <;> exact sound.cleared s n here gone
  returns := by
    intro x y member
    rw [succsOf_setTarget] at member
    exact ((Extends.refl g).setTarget a target).liveAs (sound.returns x y member)

/-! ### Nodes added -/

section AddNodes

variable {fresh : List GraphNode}

theorem addNode_eq_addNodes (n : GraphNode) : (g.addNode n).1 = g.addNodes [n] := by
  simp [addNode, addNodes]

theorem node?_addNodes_old {s : Slot} (inside : s < g.nodes.size) :
    (g.addNodes fresh).node? s = g.node? s := by
  simp [addNodes, node?, Array.getElem?_append_left inside]

theorem node?_addNodes_new (i : Nat) :
    (g.addNodes fresh).node? (g.nodes.size + i)
      = fresh[i]?.map fun n => { n with id := g.nodes.size + i } := by
  simp [addNodes, node?, Array.getElem?_append_right, List.getElem?_zipIdx, Function.comp_def]

theorem liveAs_addNodes {i : Nat} {n : GraphNode} {P : GraphNode → Prop}
    (here : fresh[i]? = some n) (present : n.removed = false)
    (shows : P ({ n with id := g.nodes.size + i }).fixed) :
    (g.addNodes fresh).LiveAs (g.nodes.size + i) P := by
  have there : (g.addNodes fresh).node? (g.nodes.size + i)
      = some { n with id := g.nodes.size + i } := by
    rw [node?_addNodes_new, here, Option.map_some]
  exact ⟨_, there, present, shows⟩

theorem Extends.addNodes (g : PropertyGraph) (fresh : List GraphNode) :
    g.Extends (g.addNodes fresh) :=
  ⟨rfl, fun _ n here => ⟨n, (node?_addNodes_old (lt_size_of_node? here)).trans here, .refl n⟩⟩

/-- A node of the longer arena is an old one or a new one. -/
theorem node?_addNodes_cases {s : Slot} {n : GraphNode}
    (there : (g.addNodes fresh).node? s = some n) :
    g.node? s = some n ∨ ∃ m ∈ fresh, { m with id := s } = n := by
  rcases Nat.lt_or_ge s g.nodes.size with inside | outside
  · exact Or.inl (node?_addNodes_old inside ▸ there)
  · obtain ⟨i, rfl⟩ := Nat.exists_eq_add_of_le outside
    rw [node?_addNodes_new, Option.map_eq_some_iff] at there
    obtain ⟨m, here, rfl⟩ := there
    exact Or.inr ⟨m, List.mem_of_getElem? here, rfl⟩

theorem edgesAt_addNodes {side : GraphNode → List Edge}
    (reads : ∀ n i, side { n with id := i } = side n) (bare : ∀ n ∈ fresh, side n = []) (s : Slot) :
    (g.addNodes fresh).edgesAt side s = g.edgesAt side s := by
  rcases Nat.lt_or_ge s g.nodes.size with inside | outside
  · rw [edgesAt, edgesAt, node?_addNodes_old inside]
  · obtain ⟨i, rfl⟩ := Nat.exists_eq_add_of_le outside
    have absent : g.node? (g.nodes.size + i) = none := by simp [node?]
    rw [edgesAt, edgesAt, node?_addNodes_new, absent]
    cases here : fresh[i]? with
    | none => rfl
    | some n => simpa [reads] using bare n (List.mem_of_getElem? here)

theorem succsOf_addNodes (bare : ∀ n ∈ fresh, n.succs = [] ∧ n.preds = []) (s : Slot) :
    (g.addNodes fresh).succsOf s = g.succsOf s :=
  edgesAt_addNodes (fun _ _ => rfl) (fun n member => (bare n member).1) s

theorem predsOf_addNodes (bare : ∀ n ∈ fresh, n.succs = [] ∧ n.preds = []) (s : Slot) :
    (g.addNodes fresh).predsOf s = g.predsOf s :=
  edgesAt_addNodes (fun _ _ => rfl) (fun n member => (bare n member).2) s

theorem Sound.addNodes (sound : g.Sound) (bare : ∀ n ∈ fresh, n.succs = [] ∧ n.preds = []) :
    (g.addNodes fresh).Sound where
  numbered := by
    intro s n there
    rcases node?_addNodes_cases there with here | ⟨m, -, rfl⟩
    · exact sound.numbered s n here
    · rfl
  mirrored := by
    intro a b kind
    rw [succsOf_addNodes bare, predsOf_addNodes bare]
    exact sound.mirrored a b kind
  cleared := by
    intro s n there gone
    rcases node?_addNodes_cases there with here | ⟨m, member, rfl⟩
    · exact sound.cleared s n here gone
    · exact bare m member
  returns := by
    intro a b member
    rw [succsOf_addNodes bare] at member
    exact (Extends.addNodes g fresh).liveAs (sound.returns a b member)

end AddNodes

/-! ### Edges added -/

section AddEdge

variable {a b s : Slot} {kind : EdgeKind}

theorem ne_of_absent (absent : g.node? s = none) (inside : a < g.nodes.size) : s ≠ a := by
  rintro rfl
  simp [node?, inside] at absent

theorem succsOf_addEdge (inside : a < g.nodes.size) (s : Slot) :
    (g.addEdge a b kind).succsOf s = g.succsOf s ++ if s = a then [⟨b, kind⟩] else [] := by
  refine edgesAt_of_map (fun edges : List Edge => edges ++ if s = a then [⟨b, kind⟩] else [])
    (node?_addEdge a b kind s) ?_ ?_
  · intro n _
    by_cases source : s = a <;> simp [source]
  · intro absent
    rw [if_neg (ne_of_absent absent inside), List.append_nil]

theorem predsOf_addEdge (inside : b < g.nodes.size) (s : Slot) :
    (g.addEdge a b kind).predsOf s = g.predsOf s ++ if s = b then [⟨a, kind⟩] else [] := by
  refine edgesAt_of_map (fun edges : List Edge => edges ++ if s = b then [⟨a, kind⟩] else [])
    (node?_addEdge a b kind s) ?_ ?_
  · intro n _
    by_cases target : s = b <;> simp [target]
  · intro absent
    rw [if_neg (ne_of_absent absent inside), List.append_nil]

theorem LiveAs.addEdge {P : GraphNode → Prop} (alive : g.LiveAs s P) :
    (g.addEdge a b kind).LiveAs s P := by
  obtain ⟨n, here, kept, shows⟩ := alive
  have after := node?_addEdge (g := g) a b kind s
  rw [here, Option.map_some] at after
  exact ⟨_, after, kept, shows⟩

theorem Sound.addEdge (sound : g.Sound) (source : g.Live a) (target : g.Live b)
    (fromExit : kind = .ret → g.LiveAs a (·.kind = .exit)) : (g.addEdge a b kind).Sound where
  numbered := by
    intro s m there
    rw [node?_addEdge, Option.map_eq_some_iff] at there
    obtain ⟨n, here, rfl⟩ := there
    exact sound.numbered s n here
  mirrored := by
    intro x y k
    rw [succsOf_addEdge source.lt_size, predsOf_addEdge target.lt_size, List.count_append,
      List.count_append, sound.mirrored]
    by_cases start : x = a <;> by_cases stop : y = b <;>
      simp [start, stop, List.count_singleton, Ne.symm]
  cleared := by
    intro s m there gone
    rw [node?_addEdge, Option.map_eq_some_iff] at there
    obtain ⟨n, here, rfl⟩ := there
    have apart {t : Slot} (alive : g.Live t) : s ≠ t := by
      rintro rfl
      obtain ⟨l, same, kept⟩ := alive
      obtain rfl : n = l := Option.some.inj (here.symm.trans same)
      exact Bool.false_ne_true (kept.symm.trans gone)
    simpa [apart source, apart target] using sound.cleared s n here gone
  returns := by
    intro x y member
    rw [succsOf_addEdge source.lt_size, List.mem_append] at member
    rcases member with old | new
    · exact (sound.returns x y old).addEdge
    · by_cases start : x = a
      · subst start
        have ret : y = b ∧ .ret = kind := by simpa using new
        exact (fromExit ret.2.symm).addEdge
      · simp [start] at new

end AddEdge

theorem calls_addEdges (edges : List (Slot × Slot × EdgeKind)) :
    (g.addEdges edges).calls = g.calls := by
  induction edges generalizing g with
  | nil => rfl
  | cons e edges ih => exact ih

/-! ### Nodes removed -/

section Remove

variable {s t : Slot}

theorem dropEdges_eq_filter (edges : List Edge) (s : Slot) :
    dropEdges edges s = edges.filter (·.other ∉ [s]) := by
  simp [dropEdges, bne, Bool.beq_eq_decide_eq]

theorem dropEdges_eq_self {edges : List Edge} (absent : ∀ e ∈ edges, e.other ≠ s) :
    dropEdges edges s = edges :=
  List.filter_eq_self.mpr fun e member => by simpa using absent e member

theorem dropEdges_dropEdges (edges : List Edge) (s : Slot) :
    dropEdges (dropEdges edges s) s = dropEdges edges s := by
  simp [dropEdges, List.filter_filter]

/-- Removal strips the neighbours it meets along the edges of the node. -/
theorem node?_removeNode_met {n : GraphNode} (here : g.node? s = some n) (t : Slot) :
    (g.removeNode s).node? t = (g.node? t).map fun m =>
      if s = t then { m with succs := [], preds := [], removed := true }
      else
        { m with
          preds := if ∃ e ∈ n.succs, e.other = t then dropEdges m.preds s else m.preds
          succs := if ∃ e ∈ n.preds, e.other = t then dropEdges m.succs s else m.succs } := by
  simp only [removeNode, here]
  simp only [node?, Array.getElem?_modify]
  rw [getElem?_foldl_modify _ _ (by simp [dropEdges_dropEdges]),
    getElem?_foldl_modify _ _ (by simp [dropEdges_dropEdges])]
  cases g.nodes[t]? with
  | none => simp
  | some m => split <;> split <;> split <;> rfl

/-- A node that the removed one has no edge to has none from it. -/
theorem Sound.dropEdges_preds (sound : g.Sound) {m : GraphNode} (here : g.node? t = some m)
    (absent : ¬∃ e ∈ g.succsOf s, e.other = t) : dropEdges m.preds s = m.preds := by
  apply dropEdges_eq_self
  rintro ⟨a, kind⟩ member rfl
  rw [← predsOf_eq here, sound.mem_preds_iff] at member
  exact absent ⟨_, member, rfl⟩

theorem Sound.dropEdges_succs (sound : g.Sound) {m : GraphNode} (here : g.node? t = some m)
    (absent : ¬∃ e ∈ g.predsOf s, e.other = t) : dropEdges m.succs s = m.succs := by
  apply dropEdges_eq_self
  rintro ⟨b, kind⟩ member rfl
  rw [← succsOf_eq here, ← sound.mem_preds_iff] at member
  exact absent ⟨_, member, rfl⟩

theorem without_singleton {n : GraphNode} (other : s ≠ n.id) :
    n.without [s] = { n with succs := dropEdges n.succs s, preds := dropEdges n.preds s } := by
  rw [GraphNode.without, if_neg (by simpa using Ne.symm other), dropEdges_eq_filter,
    dropEdges_eq_filter]

theorem node?_removeNode (sound : g.Sound) (s t : Slot) :
    (g.removeNode s).node? t = (g.node? t).map (·.without [s]) := by
  cases atT : g.node? t with
  | none =>
      cases atS : g.node? s with
      | none => simp [removeNode, atS, atT]
      | some n => rw [node?_removeNode_met atS, atT, Option.map_none, Option.map_none]
  | some m =>
      have id : m.id = t := sound.numbered t m atT
      have kept := sound.dropEdges_preds (s := s) atT
      have keptToo := sound.dropEdges_succs (s := s) atT
      cases atS : g.node? s with
      | none =>
          have other : s ≠ m.id := by
            rintro rfl
            rw [id, atT] at atS
            cases atS
          rw [removeNode, atS, atT, Option.map_some, without_singleton other,
            kept (by simp [succsOf, edgesAt, atS]), keptToo (by simp [predsOf, edgesAt, atS])]
      | some n =>
          rw [succsOf_eq atS] at kept
          rw [predsOf_eq atS] at keptToo
          rw [node?_removeNode_met atS, atT, Option.map_some, Option.map_some]
          by_cases same : s = t
          · simp [same, GraphNode.without, id]
          · -- a neighbour that is not met has no edge to strip
            rw [if_neg same, without_singleton (id ▸ same)]
            congr 2
            · split
              · rfl
              · exact (keptToo ‹_›).symm
            · split
              · rfl
              · exact (kept ‹_›).symm

/-- The graph after the given slots have been emptied. -/
def without (g : PropertyGraph) (slots : List Slot) : PropertyGraph :=
  { g with nodes := g.nodes.map (·.without slots) }

theorem node?_without (slots : List Slot) (t : Slot) :
    (g.without slots).node? t = (g.node? t).map (·.without slots) := by
  simp [without, node?]

theorem frame_removeNode (s : Slot) :
    g.removeNode s = { g with nodes := (g.removeNode s).nodes } := by
  unfold removeNode
  split <;> rfl

theorem removeNode_eq (sound : g.Sound) (s : Slot) : g.removeNode s = g.without [s] := by
  rw [frame_removeNode, without]
  congr 1
  apply Array.ext_getElem?
  intro t
  have step := node?_removeNode sound s t
  rw [← node?_without] at step
  exact step

section Without

variable {slots : List Slot}

/-- What is left of the edges on one side of the node at `s`. -/
theorem edgesAt_without {side : GraphNode → List Edge} (sound : g.Sound)
    (reads : ∀ n : GraphNode, side (n.without slots)
      = if n.id ∈ slots then [] else (side n).filter (·.other ∉ slots)) (s : Slot) :
    (g.without slots).edgesAt side s
      = if s ∈ slots then [] else (g.edgesAt side s).filter (·.other ∉ slots) :=
  edgesAt_of_map (fun edges => if s ∈ slots then [] else edges.filter (·.other ∉ slots))
    (node?_without slots s) (fun n here => by rw [reads, sound.numbered s n here]) fun _ => by simp

theorem succsOf_without (sound : g.Sound) (s : Slot) :
    (g.without slots).succsOf s
      = if s ∈ slots then [] else (g.succsOf s).filter (·.other ∉ slots) :=
  edgesAt_without sound (fun n => by unfold GraphNode.without; split <;> rfl) s

theorem predsOf_without (sound : g.Sound) (s : Slot) :
    (g.without slots).predsOf s
      = if s ∈ slots then [] else (g.predsOf s).filter (·.other ∉ slots) :=
  edgesAt_without sound (fun n => by unfold GraphNode.without; split <;> rfl) s

theorem LiveAs.without {P : GraphNode → Prop} (alive : g.LiveAs s P) (sound : g.Sound)
    (kept : s ∉ slots) : (g.without slots).LiveAs s P := by
  obtain ⟨n, here, present, shows⟩ := alive
  have id : n.id = s := sound.numbered s n here
  refine ⟨n.without slots, by rw [node?_without, here, Option.map_some], ?_, ?_⟩
  · rw [GraphNode.without, if_neg (id ▸ kept)]
    exact present
  · rw [GraphNode.fixed_without]
    exact shows

theorem count_filter_other (edges : List Edge) (e : Edge) :
    (edges.filter (·.other ∉ slots)).count e = if e.other ∈ slots then 0 else edges.count e := by
  split
  · exact List.count_eq_zero.mpr (by simp [*])
  · exact List.count_filter (by simp [*])

theorem Sound.without (sound : g.Sound) (slots : List Slot) : (g.without slots).Sound where
  numbered := by
    intro s m there
    rw [node?_without, Option.map_eq_some_iff] at there
    obtain ⟨n, here, rfl⟩ := there
    exact (congrArg GraphNode.id (GraphNode.fixed_without slots n)).trans (sound.numbered s n here)
  mirrored := by
    intro a b kind
    rw [succsOf_without sound, predsOf_without sound]
    by_cases source : a ∈ slots <;> by_cases target : b ∈ slots <;>
      simp only [source, target, count_filter_other, sound.mirrored, List.count_nil, if_true,
        if_false]
  cleared := by
    intro s m there gone
    rw [node?_without, Option.map_eq_some_iff] at there
    obtain ⟨n, here, rfl⟩ := there
    by_cases emptied : n.id ∈ slots
    · simp [GraphNode.without, emptied]
    · have before : n.removed = true := by simpa [GraphNode.without, emptied] using gone
      simp [GraphNode.without, emptied, sound.cleared s n here before]
  returns := by
    intro a b member
    rw [succsOf_without sound] at member
    by_cases source : a ∈ slots
    · simp [source] at member
    · have old : ⟨b, .ret⟩ ∈ g.succsOf a := by simp_all
      exact (sound.returns a b old).without sound source

end Without

/-- Removing nodes one after the other empties their slots and filters all others. -/
theorem removeNodes_eq (sound : g.Sound) (slots : List Slot) :
    g.removeNodes slots = g.without slots := by
  induction slots generalizing g with
  | nil =>
      have same : g.nodes.map (·.without []) = g.nodes := by simp
      rw [removeNodes, List.foldl_nil, without, same]
  | cons s slots ih =>
      have rest := ih (sound.without [s])
      rw [removeNodes, List.foldl_cons, removeNode_eq sound]
      refine rest.trans ?_
      simp only [without, Array.map_map, Function.comp_def, GraphNode.without_cons]

theorem Persists.without (g : PropertyGraph) (slots : List Slot) :
    g.Persists (g.without slots) where
  cap := rfl
  nodes := by
    intro s n here
    exact ⟨n.without slots, by rw [node?_without, here, Option.map_some], n.without_ages slots⟩

end Remove

/-! ### Growth -/

/-- A graph in order that extends `g`. -/
structure Grown (g h : PropertyGraph) : Prop where
  sound : h.Sound
  ext : g.Extends h

namespace Grown

theorem refl (sound : g.Sound) : g.Grown g := ⟨sound, .refl g⟩

theorem trans {k : PropertyGraph} (first : g.Grown h) (second : h.Grown k) : g.Grown k :=
  ⟨second.sound, first.ext.trans second.ext⟩

variable (grown : g.Grown h)

include grown

theorem addNodes {fresh : List GraphNode} (bare : ∀ n ∈ fresh, n.succs = [] ∧ n.preds = []) :
    g.Grown (h.addNodes fresh) :=
  ⟨grown.sound.addNodes bare, grown.ext.trans (.addNodes h fresh)⟩

theorem addNode (n : GraphNode) (bare : n.succs = [] ∧ n.preds = []) :
    g.Grown (h.addNode n).1 := by
  rw [addNode_eq_addNodes]
  apply grown.addNodes
  intro m member
  obtain rfl := List.mem_singleton.mp member
  exact bare

/-- An edge may be added between live nodes, a return only from an exit to a new node. -/
theorem addEdge {a b : Slot} (kind : EdgeKind) (source : h.Live a) (target : h.Live b)
    (returns : kind = .ret → h.LiveAs a (·.kind = .exit) ∧ g.nodes.size ≤ b) :
    g.Grown (h.addEdge a b kind) :=
  ⟨grown.sound.addEdge source target fun ret => (returns ret).1,
    grown.ext.addEdge a b kind fun ret => (returns ret).2⟩

theorem addEdges {edges : List (Slot × Slot × EdgeKind)}
    (ends : ∀ e ∈ edges, h.Live e.1 ∧ h.Live e.2.1 ∧ e.2.2 ≠ .ret) : g.Grown (h.addEdges edges) := by
  induction edges generalizing h with
  | nil => exact grown
  | cons e edges ih =>
      obtain ⟨source, target, other⟩ := ends e List.mem_cons_self
      have step : h.Extends (h.addEdge e.1 e.2.1 e.2.2) :=
        (Extends.refl h).addEdge e.1 e.2.1 e.2.2 fun ret => absurd ret other
      refine ih (grown.addEdge e.2.2 source target fun ret => absurd ret other) fun f member => ?_
      obtain ⟨sourceF, targetF, otherF⟩ := ends f (List.mem_cons_of_mem _ member)
      exact ⟨step.live sourceF, step.live targetF, otherF⟩

theorem setTarget (a : Slot) (target : Option KernelId) : g.Grown (h.setTarget a target) :=
  ⟨grown.sound.setTarget a target, grown.ext.setTarget a target⟩

theorem withCalls (calls : List CallRecord) : g.Grown { h with calls := calls } where
  sound := ⟨grown.sound.numbered, grown.sound.mirrored, grown.sound.cleared, grown.sound.returns⟩
  ext := ⟨by rw [grown.ext.frame], grown.ext.nodes⟩

end Grown

end PropertyGraph

end Retarget
