/-
# Proofs.NodeLookup -- which node a name stands for after a history

The index of names holds one node for a name.  It is written when a node of that name is added, and
it is cleared when the node it points at goes; nothing points it back at an earlier bearer.  So after
any history a name stands for the node last added under it as long as that node is there, and for
nothing afterwards (`Tracks`).

The node that ought to be found is the one with the greatest number among those that are there and
bear the name (`Newest`).  Numbers grow along a history, so this is the node last added under the
name while that one is there.  Once it is gone and an earlier bearer is not, the name is lost with
it: the two agree in every other case (`nodeByName?_history`).
-/
import Retarget.Proofs.OperationHistory

namespace Retarget

set_option autoImplicit false
set_option linter.dupNamespace false

namespace OperationGraph

/-! ## Bearers of a name -/

/-- The node of this name with the greatest number. -/
def Newest (g : OperationGraph) (name : String) (n : OpNode) : Prop :=
  n ∈ g.nodes ∧ n.name = name ∧ ∀ m ∈ g.nodes, m.name = name → m.id ≤ n.id

/-- No node that is there bears the name. -/
def Unborne (g : OperationGraph) (name : String) : Prop :=
  ∀ m ∈ g.nodes, m.name ≠ name

/-- A name is answered with its newest bearer, and with nothing only where nobody bears it. -/
def Answers (g : OperationGraph) (name : String) : Prop :=
  (∀ n, g.nodeByName? name = some n → g.Newest name n) ∧
    (g.nodeByName? name = none → g.Unborne name)

/-- The number a change gives to a node of this name. -/
def givenTo (g : OperationGraph) (name : String) : GraphChange → Option OpId
  | .addNode n => if n.name = name then some (g.addNode n).2 else none
  | _ => none

/-- The number given last to a node of this name. -/
def lastGivenTo (g : OperationGraph) (name : String) : List GraphChange → Option OpId
  | [] => none
  | c :: cs => ((g.change c).1.lastGivenTo name cs).or (g.givenTo name c)

/-- How the index stands to the node last added under a name. -/
structure Tracks (g : OperationGraph) (name : String) (last : Option OpId) : Prop where
  /-- The index points at this node while it is there, and nowhere when it is gone. -/
  points : g.index.lookup name = last.filter fun id => (g.node? id).isSome
  bears : ∀ id n, last = some id → g.node? id = some n → n.name = name
  given : ∀ id : Int, last = some id → id < g.slots.length
  /-- Every bearer was added before it, or is this one. -/
  above : ∀ m ∈ g.nodes, m.name = name → ∃ id, last = some id ∧ m.id ≤ id

variable {g : OperationGraph} {name : String} {last : Option OpId} {id : OpId} {n : OpNode}

theorem new_tracks (graph : String) : (new graph).Tracks name none where
  points := rfl
  bears _ _ here := (Option.some_ne_none _ here.symm).elim
  given _ here := (Option.some_ne_none _ here.symm).elim
  above _ member := (List.not_mem_nil member).elim

theorem mem_nodes_of_node? (found : g.node? id = some n) : n ∈ g.nodes := by
  obtain ⟨i, -, here⟩ := node?_eq_some_iff.mp found
  exact mem_nodes_iff.mpr ⟨i, here⟩

theorem Consistent.node?_id (consistent : g.Consistent) (found : g.node? id = some n) :
    n.id = id := by
  obtain ⟨i, rfl, here⟩ := node?_eq_some_iff.mp found
  exact consistent.slotted i n here

theorem Consistent.node?_of_mem (consistent : g.Consistent) (member : n ∈ g.nodes) :
    g.node? n.id = some n := by
  obtain ⟨i, here⟩ := mem_nodes_iff.mp member
  exact node?_eq_some_iff.mpr ⟨i, consistent.slotted i n here, here⟩

/-! ## One change -/

theorem node?_addNode_of_lt {id : Int} (n : OpNode) (inside : id < g.slots.length) :
    (g.addNode n).1.node? id = g.node? id := by
  unfold node?
  by_cases below : id < 0
  · rw [if_pos below, if_pos below]
  · have low : id.toNat < g.slots.length := by omega
    rw [if_neg below, if_neg below, addNode, List.getElem?_append_left low]

theorem mem_nodes_addNode {m : OpNode} (n : OpNode) :
    m ∈ (g.addNode n).1.nodes ↔ m ∈ g.nodes ∨ m = { n with id := (g.slots.length : OpId) } := by
  simp [nodes, addNode]

theorem lookup_addNode (n : OpNode) (called : name ≠ "") :
    (g.addNode n).1.index.lookup name =
      if n.name = name then some (g.slots.length : OpId) else g.index.lookup name := by
  by_cases blank : n.name = ""
  · have other : n.name ≠ name := fun same => called (same ▸ blank)
    simp [addNode, blank, Ne.symm called]
  · by_cases same : n.name = name
    · simp [addNode, same, called]
    · have differ : (name == n.name) = false := beq_false_of_ne (Ne.symm same)
      simp [addNode, blank, same, List.lookup_cons, differ, lookup_filter_of_ne (Ne.symm same)]

/-- A named node takes its name over, and leaves the other names alone. -/
theorem Tracks.addNode (tracks : g.Tracks name last) (consistent : g.Consistent)
    (called : name ≠ "") (n : OpNode) :
    (g.addNode n).1.Tracks name ((g.givenTo name (.addNode n)).or last) := by
  have larger : (g.addNode n).1.slots.length = g.slots.length + 1 := by simp [OperationGraph.addNode]
  by_cases same : n.name = name
  · have mine : (g.givenTo name (.addNode n)).or last = some (g.slots.length : OpId) := by
      simp [givenTo, same, OperationGraph.addNode]
    rw [mine]
    refine ⟨?_, ?_, ?_, ?_⟩
    · rw [lookup_addNode n called, if_pos same, Option.filter_some, node?_addNode_self]
      rfl
    · intro id m here found
      cases here
      rw [node?_addNode_self] at found
      cases found
      exact same
    · intro id here
      cases here
      apply Int.ofNat_lt.mpr
      omega
    · intro m member bears
      refine ⟨_, rfl, ?_⟩
      rcases (mem_nodes_addNode n).mp member with old | rfl
      · obtain ⟨i, here⟩ := mem_nodes_iff.mp old
        have inside : i < g.slots.length := (List.getElem?_eq_some_iff.mp here).1
        have number : m.id = i := consistent.slotted i m here
        rw [number]
        apply Int.ofNat_le.mpr
        omega
      · exact Int.le_refl _
  · have theirs : (g.givenTo name (.addNode n)).or last = last := by simp [givenTo, same]
    rw [theirs]
    have old (id : OpId) (here : last = some id) : (g.addNode n).1.node? id = g.node? id :=
      node?_addNode_of_lt n (tracks.given id here)
    refine ⟨?_, ?_, ?_, ?_⟩
    · rw [lookup_addNode n called, if_neg same, tracks.points]
      cases here : last with
      | none => rfl
      | some id => rw [Option.filter_some, Option.filter_some, old id here]
    · intro id m here found
      exact tracks.bears id m here (old id here ▸ found)
    · intro id here
      have below := tracks.given id here
      omega
    · intro m member bears
      rcases (mem_nodes_addNode n).mp member with old | rfl
      · exact tracks.above m old bears
      · exact absurd bears same

theorem mem_nodes_removeNode {m : OpNode} (member : m ∈ (g.removeNode id).1.nodes) :
    m ∈ g.nodes := by
  cases found : g.node? id with
  | none => simpa only [removeNode, found] using member
  | some n =>
      obtain ⟨i, here⟩ := mem_nodes_iff.mp member
      simp only [removeNode, found, List.getElem?_set] at here
      split at here
      · split at here <;> cases here
      · exact mem_nodes_iff.mpr ⟨i, here⟩

/-- The index is cleared when the node it points at goes, and keeps what it says otherwise. -/
theorem Tracks.removeNode (tracks : g.Tracks name last) (id : OpId) :
    (g.removeNode id).1.Tracks name last := by
  cases found : g.node? id with
  | none => simpa only [OperationGraph.removeNode, found] using tracks
  | some n =>
      have size : (g.removeNode id).1.slots.length = g.slots.length := by
        simp [OperationGraph.removeNode, found]
      refine ⟨?_, ?_, ?_, ?_⟩
      · by_cases mine : last = some id
        · have bears : n.name = name := tracks.bears id n mine found
          have pointed : g.index.lookup n.name = some id := by
            rw [bears, tracks.points, mine, Option.filter_some, found]
            rfl
          have cleared : (g.removeNode id).1.index = g.index.filter (·.1 != n.name) := by
            simp [OperationGraph.removeNode, found, pointed]
          rw [cleared, mine, Option.filter_some, node?_removeNode found, bears, lookup_filter_self]
          simp
        · have kept : (g.removeNode id).1.index.lookup name = g.index.lookup name := by
            by_cases pointed : g.index.lookup n.name = some id
            · -- the index points at the removed node under another name
              have other : name ≠ n.name := by
                intro same
                subst same
                rw [tracks.points, Option.filter_eq_some_iff] at pointed
                exact mine pointed.1
              have cleared : (g.removeNode id).1.index = g.index.filter (·.1 != n.name) := by
                simp [OperationGraph.removeNode, found, pointed]
              rw [cleared, lookup_filter_of_ne other]
            · simp [OperationGraph.removeNode, found, pointed]
          rw [kept, tracks.points]
          cases here : last with
          | none => rfl
          | some other =>
              have differ : other ≠ id := by
                intro same
                exact mine (same ▸ here)
              rw [Option.filter_some, Option.filter_some, node?_removeNode found, if_neg differ]
      · intro other m here there
        rw [node?_removeNode found] at there
        split at there
        · cases there
        · exact tracks.bears other m here there
      · intro other here
        rw [size]
        exact tracks.given other here
      · intro m member bears
        exact tracks.above m (mem_nodes_removeNode member) bears

theorem Tracks.change (tracks : g.Tracks name last) (consistent : g.Consistent)
    (called : name ≠ "") (c : GraphChange) :
    (g.change c).1.Tracks name ((g.givenTo name c).or last) := by
  cases c with
  | addNode n => exact tracks.addNode consistent called n
  | removeNode id => exact tracks.removeNode id
  | removeEdge source target =>
      exact ⟨tracks.points, tracks.bears, tracks.given, tracks.above⟩
  | addEdge source target kind label =>
      rcases g.addEdge_cases source target kind label with
        ⟨-, refused⟩ | ⟨-, -, -, dropped⟩ | ⟨-, -, -, added⟩
      · simp only [OperationGraph.change, refused]
        exact tracks
      · simp only [OperationGraph.change, dropped]
        exact tracks
      · simp only [OperationGraph.change, added]
        exact ⟨tracks.points, tracks.bears, tracks.given, tracks.above⟩

/-! ## Histories -/

theorem Tracks.changed (tracks : g.Tracks name last) (consistent : g.Consistent)
    (called : name ≠ "") (changes : List GraphChange) :
    (g.changed changes).Tracks name ((g.lastGivenTo name changes).or last) := by
  induction changes generalizing g last with
  | nil => exact tracks
  | cons c cs ih =>
      rw [lastGivenTo, Option.or_assoc]
      exact ih (tracks.change consistent called c) (consistent.change c)

theorem Tracks.nodeByName?_eq (tracks : g.Tracks name last) :
    g.nodeByName? name = last.bind g.node? := by
  have index : g.nodeByName? name = (g.index.lookup name).bind g.node? := rfl
  rw [index, tracks.points]
  cases last with
  | none => rfl
  | some id => cases found : g.node? id <;> simp [Option.filter_some, found]

/-- While the last bearer is there it is the newest. -/
theorem Tracks.newest (tracks : g.Tracks name last) (consistent : g.Consistent)
    (here : last = some id) (found : g.node? id = some n) : g.Newest name n := by
  refine ⟨mem_nodes_of_node? found, tracks.bears id n here found, ?_⟩
  intro m member bears
  obtain ⟨top, atTop, below⟩ := tracks.above m member bears
  have same : top = id := Option.some.inj (atTop.symm.trans here)
  rw [consistent.node?_id found, ← same]
  exact below

/-- After any history of changes to an empty graph, a name that is not empty stands for the node last
added under it while that node is there and for nothing else; what it stands for is the newest bearer;
and it is answered as it should be unless the node last added under it is gone and an earlier bearer
is not. -/
theorem nodeByName?_history (graph name : String) (changes : List GraphChange)
    (called : name ≠ "") :
    let g := made graph changes
    let last := (new graph).lastGivenTo name changes
    g.nodeByName? name = last.bind g.node? ∧
      (∀ n, g.nodeByName? name = some n → g.Newest name n) ∧
      (g.Answers name ↔ ∀ id, last = some id → g.node? id = none → g.Unborne name) := by
  intro g last
  have consistent : g.Consistent := (new_consistent graph).changed changes
  have tracks : g.Tracks name last := by
    have start : (new graph).Tracks name none := new_tracks graph
    have run := start.changed (new_consistent graph) called changes
    rwa [Option.or_none] at run
  have answer : g.nodeByName? name = last.bind g.node? := tracks.nodeByName?_eq
  have newest (n : OpNode) (told : g.nodeByName? name = some n) : g.Newest name n := by
    rw [answer] at told
    obtain ⟨id, here, found⟩ := Option.bind_eq_some_iff.mp told
    exact tracks.newest consistent here found
  refine ⟨answer, newest, ?_⟩
  constructor
  · rintro ⟨-, nothing⟩ id here gone
    apply nothing
    rw [answer, here]
    exact gone
  · intro lost
    refine ⟨newest, ?_⟩
    intro nothing
    cases here : last with
    | none =>
        intro m member bears
        obtain ⟨top, atTop, -⟩ := tracks.above m member bears
        cases here.symm.trans atTop
    | some id =>
        rw [answer, here] at nothing
        exact lost id here nothing

/-- Where an earlier bearer goes the later one is found, with the greatest number of those left. -/
theorem nodeByName?_history_kept :
    let g := made "g" [.addNode { kind := .load, name := "a" },
      .addNode { kind := .add, name := "b" }, .addNode { kind := .store, name := "a" },
      .removeNode 0]
    g.Answers "a" ∧ (g.nodeByName? "a").map (·.id) = some 2 := by
  obtain ⟨told, -, answers⟩ := nodeByName?_history "g" "a"
    [.addNode { kind := .load, name := "a" }, .addNode { kind := .add, name := "b" },
      .addNode { kind := .store, name := "a" }, .removeNode 0] (by decide)
  refine ⟨answers.mpr ?_, ?_⟩
  · intro id here gone
    cases here
    exact absurd gone (by decide)
  · rw [told]
    decide

/-- Where the later bearer goes the earlier one is not found, although it is there. -/
theorem nodeByName?_forgets :
    let g := made "g" [.addNode { kind := .load, name := "a" },
      .addNode { kind := .store, name := "a" }, .removeNode 1]
    g.nodeByName? "a" = none ∧ (∃ n, g.Newest "a" n ∧ n.id = 0) ∧ ¬g.Answers "a" := by
  intro g
  have nothing : g.nodeByName? "a" = none := by decide
  have there : g.nodes = [{ kind := .load, name := "a", id := 0 }] := by decide
  have newest : g.Newest "a" { kind := .load, name := "a", id := 0 } := by
    refine ⟨by simp [there], rfl, ?_⟩
    intro m member _
    rw [there, List.mem_singleton] at member
    exact Int.le_of_eq (congrArg OpNode.id member)
  refine ⟨nothing, ⟨_, newest, rfl⟩, ?_⟩
  rintro ⟨-, unborne⟩
  exact unborne nothing _ newest.1 newest.2.1

end OperationGraph

end Retarget
