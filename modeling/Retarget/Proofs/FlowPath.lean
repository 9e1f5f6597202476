/-
# Proofs.FlowPath -- the ways control can take through a flow graph

What an analysis may say of a node is measured against the paths that lead there.  A path runs
between places: a place is the gap before a node, or the end of a block.  It steps over the
nodes of a block one by one and from the end of a block to the start of a successor, so it may
pass through empty blocks and go round loops as often as it likes; the nodes it steps over are
written beside it (`FlowGraph.Path`).  Where only the blocks matter, a route lists them
(`FlowGraph.Route`).

Nothing is assumed of the graph.  If every node stands in one place (`g.statements.Nodup`), that
place is unique (`FlowGraph.At.unique`).
-/
import Mathlib.Data.List.Nodup
import Retarget.Flow.Dataflow

namespace Retarget

open Retarget.Source (NodeId)

set_option autoImplicit false
set_option linter.dupNamespace false

/-- The gap before the node at `offset` of a block, or the end of the block. -/
structure Point where
  block : Nat
  offset : Nat
deriving DecidableEq, Repr

/-- The gap after the node that follows. -/
def Point.next (p : Point) : Point := ⟨p.block, p.offset + 1⟩

/-- None of the nodes writes the variable. -/
def Access.Clear (access : Access) (v : String) (ns : List NodeId) : Prop :=
  ∀ n ∈ ns, v ∉ access.defs n

namespace Access

variable {access : Access} {v : String} {n : NodeId} {ns ms : List NodeId}

@[simp] theorem clear_nil : access.Clear v [] := by
  intro n member
  cases member

@[simp] theorem clear_cons : access.Clear v (n :: ns) ↔ v ∉ access.defs n ∧ access.Clear v ns := by
  simp [Clear]

@[simp] theorem clear_append :
    access.Clear v (ns ++ ms) ↔ access.Clear v ns ∧ access.Clear v ms := by
  simp only [Clear, List.mem_append]
  constructor
  · intro clear
    exact ⟨fun n member => clear n (Or.inl member), fun n member => clear n (Or.inr member)⟩
  · rintro ⟨left, right⟩ n (member | member)
    · exact left n member
    · exact right n member

end Access

namespace FlowGraph

variable (g : FlowGraph)

/-- Where control enters. -/
def start : Point := ⟨g.entry, 0⟩

def blockEnd (i : Nat) : Point := ⟨i, (g.nodes i).length⟩

/-- The node `n` follows the place `p`. -/
def At (p : Point) (n : NodeId) : Prop := (g.nodes p.block)[p.offset]? = some n

/-- A path from place to place, with the nodes it steps over. -/
inductive Path : Point → List NodeId → Point → Prop
  | here (p : Point) : Path p [] p
  | node {p q : Point} {n : NodeId} {ns : List NodeId} :
      g.At p n → Path p.next ns q → Path p (n :: ns) q
  | edge {i j : Nat} {q : Point} {ns : List NodeId} :
      j ∈ g.succs i → Path ⟨j, 0⟩ ns q → Path (g.blockEnd i) ns q

/-- The blocks of a route from block to block, both ends included. -/
inductive Route : Nat → List Nat → Nat → Prop
  | here (i : Nat) : Route i [i] i
  | step {i j k : Nat} {blocks : List Nat} :
      j ∈ g.succs i → Route j blocks k → Route i (i :: blocks) k

/-- A value that `d` gives to `v` may still be there right before `s`. -/
def Reaches (access : Access) (v : String) (d s : NodeId) : Prop :=
  ∃ p ns q, g.At p d ∧ g.Path p.next ns q ∧ g.At q s ∧ access.Clear v ns

/-- The value that `v` has on entry may still be there right before `s`. -/
def EntryReaches (access : Access) (v : String) (s : NodeId) : Prop :=
  ∃ ns q, g.Path g.start ns q ∧ g.At q s ∧ access.Clear v ns

variable {g}

/-! ## Blocks and their nodes -/

theorem block?_isSome {i : Nat} : (g.block? i).isSome ↔ i < g.size := by
  simp [block?, size]

theorem lt_size_of_mem_succs {i j : Nat} (member : j ∈ g.succs i) : i < g.size := by
  rw [← block?_isSome]
  cases found : g.block? i with
  | none => simp [succs, labeledSuccs, found] at member
  | some b => rfl

theorem mem_preds {i j : Nat} : j ∈ g.preds i ↔ i ∈ g.succs j := by
  simp only [preds, List.mem_flatMap, List.mem_range, List.mem_map, List.mem_filter,
    beq_iff_eq]
  constructor
  · rintro ⟨k, -, l, ⟨member, rfl⟩, rfl⟩
    exact member
  · intro member
    exact ⟨j, lt_size_of_mem_succs member, i, ⟨member, rfl⟩, rfl⟩

theorem At.lt_size {p : Point} {n : NodeId} (before : g.At p n) : p.block < g.size := by
  rw [← block?_isSome]
  cases found : g.block? p.block with
  | none => simp [At, nodes, found] at before
  | some b => rfl

theorem nodes_eq {i : Nat} (low : i < g.blocks.length) : g.nodes i = g.blocks[i].nodes := by
  simp [nodes, block?, List.getElem?_eq_getElem low]

theorem mem_statements {n : NodeId} : n ∈ g.statements ↔ ∃ p, g.At p n := by
  simp only [statements, List.mem_flatMap]
  constructor
  · rintro ⟨b, listed, member⟩
    obtain ⟨i, low, rfl⟩ := List.mem_iff_getElem.mp listed
    obtain ⟨k, bound, rfl⟩ := List.mem_iff_getElem.mp member
    refine ⟨⟨i, k⟩, ?_⟩
    simp [At, nodes_eq (g := g) low]
  · rintro ⟨p, before⟩
    have low : p.block < g.blocks.length := before.lt_size
    refine ⟨_, List.getElem_mem low, ?_⟩
    rw [← nodes_eq low]
    exact List.mem_of_getElem? before

/-- A node that occurs once stands in one place. -/
theorem At.unique (distinct : g.statements.Nodup) {p q : Point} {n : NodeId}
    (first : g.At p n) (second : g.At q n) : p = q := by
  obtain ⟨i, k⟩ := p
  obtain ⟨j, l⟩ := q
  obtain ⟨within, apart⟩ := List.nodup_flatMap.mp distinct
  have lowI : i < g.blocks.length := first.lt_size
  have lowJ : j < g.blocks.length := second.lt_size
  simp only [At, nodes_eq (g := g) lowI, nodes_eq (g := g) lowJ] at first second
  have disjoint := List.pairwise_iff_getElem.mp apart
  obtain less | rfl | greater := Nat.lt_trichotomy i j
  · exact absurd (List.mem_of_getElem? second)
      (disjoint i j lowI lowJ less (List.mem_of_getElem? first))
  · have once := within _ (List.getElem_mem lowI)
    obtain ⟨boundK, atK⟩ := List.getElem?_eq_some_iff.mp first
    obtain ⟨boundL, atL⟩ := List.getElem?_eq_some_iff.mp second
    have same : k = l := (once.getElem_inj_iff).mp (atK.trans atL.symm)
    rw [same]
  · exact absurd (List.mem_of_getElem? first)
      (disjoint j i lowJ lowI greater (List.mem_of_getElem? second))

/-! ## Paths -/

namespace Path

variable {p q r : Point} {ns ms : List NodeId}

theorem trans (first : g.Path p ns q) (second : g.Path q ms r) : g.Path p (ns ++ ms) r := by
  induction first with
  | here => exact second
  | node before _ ih => exact .node before (ih second)
  | edge leads _ ih => exact .edge leads (ih second)

end Path

end FlowGraph

end Retarget
