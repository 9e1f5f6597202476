/-
# Proofs.FlowStop -- where control stands, and where it stands next

In the graph of a kernel control stands at the entry, at the exit or at a node (`Stop`).  From one
stop it goes on to the stops that a path meets first, without stepping over a node in between
(`FlowGraph.Next`); such a path may still pass any number of empty blocks.  Step by step this is
all that paths can do: a stop can be reached from another by such steps exactly if a path leads
there (`transGen_next_iff`).

If only blocks with nodes have several successors, the path through empty blocks is forced
(`Through.unique`).  It either comes to a first stop or never ends, and on the way it passes no
block twice (`Through.nodup`).
-/
import Mathlib.Data.List.Perm.Subperm
import Mathlib.Logic.Relation
import Retarget.Proofs.FlowPath

namespace Retarget

open Retarget.Source (NodeId)

set_option autoImplicit false
set_option linter.dupNamespace false

/-- Where control can stand in a kernel; a node is told by the place before it. -/
inductive Stop where
  | entry
  | exit
  | node (p : Point)
deriving DecidableEq, Repr

namespace FlowGraph

variable (g : FlowGraph)

/-- The stop is there: a node follows its place. -/
def Has : Stop → Prop
  | .entry | .exit => True
  | .node p => ∃ n, g.At p n

/-- The place at which control comes to a stop. -/
def Before : Stop → Point → Prop
  | .entry, _ => False
  | .exit, q => q = ⟨g.exit, 0⟩
  | .node p, q => q = p ∧ ∃ n, g.At p n

/-- The place at which control leaves a stop. -/
def After : Stop → Point → Prop
  | .entry, q => q = g.start
  | .exit, _ => False
  | .node p, q => q = p.next ∧ ∃ n, g.At p n

/-- From the place control comes to the stop without stepping over a node. -/
def Meets (p : Point) (s : Stop) : Prop := ∃ q, g.Before s q ∧ g.Path p [] q

/-- From one stop control comes to the other without stepping over a node in between. -/
def Next (a b : Stop) : Prop := ∃ p, g.After a p ∧ g.Meets p b

/-- A path leads from one stop to the other. -/
def Flows (a b : Stop) : Prop := ∃ p ns q, g.After a p ∧ g.Path p ns q ∧ g.Before b q

/-- What control meets first from the start of each block. -/
def Lands (landing : Nat → Option Stop) : Prop := ∀ b s, landing b = some s ↔ g.Meets ⟨b, 0⟩ s

/-- Only blocks with nodes have several successors, and the exit has neither nodes nor
successors. -/
structure Shaped : Prop where
  branches : ∀ i < g.size, g.nodes i = [] → (g.succs i).length ≤ 1
  exitEmpty : g.nodes g.exit = []
  exitLast : g.succs g.exit = []

instance : Decidable g.Shaped :=
  decidable_of_iff ((∀ i < g.size, g.nodes i = [] → (g.succs i).length ≤ 1) ∧
    g.nodes g.exit = [] ∧ g.succs g.exit = [])
    ⟨fun ⟨a, b, c⟩ => ⟨a, b, c⟩, fun h => ⟨h.branches, h.exitEmpty, h.exitLast⟩⟩

variable {g}

/-! ## Steps and paths -/

/-- A path that steps over a node comes to it first. -/
theorem Path.split {p q : Point} {n : NodeId} {ns : List NodeId} (path : g.Path p (n :: ns) q) :
    ∃ mid, g.Path p [] mid ∧ g.At mid n ∧ g.Path mid.next ns q := by
  generalize whole : n :: ns = all at path
  induction path with
  | here => cases whole
  | @node p q m ms before rest ih =>
      cases whole
      exact ⟨p, .here p, before, rest⟩
  | edge leads rest ih =>
      obtain ⟨mid, first, before, later⟩ := ih whole
      exact ⟨mid, .edge leads first, before, later⟩

theorem flows_of_next {a b : Stop} (next : g.Next a b) : g.Flows a b := by
  obtain ⟨p, after, q, before, path⟩ := next
  exact ⟨p, [], q, after, path, before⟩

/-- Control that has come to a stop goes on from it. -/
theorem Flows.tail {a b c : Stop} (flows : g.Flows a b) (next : g.Next b c) : g.Flows a c := by
  obtain ⟨p, ns, q, after, path, before⟩ := flows
  obtain ⟨p', after', q', before', path'⟩ := next
  cases b with
  | entry => exact before.elim
  | exit => exact after'.elim
  | node r =>
      obtain ⟨rfl, n, here⟩ := before
      obtain ⟨rfl, -⟩ := after'
      exact ⟨p, ns ++ [n], q', after, path.trans (.node here path'), before'⟩

theorem transGen_of_path {a b : Stop} {p q : Point} {ns : List NodeId} (after : g.After a p)
    (path : g.Path p ns q) (before : g.Before b q) : Relation.TransGen g.Next a b := by
  induction ns generalizing a p with
  | nil => exact .single ⟨p, after, q, before, path⟩
  | cons n ns ih =>
      obtain ⟨mid, first, here, rest⟩ := path.split
      have next : g.Next a (.node mid) := ⟨p, after, mid, ⟨rfl, n, here⟩, first⟩
      exact .head next (ih ⟨rfl, n, here⟩ rest)

/-- Step by step control gets wherever a path leads, and nowhere else. -/
theorem transGen_next_iff {a b : Stop} : Relation.TransGen g.Next a b ↔ g.Flows a b := by
  constructor
  · intro steps
    induction steps with
    | single next => exact flows_of_next next
    | tail _ next ih => exact ih.tail next
  · rintro ⟨p, ns, q, after, path, before⟩
    exact transGen_of_path after path before

/-! ## Where control stands next -/

/-- A path that steps over nothing stays or goes on to another block. -/
theorem Path.nil_cases {p q : Point} (path : g.Path p [] q) :
    p = q ∨ ∃ i, ∃ j ∈ g.succs i, p = g.blockEnd i ∧ g.Path ⟨j, 0⟩ [] q := by
  generalize none : ([] : List NodeId) = ns at path
  cases path with
  | here => exact Or.inl rfl
  | node => cases none
  | edge leads rest => exact Or.inr ⟨_, _, leads, rfl, none ▸ rest⟩

/-- Before a node control meets that node and nothing else. -/
theorem meets_node_iff {p : Point} {n : NodeId} (here : g.At p n) (later : 0 < p.offset)
    {s : Stop} : g.Meets p s ↔ s = .node p := by
  constructor
  · rintro ⟨q, before, path⟩
    rcases path.nil_cases with rfl | ⟨i, j, -, rfl, -⟩
    · cases s with
      | entry => exact before.elim
      | exit =>
          rw [show p = ⟨g.exit, 0⟩ from before] at later
          exact absurd later (Nat.lt_irrefl 0)
      | node r => rw [before.1]
    · simp [At, blockEnd] at here
  · rintro rfl
    exact ⟨p, ⟨rfl, n, here⟩, .here p⟩

/-- After the last node of a block control meets what it meets from a successor. -/
theorem meets_blockEnd_iff {i : Nat} (some : g.nodes i ≠ []) {s : Stop} :
    g.Meets (g.blockEnd i) s ↔ ∃ j ∈ g.succs i, g.Meets ⟨j, 0⟩ s := by
  constructor
  · rintro ⟨q, before, path⟩
    rcases path.nil_cases with rfl | ⟨i', j, leads, same, rest⟩
    · cases s with
      | entry => exact before.elim
      | exit =>
          have none : (g.nodes i).length = 0 := congrArg Point.offset before
          exact absurd (List.eq_nil_of_length_eq_zero none) some
      | node r =>
          obtain ⟨rfl, n, here⟩ := before
          simp [At, blockEnd] at here
    · obtain rfl : i = i' := congrArg Point.block same
      exact ⟨j, leads, q, before, rest⟩
  · rintro ⟨j, leads, q, before, path⟩
    exact ⟨q, before, .edge leads path⟩

/-! ## Through empty blocks -/

variable (g) in
/-- From the start of a block control passes the listed empty blocks and comes to a stop. -/
inductive Through : Nat → List Nat → Stop → Prop
  | exit : Through g.exit [] .exit
  | node {b : Nat} {n : NodeId} : g.At ⟨b, 0⟩ n → Through b [] (.node ⟨b, 0⟩)
  | empty {b c : Nat} {blocks : List Nat} {s : Stop} :
      g.nodes b = [] → g.succs b = [c] → Through c blocks s → Through b (b :: blocks) s

theorem blockEnd_of_empty {b : Nat} (empty : g.nodes b = []) : g.blockEnd b = ⟨b, 0⟩ := by
  rw [blockEnd, empty]
  rfl

theorem Through.meets {b : Nat} {blocks : List Nat} {s : Stop} (through : g.Through b blocks s) :
    g.Meets ⟨b, 0⟩ s := by
  induction through with
  | exit => exact ⟨_, rfl, .here _⟩
  | node here => exact ⟨_, ⟨rfl, _, here⟩, .here _⟩
  | @empty b c blocks s empty only _ ih =>
      obtain ⟨q, before, path⟩ := ih
      have step : g.Path (g.blockEnd b) [] q := .edge (by simp [only]) path
      rw [blockEnd_of_empty empty] at step
      exact ⟨q, before, step⟩

theorem Shaped.eq_singleton (shaped : g.Shaped) {b c : Nat} (empty : g.nodes b = [])
    (leads : c ∈ g.succs b) : g.succs b = [c] := by
  have few := shaped.branches b (lt_size_of_mem_succs leads) empty
  match listed : g.succs b with
  | [] => rw [listed] at leads; cases leads
  | [d] =>
      rw [listed] at leads
      rw [List.mem_singleton.mp leads]
  | _ :: _ :: _ => rw [listed] at few; simp at few

theorem Shaped.through_of_meets (shaped : g.Shaped) {b : Nat} {s : Stop}
    (meets : g.Meets ⟨b, 0⟩ s) : ∃ blocks, g.Through b blocks s := by
  obtain ⟨q, before, path⟩ := meets
  generalize start : (⟨b, 0⟩ : Point) = p at path
  generalize none : ([] : List NodeId) = ns at path
  induction path generalizing b with
  | here =>
      subst start
      cases s with
      | entry => exact before.elim
      | exit =>
          obtain rfl : b = g.exit := congrArg Point.block before
          exact ⟨[], .exit⟩
      | node r =>
          obtain ⟨rfl, n, here⟩ := before
          exact ⟨[], .node here⟩
  | node => cases none
  | @edge i j q ns leads _ ih =>
      obtain rfl : b = i := congrArg Point.block start
      have empty : g.nodes b = [] := List.eq_nil_of_length_eq_zero (congrArg Point.offset start).symm
      obtain ⟨blocks, through⟩ := ih before rfl none
      exact ⟨b :: blocks, .empty empty (shaped.eq_singleton empty leads) through⟩

theorem nodes_ne_nil {b : Nat} {n : NodeId} (here : g.At ⟨b, 0⟩ n) : g.nodes b ≠ [] := by
  intro empty
  simp [At, empty] at here

/-- The way through empty blocks is forced. -/
theorem Through.unique (shaped : g.Shaped) {b : Nat} {blocks others : List Nat} {s t : Stop}
    (one : g.Through b blocks s) (two : g.Through b others t) : blocks = others ∧ s = t := by
  induction one generalizing others t with
  | exit =>
      cases two with
      | exit => exact ⟨rfl, rfl⟩
      | node here => exact absurd shaped.exitEmpty (nodes_ne_nil here)
      | empty _ only _ => cases shaped.exitLast.symm.trans only
  | node here =>
      cases two with
      | exit => exact absurd shaped.exitEmpty (nodes_ne_nil here)
      | node => exact ⟨rfl, rfl⟩
      | empty none _ _ => exact absurd none (nodes_ne_nil here)
  | empty none only _ ih =>
      cases two with
      | exit => cases shaped.exitLast.symm.trans only
      | node here => exact absurd none (nodes_ne_nil here)
      | empty _ only' through' =>
          have same := only.symm.trans only'
          cases same
          obtain ⟨rfl, rfl⟩ := ih through'
          exact ⟨rfl, rfl⟩

/-- From any block on the way the rest of the way is left. -/
theorem Through.rest {b x : Nat} {blocks : List Nat} {s : Stop} (through : g.Through b blocks s)
    (member : x ∈ blocks) : ∃ later, g.Through x later s ∧ later.length ≤ blocks.length := by
  induction through with
  | exit => cases member
  | node => cases member
  | empty none only through ih =>
      rcases List.mem_cons.mp member with rfl | later
      · exact ⟨_, .empty none only through, Nat.le_refl _⟩
      · obtain ⟨rest, way, short⟩ := ih later
        exact ⟨rest, way, Nat.le_succ_of_le short⟩

/-- No block is passed twice, or control would go round for ever. -/
theorem Through.nodup (shaped : g.Shaped) {b : Nat} {blocks : List Nat} {s : Stop}
    (through : g.Through b blocks s) : blocks.Nodup := by
  induction through with
  | exit => exact List.nodup_nil
  | node => exact List.nodup_nil
  | @empty b c blocks s none only through ih =>
      refine List.nodup_cons.mpr ⟨fun again => ?_, ih⟩
      obtain ⟨later, way, short⟩ := through.rest again
      have same := (way.unique shaped (.empty none only through)).1
      rw [same, List.length_cons] at short
      omega

theorem Through.lt_size {b : Nat} {blocks : List Nat} {s : Stop} (through : g.Through b blocks s) :
    ∀ x ∈ blocks, x < g.size := by
  induction through with
  | exit => nofun
  | node => nofun
  | empty _ only _ ih =>
      exact List.forall_mem_cons.mpr ⟨lt_size_of_mem_succs (by rw [only]; exact List.mem_cons_self), ih⟩

theorem Through.length_le (shaped : g.Shaped) {b : Nat} {blocks : List Nat} {s : Stop}
    (through : g.Through b blocks s) : blocks.length ≤ g.size := by
  have fits := List.subperm_of_subset (through.nodup shaped)
    fun x member => List.mem_range.mpr (through.lt_size x member)
  simpa using fits.length_le

/-- At most one stop is met first. -/
theorem Shaped.meets_unique (shaped : g.Shaped) {b : Nat} {s t : Stop} (one : g.Meets ⟨b, 0⟩ s)
    (two : g.Meets ⟨b, 0⟩ t) : s = t := by
  obtain ⟨_, first⟩ := shaped.through_of_meets one
  obtain ⟨_, second⟩ := shaped.through_of_meets two
  exact (first.unique shaped second).2

/-- What is met first from the start of each block, as a function. -/
theorem Shaped.exists_landing (shaped : g.Shaped) :
    ∃ landing : Nat → Option Stop, g.Lands landing := by
  have each : ∀ b, ∃ found : Option Stop, ∀ s, found = some s ↔ g.Meets ⟨b, 0⟩ s := by
    intro b
    by_cases some : ∃ s, g.Meets ⟨b, 0⟩ s
    · obtain ⟨s, meets⟩ := some
      refine ⟨.some s, fun t => ?_⟩
      rw [Option.some.injEq]
      exact ⟨fun same => same ▸ meets, shaped.meets_unique meets⟩
    · refine ⟨none, fun t => ?_⟩
      simpa using not_exists.mp some t
  choose landing spec using each
  exact ⟨landing, spec⟩

end FlowGraph

end Retarget
