/-
# Proofs.Rounds -- what a capped number of passes finds

A pass visits the blocks in the order of their numbers and uses what it has just computed, so it
takes a fact along every edge that leads to a higher number, and along one that leads back only
as far as the start of the next pass.  The blocks that a path leaves one after the other thus
need as many passes as the list of them has ascending runs (`rounds`); the edge out of the last
one is free, since what flows into a block is read off once the passes are over.

`mem_factsAt_iff`: whatever the cap, a fact is found at a place exactly if it is brought there by
a path whose blocks are left within that many rounds.  A cap that is hit thus costs those facts
that every path takes longer to bring, and no others.
-/
import Retarget.Proofs.Dataflow

namespace Retarget

open Retarget.Source (NodeId)

set_option autoImplicit false
set_option linter.dupNamespace false

/-! ## Rounds -/

/-- How many passes over the blocks, in ascending order, visit these one after the other. -/
def rounds : List Nat → Nat
  | [] => 0
  | [_] => 1
  | i :: j :: rest => (if i < j then 0 else 1) + rounds (j :: rest)

theorem rounds_snoc (left : List Nat) (i j : Nat) :
    rounds (left ++ [i] ++ [j]) = rounds (left ++ [i]) + if i < j then 0 else 1 := by
  induction left with
  | nil => simp [rounds, Nat.add_comm]
  | cons b left ih =>
      cases left with
      | nil => simp only [List.nil_append, List.cons_append, rounds]; omega
      | cons c left =>
          simp only [List.cons_append, rounds] at ih ⊢
          omega

namespace FlowGraph

/-- A path with the nodes it steps over and the blocks it leaves. -/
inductive Trail (g : FlowGraph) : Point → List NodeId → List Nat → Point → Prop
  | here (p : Point) : Trail g p [] [] p
  | node {p q : Point} {n : NodeId} {ns : List NodeId} {left : List Nat} :
      g.At p n → Trail g p.next ns left q → Trail g p (n :: ns) left q
  | edge {i j : Nat} {q : Point} {ns : List NodeId} {left : List Nat} :
      j ∈ g.succs i → Trail g ⟨j, 0⟩ ns left q → Trail g (g.blockEnd i) ns (i :: left) q

variable {g : FlowGraph}

/-- Every path leaves some blocks, and forgetting them gives a path. -/
theorem path_iff_trail {p q : Point} {ns : List NodeId} :
    g.Path p ns q ↔ ∃ left, g.Trail p ns left q := by
  constructor
  · intro path
    induction path with
    | here p => exact ⟨[], .here p⟩
    | node before _ ih =>
        obtain ⟨left, trail⟩ := ih
        exact ⟨left, .node before trail⟩
    | edge leads _ ih =>
        obtain ⟨left, trail⟩ := ih
        exact ⟨_ :: left, .edge leads trail⟩
  · rintro ⟨left, trail⟩
    induction trail with
    | here p => exact .here p
    | node before _ ih => exact .node before ih
    | edge leads _ ih => exact .edge leads ih

namespace Trail

variable {p q r : Point} {ns ms : List NodeId} {left more : List Nat}

theorem trans (first : g.Trail p ns left q) (second : g.Trail q ms more r) :
    g.Trail p (ns ++ ms) (left ++ more) r := by
  induction first with
  | here => exact second
  | node before _ ih => exact .node before (ih second)
  | edge leads _ ih => exact .edge leads (ih second)

/-- The first block left is the one the path starts in. -/
theorem head_eq {b : Nat} (trail : g.Trail p ns (b :: left) q) : b = p.block ∧ b < g.size := by
  generalize blocks : b :: left = all at trail
  induction trail with
  | here => cases blocks
  | node _ _ ih => exact ih blocks
  | edge leads =>
      obtain ⟨rfl, -⟩ := List.cons.inj blocks
      exact ⟨rfl, lt_size_of_mem_succs leads⟩

end Trail

end FlowGraph

/-! ## One pass in order -/

namespace Sweep

variable {rule : Rule} {s : Set Nat}

theorem pass_range_succ (i : Nat) :
    pass rule (List.range (i + 1)) s = visit rule (pass rule (List.range i) s) i := by
  rw [List.range_succ, pass, List.foldl_append]
  rfl

/-- Half way through a pass the blocks visited are as at its end, the others as at its start. -/
theorem mem_pass_range_iff {i n j : Nat} (part : i ≤ n) :
    j ∈ pass rule (List.range i) s ↔
      (j < i ∧ j ∈ pass rule (List.range n) s) ∨ (i ≤ j ∧ j ∈ s) := by
  have beyond : ∀ m ≤ j, (j ∈ pass rule (List.range m) s ↔ j ∈ s) := by
    intro m low
    induction m with
    | zero => rfl
    | succ m ih =>
        rw [pass_range_succ, mem_visit, ih (by omega)]
        simp [show j ≠ m by omega]
  have within : ∀ m, i ≤ m → j < i →
      (j ∈ pass rule (List.range m) s ↔ j ∈ pass rule (List.range i) s) := by
    intro m above low
    induction m, above using Nat.le_induction with
    | base => rfl
    | succ m above ih =>
        rw [pass_range_succ, mem_visit, ih]
        simp [show j ≠ m by omega]
  rcases Nat.lt_or_ge j i with low | high
  · simp [low, Nat.not_le.mpr low, within n part low]
  · simp [high, Nat.not_lt.mpr high, beyond i high]

/-- A block is a member after a pass if the rule says so when the pass comes to it. -/
theorem mem_pass_range {i n : Nat} (low : i < n) :
    i ∈ pass rule (List.range n) s ↔ rule (pass rule (List.range i) s) i := by
  have visited : i ∈ pass rule (List.range (i + 1)) s ↔ _ :=
    mem_pass_range_iff (Nat.succ_le_of_lt low)
  rw [pass_range_succ, mem_visit] at visited
  simpa using visited.symm

end Sweep

namespace ForwardAnalysis

variable {a : ForwardAnalysis} {access : Access} {makes : NodeId → String → Prop}
variable {g : FlowGraph} {f : Fact} {s t : Set Nat}

/-- A trail that leaves the blocks `left` brings a fact to `p` from where it is made, or from the
entry, without a write of the variable. -/
def Brought (a : ForwardAnalysis) (access : Access) (makes : NodeId → String → Prop)
    (g : FlowGraph) (f : Fact) (left : List Nat) (p : Point) : Prop :=
  ∃ ns, access.Clear f.var ns ∧ ((f ∈ a.onEntry ∧ g.Trail g.start ns left p) ∨
    ∃ d q, f.origin = some d ∧ makes d f.var ∧ g.At q d ∧ g.Trail q.next ns left p)

theorem arrives_iff_brought {p : Point} :
    a.Arrives access makes g f p ↔ ∃ left, a.Brought access makes g f left p := by
  simp only [Arrives, Brought, FlowGraph.path_iff_trail]
  constructor
  · rintro (⟨known, ns, ⟨left, trail⟩, clear⟩ | ⟨d, q, ns, origin, makesIt, atD, ⟨left, trail⟩, clear⟩)
    · exact ⟨left, ns, clear, Or.inl ⟨known, trail⟩⟩
    · exact ⟨left, ns, clear, Or.inr ⟨d, q, origin, makesIt, atD, trail⟩⟩
  · rintro ⟨left, ns, clear, ⟨known, trail⟩ | ⟨d, q, origin, makesIt, atD, trail⟩⟩
    · exact Or.inl ⟨known, ns, ⟨left, trail⟩, clear⟩
    · exact Or.inr ⟨d, q, ns, origin, makesIt, atD, ⟨left, trail⟩, clear⟩

theorem Brought.along {left more : List Nat} {p q : Point} {ns : List NodeId}
    (brought : a.Brought access makes g f left p) (trail : g.Trail p ns more q)
    (clear : access.Clear f.var ns) : a.Brought access makes g f (left ++ more) q := by
  obtain ⟨ms, free, source⟩ := brought
  refine ⟨ms ++ ns, Access.clear_append.mpr ⟨free, clear⟩, source.imp ?_ ?_⟩
  · rintro ⟨known, before⟩
    exact ⟨known, before.trans trail⟩
  · rintro ⟨d, o, origin, makesIt, atD, before⟩
    exact ⟨d, o, origin, makesIt, atD, before.trans trail⟩

/-! ## Inside a block -/

/-- A fact is at a place when it flows out of the blocks `s`. -/
def HeldAt (a : ForwardAnalysis) (access : Access) (makes : NodeId → String → Prop)
    (g : FlowGraph) (f : Fact) (s : Set Nat) (p : Point) : Prop :=
  carryAll access makes f (a.Enters g f s p.block) ((g.nodes p.block).take p.offset)

theorem heldAt_start {i : Nat} : a.HeldAt access makes g f s ⟨i, 0⟩ ↔ a.Enters g f s i := Iff.rfl

theorem heldAt_blockEnd {i : Nat} :
    a.HeldAt access makes g f s (g.blockEnd i) ↔ a.blockRule access makes g f s i := by
  rw [HeldAt, FlowGraph.blockEnd, List.take_length]
  rfl

theorem heldAt_next {p : Point} {n : NodeId} (before : g.At p n) :
    a.HeldAt access makes g f s p.next ↔
      carry access makes f (a.HeldAt access makes g f s p) n := by
  have longer : (g.nodes p.block).take (p.offset + 1)
      = (g.nodes p.block).take p.offset ++ [n] := by
    rw [List.take_add_one, show (g.nodes p.block)[p.offset]? = some n from before]
    rfl
  simp only [HeldAt, Point.next, longer, carryAll_snoc]

theorem HeldAt.mono {p : Point} (held : a.HeldAt access makes g f s p) (sub : s ⊆ t) :
    a.HeldAt access makes g f t p := by
  refine carryAll_mono ?_ _ held
  rintro (first | ⟨b, member, leads⟩)
  · exact Or.inl first
  · exact Or.inr ⟨b, sub member, leads⟩

/-- A fact is held where it was made in the block, or entered it, and no write came since. -/
theorem HeldAt.source {i k : Nat} (short : k ≤ (g.nodes i).length)
    (held : a.HeldAt access makes g f s ⟨i, k⟩) :
    a.Brought access makes g f [] ⟨i, k⟩ ∨
      (a.Enters g f s i ∧ ∃ ns, access.Clear f.var ns ∧ g.Trail ⟨i, 0⟩ ns [] ⟨i, k⟩) := by
  induction k with
  | zero => exact Or.inr ⟨held, [], Access.clear_nil, .here _⟩
  | succ k ih =>
      obtain ⟨n, here⟩ : ∃ n, g.At ⟨i, k⟩ n := ⟨_, List.getElem?_eq_getElem short⟩
      have one : g.Trail ⟨i, k⟩ [n] [] ⟨i, k + 1⟩ := .node here (.here _)
      rcases (heldAt_next here).mp held with ⟨origin, makesIt⟩ | ⟨earlier, spared⟩
      · exact Or.inl ⟨[], Access.clear_nil, Or.inr ⟨n, ⟨i, k⟩, origin, makesIt, here, .here _⟩⟩
      · have clear : access.Clear f.var [n] := by simp [spared]
        rcases ih (by omega) earlier with made | ⟨enters, ns, free, trail⟩
        · exact Or.inl (made.along one clear)
        · exact Or.inr ⟨enters, ns ++ [n], Access.clear_append.mpr ⟨free, clear⟩, trail.trans one⟩

/-! ## Passes -/

/-- The blocks a fact flows out of after `k` passes. -/
def reached (a : ForwardAnalysis) (access : Access) (makes : NodeId → String → Prop)
    (g : FlowGraph) (f : Fact) (k : Nat) : Set Nat :=
  (Sweep.pass (a.blockRule access makes g f) (List.range g.size))^[k] ∅

/-- The blocks it flows out of when pass `k + 1` comes to block `i`. -/
def underway (a : ForwardAnalysis) (access : Access) (makes : NodeId → String → Prop)
    (g : FlowGraph) (f : Fact) (k i : Nat) : Set Nat :=
  Sweep.pass (a.blockRule access makes g f) (List.range i) (a.reached access makes g f k)

theorem mem_underway {k i j : Nat} (low : i ≤ g.size) :
    j ∈ a.underway access makes g f k i ↔
      (j < i ∧ j ∈ a.reached access makes g f (k + 1)) ∨
        (i ≤ j ∧ j ∈ a.reached access makes g f k) := by
  rw [underway, Sweep.mem_pass_range_iff low, reached, reached, Function.iterate_succ_apply']

theorem mem_reached_succ {k i : Nat} (low : i < g.size) :
    i ∈ a.reached access makes g f (k + 1) ↔
      a.HeldAt access makes g f (a.underway access makes g f k i) (g.blockEnd i) := by
  rw [heldAt_blockEnd, reached, Function.iterate_succ_apply', Sweep.mem_pass_range low]
  rfl

theorem lt_size_of_mem_reached {k i : Nat} (member : i ∈ a.reached access makes g f k) :
    i < g.size :=
  Sweep.iterate_pass_bounded (fun _ listed => List.mem_range.mp listed) (fun _ none => none.elim)
    k i member

theorem reached_mono {k l : Nat} (le : k ≤ l) :
    a.reached access makes g f k ⊆ a.reached access makes g f l := by
  obtain ⟨more, rfl⟩ := Nat.exists_eq_add_of_le' le
  rw [reached, reached, Function.iterate_add_apply]
  exact Sweep.subset_iterate blockRule_increasing
    (supported_empty.iterate blockRule_increasing k) more

/-- Soundness: what flows out of a block has been brought to its end in that many rounds, the
block itself included. -/
theorem brought_of_mem_reached (k i : Nat) (member : i ∈ a.reached access makes g f (k + 1)) :
    ∃ left, a.Brought access makes g f left (g.blockEnd i) ∧ rounds (left ++ [i]) ≤ k + 1 := by
  have low := lt_size_of_mem_reached member
  rcases ((mem_reached_succ low).mp member).source (le_refl _) with
    made | ⟨⟨rfl, known⟩ | ⟨p, carrier, leads⟩, ns, clear, trail⟩
  · exact ⟨[], made, by simp [rounds]⟩
  · exact ⟨[], ⟨ns, clear, Or.inl ⟨known, trail⟩⟩, by simp [rounds]⟩
  · -- The fact left `p` earlier in this pass, or in the pass before.
    have further {left : List Nat} (brought : a.Brought access makes g f left (g.blockEnd p)) :
        a.Brought access makes g f (left ++ [p]) (g.blockEnd i) := by
      have crossed := brought.along (.edge leads trail) clear
      exact crossed
    rcases (mem_underway (Nat.le_of_lt low)).mp carrier with ⟨below, same⟩ | ⟨above, before⟩
    · obtain ⟨left, brought, few⟩ := brought_of_mem_reached k p same
      refine ⟨left ++ [p], further brought, ?_⟩
      rw [rounds_snoc, if_pos below]
      exact few
    · obtain ⟨k, rfl⟩ : ∃ l, k = l + 1 := by
        cases k with
        | zero => exact before.elim
        | succ l => exact ⟨l, rfl⟩
      obtain ⟨left, brought, few⟩ := brought_of_mem_reached k p before
      refine ⟨left ++ [p], further brought, ?_⟩
      rw [rounds_snoc]
      split <;> omega
termination_by (k, i)

/-- A trail inside one block takes a fact along. -/
theorem HeldAt.inside {p q : Point} {ns : List NodeId} (held : a.HeldAt access makes g f s p)
    (trail : g.Trail p ns [] q) (clear : access.Clear f.var ns) :
    a.HeldAt access makes g f s q := by
  generalize none_left : ([] : List Nat) = left at trail
  induction trail with
  | here => exact held
  | node before _ ih =>
      obtain ⟨spared, rest⟩ := Access.clear_cons.mp clear
      exact ih ((heldAt_next before).mpr (Or.inr ⟨held, spared⟩)) rest none_left
  | edge => cases none_left

/-- Completeness: a fact that is held when a pass comes to its place is taken along a trail in as
many passes as the blocks left need. -/
theorem heldAt_along {k : Nat} {p q : Point} {ns : List NodeId} {left : List Nat}
    (trail : g.Trail p ns left q) (clear : access.Clear f.var ns) (some_left : left ≠ [])
    (held : a.HeldAt access makes g f (a.underway access makes g f k p.block) p) :
    a.HeldAt access makes g f (a.reached access makes g f (k + rounds left)) q := by
  induction trail generalizing k with
  | here => exact absurd rfl some_left
  | node before _ ih =>
      obtain ⟨spared, rest⟩ := Access.clear_cons.mp clear
      exact ih rest some_left ((heldAt_next before).mpr (Or.inr ⟨held, spared⟩))
  | @edge i j q ns left leads trail ih =>
      have low := FlowGraph.lt_size_of_mem_succs leads
      have flows : i ∈ a.reached access makes g f (k + 1) := (mem_reached_succ low).mpr held
      cases left with
      | nil => exact (heldAt_start.mpr (Or.inr ⟨i, flows, leads⟩)).inside trail clear
      | cons b left =>
          obtain ⟨rfl, inside⟩ := trail.head_eq
          -- The next block is still to come in this pass, or has to wait for the next one.
          have arrives : a.HeldAt access makes g f (a.underway access makes g f
              (k + if i < b then 0 else 1) b) ⟨b, 0⟩ := by
            refine heldAt_start.mpr (Or.inr ⟨i, (mem_underway (Nat.le_of_lt inside)).mpr ?_, leads⟩)
            by_cases up : i < b
            · exact Or.inl ⟨up, by simpa [up] using flows⟩
            · exact Or.inr ⟨Nat.not_lt.mp up, by simpa [up] using flows⟩
          have reaches := ih clear (List.cons_ne_nil b left) arrives
          rwa [Nat.add_assoc] at reaches

/-- What is found at a place, whatever the cap: what trails bring there whose blocks can be left
within that many passes. -/
theorem Separable.mem_factsAt_iff (separable : a.Separable access makes) (cap : Nat) {p : Point}
    (inside : p.offset ≤ (g.nodes p.block).length) :
    f ∈ a.factsAt g (a.solve g cap).outs p ↔
      ∃ left, a.Brought access makes g f left p ∧ rounds left ≤ cap := by
  have carried : carriers (a.solve g cap).outs f = a.reached access makes g f cap := by
    rw [solve_outs]
    exact (separable.carriers_iterate cap).2
  have found : f ∈ a.factsAt g (a.solve g cap).outs p ↔
      a.HeldAt access makes g f (a.reached access makes g f cap) p := by
    rw [factsAt, separable.mem_through, propext mem_inflow, carried]
    rfl
  rw [found]
  constructor
  · intro held
    rcases held.source inside with made | ⟨⟨first, known⟩ | ⟨b, carrier, leads⟩, ns, clear, trail⟩
    · exact ⟨[], made, Nat.zero_le cap⟩
    · have entered : g.Trail g.start ns [] p := by
        rw [FlowGraph.start, ← first]
        exact trail
      exact ⟨[], ⟨ns, clear, Or.inl ⟨known, entered⟩⟩, Nat.zero_le cap⟩
    · obtain ⟨k, rfl⟩ : ∃ k, cap = k + 1 := by
        cases cap with
        | zero => exact carrier.elim
        | succ k => exact ⟨k, rfl⟩
      obtain ⟨left, brought, few⟩ := brought_of_mem_reached k b carrier
      exact ⟨left ++ [b], brought.along (.edge leads trail) clear, few⟩
  · rintro ⟨left, ⟨ns, clear, source⟩, few⟩
    -- Whatever flows out of the blocks, the fact is held where the trail starts.
    obtain ⟨q, trail, begins⟩ : ∃ q, g.Trail q ns left p ∧
        ∀ s, a.HeldAt access makes g f s q := by
      rcases source with ⟨known, trail⟩ | ⟨d, q, origin, makesIt, atD, trail⟩
      · exact ⟨g.start, trail, fun s => heldAt_start.mpr (Or.inl ⟨rfl, known⟩)⟩
      · exact ⟨q.next, trail, fun s => (heldAt_next atD).mpr (Or.inl ⟨origin, makesIt⟩)⟩
    cases left with
    | nil => exact (begins _).inside trail clear
    | cons b left =>
        have reaches := heldAt_along (k := 0) trail clear (List.cons_ne_nil b left) (begins _)
        rw [Nat.zero_add] at reaches
        exact reaches.mono (reached_mono few)

end ForwardAnalysis

end Retarget
