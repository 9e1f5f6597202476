/-
# Proofs.Convergence -- how many passes a forward analysis takes

The passes of an analysis go on until one of them changes nothing.  The number of passes that
takes is a matter of the graph alone: a cap of at least that many is never hit, and a lower one always
is (`Takes`).  What comes out is the least solution of the equations of the blocks (`Least`):
every other one holds all of its facts.

For the two analyses of a kernel one pass more than there are blocks is enough, in whatever order
the blocks are numbered (`solve_converges`), and some graphs need that many
(`solve_converges_backwards`).
-/
import Retarget.Proofs.ReachingDefinitions

namespace Retarget

open Retarget.Source (NodeId)

set_option autoImplicit false
set_option linter.dupNamespace false

namespace ForwardAnalysis

variable {a : ForwardAnalysis} {access : Access} {makes : NodeId → String → Prop}
variable {g : FlowGraph} {f : Fact} {outs : List Facts}

/-! ## The least solution -/

/-- What the blocks make of what flows out of them flows out of them. -/
def Closed (a : ForwardAnalysis) (g : FlowGraph) (outs : List Facts) : Prop :=
  ∀ i < g.size, ∀ f ∈ a.through (g.nodes i) (a.inflow g outs i), f ∈ outs.getD i []

theorem Settled.closed (settled : a.Settled g outs) : a.Closed g outs :=
  fun i low f => (settled i low f).mp

/-- A solution of the equations of the blocks whose facts are in every other one. -/
structure Least (a : ForwardAnalysis) (g : FlowGraph) (outs : List Facts) : Prop where
  settled : a.Settled g outs
  below : ∀ other, a.Closed g other → ∀ i, ∀ f ∈ outs.getD i [], f ∈ other.getD i []

/-- No pass leaves a closed assignment. -/
theorem Separable.iterate_below (separable : a.Separable access makes) {other : List Facts}
    (closed : a.Closed g other) (k i : Nat)
    (found : f ∈ ((a.afterPass g)^[k] (List.replicate g.size [])).getD i []) :
    f ∈ other.getD i [] := by
  obtain ⟨long, carried⟩ := separable.carriers_iterate (g := g) (f := f) k
  -- Numbers beyond the last block are harmless: nothing leads on from there.
  let bound : Set Nat := carriers other f ∪ {j | g.size ≤ j}
  have kept : ∀ j, a.blockRule access makes g f bound j → j ∈ bound := by
    intro j holds
    by_cases low : j < g.size
    · refine Or.inl (closed j low f ((separable.mem_block other j).mpr ?_))
      refine carryAll_mono ?_ _ holds
      rintro (first | ⟨p, member | beyond, leads⟩)
      · exact Or.inl first
      · exact Or.inr ⟨p, member, leads⟩
      · exact absurd (FlowGraph.lt_size_of_mem_succs leads) (Nat.not_lt.mpr beyond)
    · exact Or.inr (Nat.not_lt.mp low)
  have within : (Sweep.pass (a.blockRule access makes g f) (List.range g.size))^[k] ∅ ⊆ bound :=
    Sweep.iterate_pass_subset blockRule_increasing kept (Set.empty_subset bound) k
  rw [← carried] at within
  rcases within found with member | beyond
  · exact member
  · rw [List.getD_eq_getElem?_getD, List.getElem?_eq_none (long.symm ▸ beyond)] at found
    cases found

/-! ## The number of passes -/

/-- The first passes that settle the blocks are all there are, unless the cap is lower. -/
theorem iterate_eq_of_settled {k : Nat} (settled : a.Settled g ((a.afterPass g)^[k] outs))
    (first : ∀ j < k, ¬a.Settled g ((a.afterPass g)^[j] outs)) {cap : Nat} (enough : k < cap)
    (done : Nat) : a.iterate g cap done outs = ⟨(a.afterPass g)^[k] outs, done + k + 1, true⟩ := by
  induction k generalizing cap done outs with
  | zero =>
      obtain ⟨cap, rfl⟩ := Nat.exists_eq_succ_of_ne_zero (Nat.ne_of_gt enough)
      have quiet : a.pass g outs = (outs, false) := pass_of_quiet (pass_quiet_iff.mpr settled)
      simp [iterate, quiet]
  | succ k ih =>
      obtain ⟨cap, rfl⟩ := Nat.exists_eq_succ_of_ne_zero (Nat.ne_of_gt (Nat.lt_trans k.succ_pos enough))
      have moved : (a.pass g outs).2 = true := by
        rw [← Bool.not_eq_false, pass_quiet_iff]
        exact first 0 k.succ_pos
      have passed : a.pass g outs = (a.afterPass g outs, true) := Prod.ext rfl moved
      rw [Function.iterate_succ_apply] at settled ⊢
      have rest := ih settled (fun j low => by
        have := first (j + 1) (by omega)
        rwa [Function.iterate_succ_apply] at this) (by omega : k < cap) (done + 1)
      rw [iterate, passed]
      simp only [rest, Outcome.mk.injEq, and_true, true_and]
      omega

/-- How many passes an analysis takes, and what they lead to: a cap that allows for them is not
hit, and a lower one is. -/
structure Takes (a : ForwardAnalysis) (g : FlowGraph) (k : Nat) (outs : List Facts) : Prop where
  least : a.Least g outs
  solved : ∀ cap, k ≤ cap → a.solve g cap = ⟨outs, k, true⟩
  stopped : ∀ cap, cap < k → (a.solve g cap).converged = false

/-- One pass more than there are blocks is enough. -/
theorem Separable.exists_takes (separable : a.Separable access makes) (g : FlowGraph) :
    ∃ k outs, k ≤ g.size + 1 ∧ a.Takes g k outs := by
  classical
  let after (k : Nat) : List Facts := (a.afterPass g)^[k] (List.replicate g.size [])
  obtain ⟨m, within, settles⟩ : ∃ k < g.size + 1, a.Settled g (after k) :=
    (iterate_converged_iff (g.size + 1) 0 _).mp (separable.solve_converged (le_refl _))
  have exists_ : ∃ k, a.Settled g (after k) := ⟨m, settles⟩
  let k := Nat.find exists_
  have settled : a.Settled g (after k) := Nat.find_spec exists_
  have first : ∀ j < k, ¬a.Settled g (after j) := fun j low => Nat.find_min exists_ low
  have few : k ≤ m := Nat.find_min' exists_ settles
  refine ⟨k + 1, after k, by omega, ⟨settled, ?_⟩, ?_, ?_⟩
  · intro other closed i f found
    exact separable.iterate_below closed k i found
  · intro cap enough
    have run := iterate_eq_of_settled settled first enough 0
    rwa [Nat.zero_add] at run
  · intro cap low
    rw [← Bool.not_eq_true, solve, iterate_converged_iff]
    rintro ⟨j, early, settles⟩
    exact first j (by omega) settles

end ForwardAnalysis

/-! ## The two analyses of a kernel -/

/-- Both analyses converge after at most one pass more than there are blocks, however these are
numbered, and what flows out of the blocks then is the least solution of their equations.  With a
cap that allows for that many passes this is what is reported. -/
theorem solve_converges (g : FlowGraph) (access : Access) (params : List String) :
    ∃ k l defs uses, k ≤ g.size + 1 ∧ l ≤ g.size + 1 ∧
      (reachingDefs access params).Takes g k defs ∧ (reachingUses access).Takes g l uses ∧
      ∀ cap, g.size + 1 ≤ cap → let facts := analyzeFlow g access params cap
        facts.converged = true ∧ facts.passes = k ∧
          facts.defsBefore = (reachingDefs access params).before g defs ∧
          facts.usesConverged = true ∧ facts.usesPasses = l := by
  obtain ⟨k, defs, few, takes⟩ := (reachingDefs_separable access params).exists_takes g
  obtain ⟨l, uses, few', takes'⟩ := (reachingUses_separable access).exists_takes g
  refine ⟨k, l, defs, uses, few, few', takes, takes', fun cap enough => ?_⟩
  have solved := takes.solved cap (few.trans enough)
  have solved' := takes'.solved cap (few'.trans enough)
  simp only [analyzeFlow, solved, solved', and_self]

/-- Four blocks in a row, the first to run numbered last. -/
def backwards : FlowGraph where
  blocks := [
    ⟨.exit, [0], [], none⟩,
    ⟨.body, [1], [(0, .always)], none⟩,
    ⟨.body, [2], [(1, .always)], none⟩,
    ⟨.body, [3], [(2, .always)], none⟩]

def backwardsAccess : Access where
  defs n := if n = 3 then ["x"] else []
  uses n := if n = 3 then ["y"] else []

/-- Each pass brings both facts on by one block, so the bound is met: four blocks take five
passes, and with four the last change has not been seen to be the last. -/
theorem solve_converges_backwards :
    backwards.size + 1 ≤ 5 ∧
    (analyzeFlow backwards backwardsAccess [] 5).converged = true ∧
    (analyzeFlow backwards backwardsAccess [] 5).passes = backwards.size + 1 ∧
    (analyzeFlow backwards backwardsAccess [] 5).usesPasses = backwards.size + 1 ∧
    (analyzeFlow backwards backwardsAccess [] 4).converged = false := by
  have enough : backwards.size + 1 ≤ 5 := by decide
  obtain ⟨k, l, _, _, -, -, takes, -, reported⟩ := solve_converges backwards backwardsAccess []
  obtain ⟨converged, passes, -, -, usesPasses⟩ := reported 5 enough
  have five : (analyzeFlow backwards backwardsAccess [] 5).passes = backwards.size + 1 := by decide
  have also : (analyzeFlow backwards backwardsAccess [] 5).usesPasses = backwards.size + 1 := by
    decide
  refine ⟨enough, converged, five, also, ?_⟩
  have late : 4 < k := by
    rw [← passes, five]
    decide
  exact takes.stopped 4 late

end Retarget
