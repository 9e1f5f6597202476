/-
# Proofs.ControlDependence -- a node depends on the branches that can keep control from it

A node depends on an arm of a branch if a route leads from the arm to the node's block and meets
no block that control has to pass after the branch in any case (`ControlDep.Holds`).  The search
that stops at post-dominators finds these routes and no others (`mem_controlledBlocks`), so the
recorded control dependences are exactly these, and each is in the records of both ends once
(`controlDependences_exact`).

The textbook calls a block dependent on an arm if it post-dominates the arm but not the branch.
Where every block can reach the exit, each such block is found: were a block on the way to it
passed in any case, the branch could go on from there to the exit without it, and so could the
arm (`route_of_postDominates`).
-/
import Retarget.Proofs.DataDependence
import Retarget.Proofs.Grouping
import Retarget.Proofs.PostDominance
import Retarget.Proofs.Reach

namespace Retarget

open Retarget.Source (NodeId)

set_option autoImplicit false
set_option linter.dupNamespace false

/-! ## Routes -/

namespace FlowGraph

section Routes

variable {g : FlowGraph} {i j k x y : Nat} {blocks : List Nat}

theorem Route.snoc (route : g.Route i blocks j) (leads : k ∈ g.succs j) :
    g.Route i (blocks ++ [k]) k := by
  induction route with
  | here j => exact .step leads (.here k)
  | step first _ ih => exact .step first (ih leads)

theorem Route.start_mem (route : g.Route i blocks j) : i ∈ blocks := by
  cases route with
  | here => exact List.mem_singleton_self i
  | step => exact List.mem_cons_self

/-- One route may be followed by another. -/
theorem Route.join {more : List Nat} (route : g.Route i blocks j) (later : g.Route j more k) :
    ∃ all, g.Route i all k ∧ ∀ x ∈ all, x ∈ blocks ∨ x ∈ more := by
  induction route with
  | here => exact ⟨more, later, fun x member => Or.inr member⟩
  | step leads _ ih =>
      obtain ⟨all, joined, within⟩ := ih later
      refine ⟨_ :: all, .step leads joined, fun x member => ?_⟩
      rcases List.mem_cons.mp member with rfl | member
      · exact Or.inl List.mem_cons_self
      · exact (within x member).imp_left (List.mem_cons_of_mem _)

/-- From any block of a route the route goes on to its end. -/
theorem Route.resume (route : g.Route i blocks k) (member : x ∈ blocks) :
    ∃ rest, g.Route x rest k ∧ rest ⊆ blocks := by
  induction route with
  | here =>
      obtain rfl := List.mem_singleton.mp member
      exact ⟨[x], .here x, List.Subset.refl _⟩
  | step leads route ih =>
      rcases List.mem_cons.mp member with rfl | later
      · exact ⟨_, .step leads route, List.Subset.refl _⟩
      · obtain ⟨rest, goesOn, within⟩ := ih later
        exact ⟨rest, goesOn, List.subset_cons_of_subset _ within⟩

/-- A route as far as its first visit of `y`; each block before it can be reached without `y`. -/
theorem Route.upTo (route : g.Route i blocks k) (member : y ∈ blocks) :
    ∃ before, g.Route i (before ++ [y]) y ∧
      ∀ x ∈ before, ∃ part, g.Route i part x ∧ y ∉ part := by
  induction route with
  | here j =>
      obtain rfl := List.mem_singleton.mp member
      exact ⟨[], .here y, nofun⟩
  | @step i j k blocks leads route ih =>
      by_cases same : y = i
      · subst same
        exact ⟨[], .here y, nofun⟩
      · have later : y ∈ blocks := (List.mem_cons.mp member).resolve_left same
        obtain ⟨before, first, avoiding⟩ := ih later
        refine ⟨i :: before, .step leads first, fun x early => ?_⟩
        rcases List.mem_cons.mp early with rfl | early
        · exact ⟨[x], .here x, by simpa using same⟩
        · obtain ⟨part, reaches, absent⟩ := avoiding x early
          exact ⟨i :: part, .step leads reaches, by simp [same, absent]⟩

theorem Route.lt_size (route : g.Route i blocks k) (closed : g.Closed) (low : i < g.size) :
    ∀ x ∈ blocks, x < g.size := by
  induction route with
  | here => simpa using low
  | step leads _ ih => exact List.forall_mem_cons.mpr ⟨low, ih (closed _ low _ leads)⟩

theorem Route.end_mem (route : g.Route i blocks k) : k ∈ blocks := by
  induction route with
  | here => exact List.mem_singleton_self _
  | step _ _ ih => exact List.mem_cons_of_mem _ ih

/-- A search that enters only blocks that pass a test follows the routes that pass it. -/
theorem reachable_filter_iff (test : Nat → Bool) :
    Reachable (fun x => (g.succs x).filter test) ([i].filter test) y ↔
      ∃ blocks, g.Route i blocks y ∧ ∀ x ∈ blocks, test x = true := by
  constructor
  · rintro ⟨s, start, path⟩
    obtain ⟨same, passes⟩ := List.mem_filter.mp start
    obtain rfl := List.mem_singleton.mp same
    induction path with
    | refl => exact ⟨[s], .here s, by simpa using passes⟩
    | tail _ leads ih =>
        obtain ⟨blocks, route, each⟩ := ih
        obtain ⟨edge, passesNext⟩ := List.mem_filter.mp leads
        refine ⟨_, route.snoc edge, ?_⟩
        rw [List.forall_mem_append]
        exact ⟨each, by simpa using passesNext⟩
  · rintro ⟨blocks, route, each⟩
    refine ⟨i, List.mem_filter.mpr ⟨List.mem_singleton_self i, each i route.start_mem⟩, ?_⟩
    induction route with
    | here => exact .refl
    | step leads later ih =>
        have rest := (List.forall_mem_cons.mp each).2
        exact .head (List.mem_filter.mpr ⟨leads, rest _ later.start_mem⟩) (ih rest)

end Routes

/-- Every route from `b` to the exit goes through `x`. -/
def PostDominates (g : FlowGraph) (x b : Nat) : Prop :=
  ∀ blocks, g.Route b blocks g.exit → x ∈ blocks

/-- A block with two successors has a condition, and its arms are taken and skipped. -/
def Decides (g : FlowGraph) : Prop :=
  ∀ i < g.size, (g.labeledSuccs i).length = 2 →
    g.nodes i ≠ [] ∧ ((g.labeledSuccs i).map (·.2)).Perm [.taken, .skipped]

instance (g : FlowGraph) : Decidable g.Decides :=
  inferInstanceAs (Decidable (∀ i < g.size, (g.labeledSuccs i).length = 2 →
    g.nodes i ≠ [] ∧ ((g.labeledSuccs i).map (·.2)).Perm [.taken, .skipped]))

/-- The condition at the end of a block with two successors. -/
def condition? (g : FlowGraph) (b : Nat) : Option NodeId := (g.block? b).bind (·.terminator?)

/-- A route leads from the arm to `y` past no block that comes after `b` in any case. -/
def Governs (g : FlowGraph) (b arm y : Nat) : Prop :=
  ∃ blocks, g.Route arm blocks y ∧ ∀ x ∈ blocks, ¬ g.PostDominates x b

variable {g : FlowGraph}

theorem condition?_eq_some {b : Nat} {cond : NodeId} (ends : g.condition? b = some cond) :
    (g.labeledSuccs b).length = 2 ∧ cond ∈ g.nodes b := by
  obtain ⟨block, here, isLast⟩ := Option.bind_eq_some_iff.mp ends
  unfold Block.terminator? at isLast
  split at isLast
  · rename_i two
    have listed : cond ∈ block.nodes := List.mem_of_getLast? isLast
    exact ⟨by simpa [labeledSuccs, here] using two, by simpa [nodes, here] using listed⟩
  · cases isLast

theorem exists_condition {b : Nat} (decides : g.Decides) (low : b < g.size)
    (two : (g.labeledSuccs b).length = 2) : ∃ cond, g.condition? b = some cond := by
  obtain ⟨nonempty, -⟩ := decides b low two
  obtain ⟨block, here⟩ := Option.isSome_iff_exists.mp (block?_isSome.mpr low)
  have some : block.nodes ≠ [] := by simpa [nodes, here] using nonempty
  have arms : block.succs.length = 2 := by simpa [labeledSuccs, here] using two
  refine ⟨block.nodes.getLast some, ?_⟩
  simp [condition?, here, Block.terminator?, arms, List.getLast?_eq_some_getLast some]

/-- A node stands in one block. -/
theorem block_eq_of_mem (distinct : g.statements.Nodup) {n : NodeId} {i j : Nat}
    (inI : n ∈ g.nodes i) (inJ : n ∈ g.nodes j) : i = j := by
  obtain ⟨a, atI⟩ := List.mem_iff_getElem?.mp inI
  obtain ⟨b, atJ⟩ := List.mem_iff_getElem?.mp inJ
  have same : (⟨i, a⟩ : Point) = ⟨j, b⟩ := At.unique distinct atI atJ
  exact congrArg Point.block same

theorem nodes_nodup (distinct : g.statements.Nodup) (i : Nat) : (g.nodes i).Nodup := by
  by_cases low : i < g.blocks.length
  · rw [nodes_eq low]
    exact (List.nodup_flatMap.mp distinct).1 _ (List.getElem_mem low)
  · simp [nodes, block?, List.getElem?_eq_none (Nat.le_of_not_lt low)]

/-! ## The search -/

theorem mem_range_of_reachable (closed : g.Closed) {arm : Nat} (low : arm < g.size)
    (test : Nat → Bool) (x : Nat)
    (reachable : Reachable (fun x => (g.succs x).filter test) ([arm].filter test) x) :
    x ∈ List.range g.size := by
  obtain ⟨blocks, route, -⟩ := (reachable_filter_iff test).mp reachable
  exact List.mem_range.mpr (route.lt_size closed low x route.end_mem)

/-- The search from an arm meets the blocks that the branch governs. -/
theorem mem_controlledBlocks (closed : g.Closed) (leaves : g.Leaves) {cap b arm y : Nat}
    (enough : g.size ≤ cap) (lowB : b < g.size) (lowArm : arm < g.size) :
    y ∈ controlledBlocks g (g.postDominators cap) b arm ↔ g.Governs b arm y := by
  unfold controlledBlocks
  rw [mem_explore (mem_range_of_reachable closed lowArm _) (by rw [List.length_range]),
    reachable_filter_iff]
  refine exists_congr fun blocks => and_congr_right fun route => ?_
  refine forall₂_congr fun x member => ?_
  have low := route.lt_size closed lowArm x member
  rw [PostDominates, ← has_postDominators_iff closed leaves enough low lowB, Bool.not_eq_true',
    Bool.not_eq_true]

theorem controlledBlocks_nodup (closed : g.Closed) (sets : List BlockSet) {b arm : Nat}
    (lowArm : arm < g.size) : (controlledBlocks g sets b arm).Nodup :=
  explore_nodup (mem_range_of_reachable closed lowArm _) (by rw [List.length_range])

/-- A block that post-dominates the arm but not the branch is governed by the arm. -/
theorem route_of_postDominates {b arm y : Nat} (leaves : ∃ blocks, g.Route arm blocks g.exit)
    (after : g.PostDominates y arm) (notAfter : ¬ g.PostDominates y b) : g.Governs b arm y := by
  obtain ⟨blocks, route⟩ := leaves
  obtain ⟨before, first, avoiding⟩ := route.upTo (after blocks route)
  refine ⟨before ++ [y], first, fun x member passed => ?_⟩
  rcases List.mem_append.mp member with early | last
  · -- from the branch control can go past `y` to the exit, and it passes `x` on the way
    obtain ⟨around, avoids⟩ := not_forall.mp notAfter
    obtain ⟨bypass, absent⟩ := Classical.not_imp.mp avoids
    obtain ⟨rest, goesOn, within⟩ := bypass.resume (passed around bypass)
    obtain ⟨part, reaches, apart⟩ := avoiding x early
    obtain ⟨all, joined, known⟩ := reaches.join goesOn
    rcases known y (after all joined) with inPart | inRest
    · exact apart inPart
    · exact absent (within inRest)
  · obtain rfl := List.mem_singleton.mp last
    exact notAfter passed

end FlowGraph

/-! ## Dependences in terms of routes -/

/-- What a control dependence says about routes. -/
def ControlDep.Holds (g : FlowGraph) (d : ControlDep) : Prop :=
  ∃ b arm label y, g.condition? b = some d.controller ∧ (arm, label) ∈ g.labeledSuccs b ∧
    (label == .taken) = d.branch ∧ g.Governs b arm y ∧ d.dependent ∈ g.nodes y

namespace DepTable

theorem foldl_addControl_control (deps : List ControlDep) (t : DepTable) (m : NodeId) :
    ((deps.foldl addControl t).record m).control
      = (t.record m).control ++ deps.filter fun d => m = d.controller ∨ m = d.dependent := by
  induction deps generalizing t with
  | nil => simp
  | cons d deps ih =>
      rw [List.foldl_cons, ih, addControl, record_enter, List.filter_cons]
      by_cases touches : m = d.controller ∨ m = d.dependent <;> simp [touches]

theorem foldl_addData_control (deps : List DataDep) (t : DepTable) (m : NodeId) :
    ((deps.foldl addData t).record m).control = (t.record m).control := by
  induction deps generalizing t with
  | nil => rfl
  | cons d deps ih =>
      rw [List.foldl_cons, ih, addData, record_enter]
      split <;> rfl

end DepTable

theorem record_control (g : FlowGraph) (access : Access) (params : List String) (cap : Nat)
    (n : NodeId) : ((analyzeFlow g access params cap).deps.record n).control
      = (controlDeps g (g.postDominators cap)).filter
          fun d => n = d.controller ∨ n = d.dependent := by
  simp only [analyzeFlow, DepTable.foldl_addControl_control, DepTable.foldl_addData_control]
  rfl

section Found

variable {g : FlowGraph} {cap : Nat}

theorem mem_controlDepsOf {sets : List BlockSet} {b : Nat} {d : ControlDep} :
    d ∈ controlDepsOf g sets b ↔ g.condition? b = some d.controller ∧
      ∃ arm label, (arm, label) ∈ g.labeledSuccs b ∧ (label == .taken) = d.branch ∧
        ∃ y ∈ controlledBlocks g sets b arm, d.dependent ∈ g.nodes y := by
  obtain ⟨controller, dependent, branch⟩ := d
  rw [controlDepsOf, ← FlowGraph.condition?]
  cases ends : g.condition? b with
  | none => simp
  | some cond =>
      simp only [List.mem_flatMap, List.mem_map, ControlDep.mk.injEq, Prod.exists,
        Option.some.injEq]
      grind

theorem lt_size_of_mem_labeledSuccs {b arm : Nat} {label : BranchLabel} (closed : g.Closed)
    (listed : (arm, label) ∈ g.labeledSuccs b) : b < g.size ∧ arm < g.size := by
  have leads : arm ∈ g.succs b := List.mem_map.mpr ⟨(arm, label), listed, rfl⟩
  have low := FlowGraph.lt_size_of_mem_succs leads
  exact ⟨low, closed b low arm leads⟩

theorem mem_controlDeps_iff (closed : g.Closed) (leaves : g.Leaves) (enough : g.size ≤ cap)
    {d : ControlDep} : d ∈ controlDeps g (g.postDominators cap) ↔ d.Holds g := by
  rw [controlDeps, List.mem_flatMap]
  constructor
  · rintro ⟨b, -, found⟩
    obtain ⟨ends, arm, label, listed, side, y, met, stands⟩ := mem_controlDepsOf.mp found
    obtain ⟨lowB, lowArm⟩ := lt_size_of_mem_labeledSuccs closed listed
    exact ⟨b, arm, label, y, ends, listed, side,
      (FlowGraph.mem_controlledBlocks closed leaves enough lowB lowArm).mp met, stands⟩
  · rintro ⟨b, arm, label, y, ends, listed, side, governs, stands⟩
    obtain ⟨lowB, lowArm⟩ := lt_size_of_mem_labeledSuccs closed listed
    refine ⟨b, List.mem_range.mpr lowB, mem_controlDepsOf.mpr ⟨ends, arm, label, listed, side, y, ?_,
      stands⟩⟩
    exact (FlowGraph.mem_controlledBlocks closed leaves enough lowB lowArm).mpr governs

/-! ## Each dependence once -/

/-- The arms of a condition are told apart by the outcome they stand for. -/
theorem arm_eq_of_outcome (decides : g.Decides) {b : Nat} (low : b < g.size)
    (two : (g.labeledSuccs b).length = 2) :
    (g.labeledSuccs b).Nodup ∧ ∀ e ∈ g.labeledSuccs b, ∀ f ∈ g.labeledSuccs b,
      (e.2 == .taken) = (f.2 == .taken) → e = f := by
  obtain ⟨-, labels⟩ := decides b low two
  have distinct : ((g.labeledSuccs b).map (·.2)).Nodup := labels.nodup_iff.mpr (by decide)
  refine ⟨distinct.of_map _, fun e inE f inF same => ?_⟩
  apply List.inj_on_of_nodup_map distinct inE inF
  have labelE := labels.mem_iff.mp (List.mem_map_of_mem (f := (·.2)) inE)
  have labelF := labels.mem_iff.mp (List.mem_map_of_mem (f := (·.2)) inF)
  simp only [List.mem_cons, List.not_mem_nil, or_false] at labelE labelF
  rcases labelE with atE | atE <;> rcases labelF with atF | atF <;> simp_all

theorem controlDepsOf_nodup (distinct : g.statements.Nodup) (closed : g.Closed)
    (decides : g.Decides) (sets : List BlockSet) (b : Nat) : (controlDepsOf g sets b).Nodup := by
  rw [controlDepsOf, ← FlowGraph.condition?]
  cases ends : g.condition? b with
  | none => exact List.nodup_nil
  | some cond =>
      have two := (FlowGraph.condition?_eq_some ends).1
      have low : b < g.size := by
        obtain ⟨block, here, -⟩ := Option.bind_eq_some_iff.mp ends
        exact FlowGraph.block?_isSome.mp (Option.isSome_iff_exists.mpr ⟨block, here⟩)
      obtain ⟨once, told⟩ := arm_eq_of_outcome decides low two
      refine nodup_flatMap_of_apart once ?_ ?_
      · rintro ⟨arm, label⟩ listed
        have lowArm := (lt_size_of_mem_labeledSuccs closed listed).2
        refine nodup_flatMap_of_apart (FlowGraph.controlledBlocks_nodup closed sets lowArm) ?_ ?_
        · intro y _
          exact (FlowGraph.nodes_nodup distinct y).map fun n m same =>
            congrArg ControlDep.dependent same
        · intro y _ y' _ d inY inY'
          obtain ⟨n, stands, rfl⟩ := List.mem_map.mp inY
          obtain ⟨m, stands', same⟩ := List.mem_map.mp inY'
          obtain rfl : m = n := congrArg ControlDep.dependent same
          exact FlowGraph.block_eq_of_mem distinct stands stands'
      · rintro ⟨arm, label⟩ listed ⟨arm', label'⟩ listed' d left right
        simp only [List.mem_flatMap, List.mem_map] at left right
        obtain ⟨y, -, n, -, rfl⟩ := left
        obtain ⟨y', -, m, -, same⟩ := right
        exact told _ listed _ listed' (congrArg ControlDep.branch same).symm

theorem controlDeps_nodup (distinct : g.statements.Nodup) (closed : g.Closed)
    (decides : g.Decides) (sets : List BlockSet) : (controlDeps g sets).Nodup := by
  refine nodup_flatMap_of_apart List.nodup_range ?_ ?_
  · intro b _
    exact controlDepsOf_nodup distinct closed decides sets b
  · intro b _ b' _ d left right
    have inB := (FlowGraph.condition?_eq_some (mem_controlDepsOf.mp left).1).2
    have inB' := (FlowGraph.condition?_eq_some (mem_controlDepsOf.mp right).1).2
    exact FlowGraph.block_eq_of_mem distinct inB inB'

end Found

/-- With as many passes as there are blocks, the recorded control dependences are exactly those
that routes make.  Each is in the records of its condition and of its dependent, once each and
once in all where they coincide, and nowhere else.  Where every block can reach the exit, they
include every node of every block that depends on an arm in the textbook's sense. -/
theorem controlDependences_exact (g : FlowGraph) (access : Access) (params : List String)
    (cap : Nat) (distinct : g.statements.Nodup) (closed : g.Closed) (leaves : g.Leaves)
    (decides : g.Decides) (enough : g.size ≤ cap) :
    let deps := (analyzeFlow g access params cap).deps
    (∀ d : ControlDep, (∃ n, d ∈ (deps.record n).control) ↔ d.Holds g) ∧
    (∀ d : ControlDep, d.Holds g → ∀ n,
      (deps.record n).control.count d = if n = d.controller ∨ n = d.dependent then 1 else 0) ∧
    ((∀ i < g.size, ∃ blocks, g.Route i blocks g.exit) →
      ∀ b < g.size, (g.labeledSuccs b).length = 2 → ∀ arm label, (arm, label) ∈ g.labeledSuccs b →
      ∀ y, y ≠ b → g.PostDominates y arm → ¬ g.PostDominates y b →
      ∃ cond, g.condition? b = some cond ∧ ∀ n ∈ g.nodes y,
        (⟨cond, n, label == .taken⟩ : ControlDep) ∈ (deps.record cond).control ∧
        (⟨cond, n, label == .taken⟩ : ControlDep) ∈ (deps.record n).control) := by
  intro deps
  have once := controlDeps_nodup distinct closed decides (g.postDominators cap)
  have listed : ∀ n d, d ∈ (deps.record n).control ↔
      d.Holds g ∧ (n = d.controller ∨ n = d.dependent) := by
    intro n d
    rw [record_control, List.mem_filter, mem_controlDeps_iff closed leaves enough]
    simp
  refine ⟨fun d => ?_, fun d holds n => ?_, fun exits b low two arm label arms y _ after notAfter => ?_⟩
  · constructor
    · rintro ⟨n, member⟩
      exact ((listed n d).mp member).1
    · intro holds
      exact ⟨d.controller, (listed _ d).mpr ⟨holds, Or.inl rfl⟩⟩
  · have single : (deps.record n).control.Nodup := by
      rw [record_control]
      exact once.filter _
    split
    · rename_i touches
      exact List.count_eq_one_of_mem single ((listed n d).mpr ⟨holds, touches⟩)
    · rename_i apart
      exact List.count_eq_zero.mpr fun member => apart ((listed n d).mp member).2
  · obtain ⟨cond, ends⟩ := FlowGraph.exists_condition decides low two
    have lowArm := (lt_size_of_mem_labeledSuccs closed arms).2
    have governs := FlowGraph.route_of_postDominates (exits arm lowArm) after notAfter
    refine ⟨cond, ends, fun n stands => ?_⟩
    have holds : (⟨cond, n, label == .taken⟩ : ControlDep).Holds g :=
      ⟨b, arm, label, y, ends, arms, rfl, governs, stands⟩
    exact ⟨(listed _ _).mpr ⟨holds, Or.inl rfl⟩, (listed _ _).mpr ⟨holds, Or.inr rfl⟩⟩

/-- Node 2 tests a loop, node 3 leaves it early by way of node 4, node 5 goes round again. -/
def earlyExit : FlowGraph where
  blocks := [
    ⟨.body, [1], [(1, .always)], none⟩,
    ⟨.forLoop, [2], [(2, .taken), (5, .skipped)], none⟩,
    ⟨.forBody, [3], [(3, .taken), (4, .skipped)], none⟩,
    ⟨.ifThen, [4], [(5, .always)], none⟩,
    ⟨.ifDone, [5], [(1, .always)], none⟩,
    ⟨.exit, [], [], none⟩]

theorem earlyExit_exits : ∀ i < earlyExit.size, ∃ blocks, earlyExit.Route i blocks earlyExit.exit := by
  have fromTest : earlyExit.Route 1 [1, 5] 5 := .step (by decide) (.here 5)
  have fromBreak : earlyExit.Route 3 [3, 5] 5 := .step (by decide) (.here 5)
  intro i low
  match i, low with
  | 0, _ => exact ⟨_, .step (by decide) fromTest⟩
  | 1, _ => exact ⟨_, fromTest⟩
  | 2, _ => exact ⟨_, .step (by decide) fromBreak⟩
  | 3, _ => exact ⟨_, fromBreak⟩
  | 4, _ => exact ⟨_, .step (by decide) fromTest⟩
  | 5, _ => exact ⟨_, .here 5⟩

/-- Going round again depends on both tests, each time once in its record; on the second one in the
textbook's sense. -/
theorem controlDependences_exact_break :
    earlyExit.statements.Nodup ∧ earlyExit.Closed ∧ earlyExit.Leaves ∧ earlyExit.Decides ∧
    (let deps := (analyzeFlow earlyExit countingAccess [] 6).deps
    (⟨2, 5, true⟩ : ControlDep).Holds earlyExit ∧
    (deps.record 5).control.count ⟨2, 5, true⟩ = 1 ∧
    earlyExit.PostDominates 4 4 ∧ ¬ earlyExit.PostDominates 4 2 ∧
    (⟨3, 5, false⟩ : ControlDep) ∈ (deps.record 5).control) := by
  have distinct : earlyExit.statements.Nodup := by decide
  have closed : earlyExit.Closed := by decide
  have leaves : earlyExit.Leaves := by decide
  have decides : earlyExit.Decides := by decide
  obtain ⟨exactly, counted, textbook⟩ := controlDependences_exact earlyExit countingAccess [] 6
    distinct closed leaves decides (by decide)
  have holds := (exactly ⟨2, 5, true⟩).mp ⟨5, by decide⟩
  have itself : earlyExit.PostDominates 4 4 := fun blocks route => route.start_mem
  have around : ¬ earlyExit.PostDominates 4 2 := by
    intro passed
    have bypass : earlyExit.Route 2 [2, 3, 5] 5 := .step (by decide) (.step (by decide) (.here 5))
    exact absurd (passed _ bypass) (by decide)
  obtain ⟨cond, ends, recorded⟩ := textbook earlyExit_exits 2 (by decide) (by decide) 4 .skipped
    (by decide) 4 (by decide) itself around
  obtain rfl : 3 = cond := Option.some.inj ends
  exact ⟨distinct, closed, leaves, decides, holds, counted _ holds 5, itself, around,
    (recorded 5 (by decide)).2⟩

end Retarget
