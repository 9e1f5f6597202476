/-
# Proofs.PostDominance -- post-dominators are what no route to the exit avoids

Watched for one block `x`, the shrinking sets are a growing one: the blocks whose set has lost
`x` (`losers`).  A pass puts a block there if it is not `x` and some successor is there already
(`avoidRule`), starting from the exit.  That is how the routes to the exit that avoid `x` are
built, so as many passes as there are blocks leave exactly the blocks with such a route
(`mem_losers_iff`); a block that cannot reach the exit keeps everything.  `postDominates_iff_routes`
is the same for the questions asked of a built kernel.
-/
import Retarget.Proofs.BlockSet
import Retarget.Proofs.FlowPath
import Retarget.Proofs.Sweep
import Retarget.PropertyGraph.Query

namespace Retarget

open Retarget.Source (NodeId)

set_option autoImplicit false
set_option linter.dupNamespace false

namespace FlowGraph

variable (g : FlowGraph)

/-- Every edge leads to a block of the graph. -/
def Closed : Prop := ∀ i < g.size, ∀ j ∈ g.succs i, j < g.size

instance : Decidable g.Closed :=
  inferInstanceAs (Decidable (∀ i < g.size, ∀ j ∈ g.succs i, j < g.size))

/-- Every block but the exit has a successor. -/
def Leaves : Prop := ∀ i < g.size, i ≠ g.exit → g.succs i ≠ []

instance : Decidable g.Leaves :=
  inferInstanceAs (Decidable (∀ i < g.size, i ≠ g.exit → g.succs i ≠ []))

/-- A set for every block, with room for all blocks. -/
structure Fits (sets : List BlockSet) : Prop where
  length : sets.length = g.size
  room : ∀ i < g.size, (sets.getD i []).length = BlockSet.words g.size

/-- The blocks whose set is without `x`. -/
def losers (x : Nat) (sets : List BlockSet) : Set Nat :=
  {i | i < g.size ∧ (sets.getD i []).has x = false}

/-- When the set of a block loses `x`. -/
def avoidRule (x : Nat) : Sweep.Rule := fun s i => i ≠ x ∧ ∃ j ∈ g.succs i, j ∈ s

/-- The blocks a pass recomputes, in order. -/
def recomputed : List Nat := (List.range g.size).reverse.filter (· != g.exit)

variable {g} {x i : Nat} {sets : List BlockSet}

theorem mem_losers : i ∈ g.losers x sets ↔ i < g.size ∧ (sets.getD i []).has x = false := Iff.rfl

theorem avoidRule_increasing : (g.avoidRule x).Increasing := by
  rintro s t sub i ⟨other, j, leads, member⟩
  exact ⟨other, j, leads, sub member⟩

/-! ## One step -/

theorem has_foldl_inter (rest : List Nat) (first : BlockSet) :
    (rest.foldl (fun acc t => acc.inter (sets.getD t [])) first).has x =
      (first.has x && rest.all fun t => (sets.getD t []).has x) := by
  induction rest generalizing first with
  | nil => simp
  | cons t rest ih => rw [List.foldl_cons, ih, BlockSet.has_inter, List.all_cons, Bool.and_assoc]

theorem length_foldl_inter {n : Nat} {rest : List Nat} {first : BlockSet}
    (long : first.length = n) (others : ∀ t ∈ rest, (sets.getD t []).length = n) :
    (rest.foldl (fun acc t => acc.inter (sets.getD t [])) first).length = n := by
  induction rest generalizing first with
  | nil => exact long
  | cons t rest ih =>
      exact ih (BlockSet.length_inter long (others t List.mem_cons_self))
        fun u member => others u (List.mem_cons_of_mem t member)

theorem Fits.room_succs (fits : g.Fits sets) (closed : g.Closed) {j : Nat}
    (leads : j ∈ g.succs i) : (sets.getD j []).length = BlockSet.words g.size :=
  fits.room j (closed i (lt_size_of_mem_succs leads) j leads)

theorem length_postDomStep (fits : g.Fits sets) (closed : g.Closed) :
    (g.postDomStep sets i).length = BlockSet.words g.size := by
  unfold postDomStep
  rw [BlockSet.length_insert]
  split
  · exact BlockSet.length_none g.size
  · rename_i first rest listed
    refine length_foldl_inter (fits.room_succs closed (i := i) ?_) fun t member => ?_
    · simp [listed]
    · exact fits.room_succs closed (i := i) (by simp [listed, member])

/-- The recomputed set holds the block itself and what every successor has. -/
theorem has_postDomStep (fits : g.Fits sets) (closed : g.Closed) (low : i < g.size)
    (leaves : g.succs i ≠ []) :
    (g.postDomStep sets i).has x = true ↔
      x = i ∨ ∀ j ∈ g.succs i, (sets.getD j []).has x = true := by
  cases listed : g.succs i with
  | nil => exact absurd listed leaves
  | cons first rest =>
      have long : (rest.foldl (fun acc t => acc.inter (sets.getD t [])) (sets.getD first [])).length
          = BlockSet.words g.size := by
        refine length_foldl_inter (fits.room_succs closed (i := i) ?_) fun t member => ?_
        · simp [listed]
        · exact fits.room_succs closed (i := i) (by simp [listed, member])
      have step : g.postDomStep sets i
          = (rest.foldl (fun acc t => acc.inter (sets.getD t [])) (sets.getD first [])).insert i := by
        simp only [postDomStep, listed]
      rw [step, BlockSet.has_insert (by rw [long]; exact BlockSet.word_lt low), has_foldl_inter]
      simp only [Bool.or_eq_true, Bool.and_eq_true, List.all_eq_true, beq_iff_eq,
        List.forall_mem_cons]
      grind

theorem not_has_postDomStep (fits : g.Fits sets) (closed : g.Closed) (low : i < g.size)
    (leaves : g.succs i ≠ []) :
    (g.postDomStep sets i).has x = false ↔ g.avoidRule x (g.losers x sets) i := by
  rw [← Bool.not_eq_true, has_postDomStep fits closed low leaves]
  simp only [avoidRule, mem_losers, not_or, not_forall, Bool.not_eq_true]
  constructor
  · rintro ⟨other, j, leads, lost⟩
    exact ⟨Ne.symm other, j, leads, closed i low j leads, lost⟩
  · rintro ⟨other, j, leads, -, lost⟩
    exact ⟨Ne.symm other, j, leads, lost⟩

/-! ## Visits and passes -/

theorem postDomVisit_exit (state : List BlockSet × Bool) :
    g.postDomVisit state g.exit = state := by
  simp [postDomVisit]

theorem postDomVisit_eq (state : List BlockSet × Bool) (inner : i ≠ g.exit) :
    g.postDomVisit state i =
      if g.postDomStep state.1 i == state.1.getD i [] then state
      else (state.1.set i (g.postDomStep state.1 i), true) := by
  simp only [postDomVisit, beq_iff_eq, inner, if_false]

/-- Whether or not it writes, a visit leaves the recomputed set behind. -/
theorem getD_postDomVisit (state : List BlockSet × Bool) (low : i < state.1.length)
    (inner : i ≠ g.exit) (j : Nat) :
    (g.postDomVisit state i).1.getD j [] =
      if j = i then g.postDomStep state.1 i else state.1.getD j [] := by
  rw [postDomVisit_eq state inner]
  by_cases same : j = i
  · subst same
    split
    · rename_i unchanged
      simpa using (beq_iff_eq.mp unchanged).symm
    · simp [low]
  · rw [if_neg same]
    split
    · rfl
    · simp [List.getElem?_set_ne (Ne.symm same)]

theorem Fits.visit {state : List BlockSet × Bool} (fits : g.Fits state.1) (closed : g.Closed)
    (low : i < g.size) (inner : i ≠ g.exit) : g.Fits (g.postDomVisit state i).1 := by
  have inside : i < state.1.length := by rw [fits.length]; exact low
  refine ⟨?_, fun j bound => ?_⟩
  · rw [postDomVisit_eq state inner]
    split
    · exact fits.length
    · simpa using fits.length
  · rw [getD_postDomVisit state inside inner]
    split
    · exact length_postDomStep fits closed
    · exact fits.room j bound

theorem losers_visit {state : List BlockSet × Bool} (fits : g.Fits state.1) (closed : g.Closed)
    (low : i < g.size) (inner : i ≠ g.exit) (leaves : g.succs i ≠ []) :
    g.losers x (g.postDomVisit state i).1
      = Sweep.visit (g.avoidRule x) (g.losers x state.1) i := by
  have inside : i < state.1.length := by rw [fits.length]; exact low
  ext j
  rw [mem_losers, Sweep.mem_visit, getD_postDomVisit state inside inner]
  by_cases same : j = i
  · subst same
    simp [low, not_has_postDomStep fits closed low leaves]
  · simp [same, mem_losers]

/-- Visits from the last block to the first act on the losers of `x` as a sweep. -/
theorem losers_foldl (closed : g.Closed) (leaves : g.Leaves) {order : List Nat}
    (low : ∀ j ∈ order, j < g.size) {state : List BlockSet × Bool} (fits : g.Fits state.1) :
    g.Fits (order.foldl g.postDomVisit state).1 ∧
      g.losers x (order.foldl g.postDomVisit state).1
        = Sweep.pass (g.avoidRule x) (order.filter (· != g.exit)) (g.losers x state.1) := by
  induction order generalizing state with
  | nil => exact ⟨fits, rfl⟩
  | cons j order ih =>
      have rest : ∀ k ∈ order, k < g.size := fun k member => low k (List.mem_cons_of_mem j member)
      have bound : j < g.size := low j List.mem_cons_self
      by_cases atExit : j = g.exit
      · subst atExit
        rw [List.foldl_cons, postDomVisit_exit]
        simpa using ih rest fits
      · obtain ⟨fits', sweeps⟩ := ih rest (fits.visit closed bound atExit)
        rw [losers_visit fits closed bound atExit (leaves j bound atExit)] at sweeps
        refine ⟨fits', ?_⟩
        rw [List.foldl_cons, sweeps, List.filter_cons_of_pos (by simpa using atExit),
          Sweep.pass_cons]

theorem losers_pass (closed : g.Closed) (leaves : g.Leaves) (fits : g.Fits sets) :
    g.Fits (g.postDomPass sets).1 ∧
      g.losers x (g.postDomPass sets).1
        = Sweep.pass (g.avoidRule x) g.recomputed (g.losers x sets) :=
  losers_foldl closed leaves (by simp) fits

theorem foldl_postDomVisit_quiet {order : List Nat} {state : List BlockSet × Bool}
    (quiet : (order.foldl g.postDomVisit state).2 = false) :
    order.foldl g.postDomVisit state = state := by
  induction order generalizing state with
  | nil => rfl
  | cons j order ih =>
      have rest := ih quiet
      rw [List.foldl_cons, rest] at quiet ⊢
      by_cases atExit : j = g.exit
      · rw [atExit, postDomVisit_exit]
      · rw [postDomVisit_eq state atExit] at quiet ⊢
        split at quiet
        · rename_i unchanged
          exact if_pos unchanged
        · cases quiet

/-! ## The whole run -/

/-- The sets after one more pass. -/
def postDomNext (g : FlowGraph) (sets : List BlockSet) : List BlockSet := (g.postDomPass sets).1

theorem postDomIterate_eq (cap : Nat) (sets : List BlockSet) :
    g.postDomIterate cap sets = g.postDomNext^[cap] sets := by
  induction cap generalizing sets with
  | zero => rfl
  | succ cap ih =>
      rw [Function.iterate_succ_apply, postDomIterate]
      split
      · rename_i next passed
        rw [ih, show g.postDomNext sets = next from congrArg Prod.fst passed]
      · rename_i next passed
        have stays : g.postDomPass sets = (sets, false) :=
          foldl_postDomVisit_quiet (congrArg Prod.snd passed)
        have fixed : g.postDomNext sets = sets := congrArg Prod.fst stays
        rw [fixed, Function.iterate_fixed fixed, ← fixed]
        exact (congrArg Prod.fst passed).symm

/-- The sets at the start: the exit's own and full ones. -/
def postDomInit (g : FlowGraph) : List BlockSet :=
  (List.range g.size).map fun i =>
    if i == g.exit then (BlockSet.none g.size).insert i else BlockSet.all g.size

theorem getD_postDomInit (low : i < g.size) :
    g.postDomInit.getD i [] =
      if i = g.exit then (BlockSet.none g.size).insert i else BlockSet.all g.size := by
  simp [postDomInit, low]

theorem fits_init : g.Fits g.postDomInit := by
  refine ⟨by simp [postDomInit], fun i low => ?_⟩
  rw [getD_postDomInit low]
  split <;> simp

theorem losers_init (low : x < g.size) :
    g.losers x g.postDomInit = {i | i = g.exit ∧ x ≠ g.exit} := by
  have last : g.exit < g.size := by unfold exit; omega
  ext i
  rw [mem_losers]
  change _ ↔ i = g.exit ∧ x ≠ g.exit
  by_cases inside : i < g.size
  · rw [getD_postDomInit inside]
    split
    · rename_i atExit
      subst atExit
      have room : g.exit / 64 < (BlockSet.none g.size).length := by
        rw [BlockSet.length_none]
        exact BlockSet.word_lt last
      simp [BlockSet.has_insert room, BlockSet.has_none, last]
    · rename_i inner
      simp [BlockSet.has_all low, inner]
  · have outside : i ≠ g.exit := fun atExit => inside (atExit ▸ last)
    simp [inside, outside]

theorem losers_iterate (closed : g.Closed) (leaves : g.Leaves) (k : Nat) :
    g.Fits (g.postDomNext^[k] g.postDomInit) ∧
      g.losers x (g.postDomNext^[k] g.postDomInit)
        = (Sweep.pass (g.avoidRule x) g.recomputed)^[k] (g.losers x g.postDomInit) := by
  induction k with
  | zero => exact ⟨fits_init, rfl⟩
  | succ k ih =>
      rw [Function.iterate_succ_apply', Function.iterate_succ_apply', ← ih.2]
      exact losers_pass closed leaves ih.1

theorem mem_recomputed : i ∈ g.recomputed ↔ i < g.size ∧ i ≠ g.exit := by
  simp [recomputed]

theorem supported_init (low : x < g.size) :
    Sweep.Supported (g.avoidRule x) g.recomputed (g.losers x g.postDomInit) := by
  intro i listed member
  rw [losers_init low] at member
  exact absurd member.1 (mem_recomputed.mp listed).2

/-! ## Routes that avoid a block -/

/-- Some route from `i` to the exit avoids `x`. -/
def Avoids (g : FlowGraph) (x i : Nat) : Prop := ∃ blocks, g.Route i blocks g.exit ∧ x ∉ blocks

theorem Avoids.step {j : Nat} (leads : j ∈ g.succs i) (other : i ≠ x) (avoids : g.Avoids x j) :
    g.Avoids x i := by
  obtain ⟨blocks, route, absent⟩ := avoids
  exact ⟨i :: blocks, .step leads route, by simp [absent, Ne.symm other]⟩

theorem avoids_of_mem_losers (closed : g.Closed) (leaves : g.Leaves) (low : x < g.size) (cap : Nat)
    (lost : i ∈ g.losers x (g.postDominators cap)) : g.Avoids x i := by
  let avoiding : Set Nat := {j | g.Avoids x j}
  have under : ∀ j, g.avoidRule x avoiding j → j ∈ avoiding := by
    rintro j ⟨other, k, leads, member⟩
    exact Avoids.step leads other member
  have first : g.losers x g.postDomInit ⊆ avoiding := by
    rw [losers_init low]
    rintro j ⟨rfl, other⟩
    exact ⟨[g.exit], .here _, by simpa using other⟩
  have within : (Sweep.pass (g.avoidRule x) g.recomputed)^[cap] (g.losers x g.postDomInit)
      ⊆ avoiding := Sweep.iterate_pass_subset avoidRule_increasing under first cap
  rw [← (losers_iterate closed leaves cap).2, ← postDomIterate_eq] at within
  exact within lost

/-- With as many passes as there are blocks, `x` is lost wherever a route avoids it. -/
theorem mem_losers_of_avoids (closed : g.Closed) (leaves : g.Leaves) (low : x < g.size)
    {cap : Nat} (enough : g.size ≤ cap) (avoids : g.Avoids x i) :
    i ∈ g.losers x (g.postDominators cap) := by
  have result : g.losers x (g.postDominators cap)
      = (Sweep.pass (g.avoidRule x) g.recomputed)^[cap] (g.losers x g.postDomInit) := by
    rw [← (losers_iterate closed leaves cap).2, ← postDomIterate_eq]
    rfl
  have supported := supported_init low
  have stable := Sweep.iterate_pass_stable avoidRule_increasing supported
    (fun j listed => (mem_recomputed.mp listed).1) (fun j member => member.1) enough
  have kept := Sweep.subset_iterate avoidRule_increasing supported cap
  rw [← result] at stable kept
  have exitLost : x ≠ g.exit → g.exit ∈ g.losers x (g.postDominators cap) := by
    intro other
    refine kept ?_
    rw [losers_init low]
    exact ⟨rfl, other⟩
  have settled := supported.iterate avoidRule_increasing cap
  rw [← result] at settled
  obtain ⟨blocks, route, absent⟩ := avoids
  -- The route ends at the exit; going back along it every block loses `x` in turn.
  generalize ending : g.exit = last at route
  induction route with
  | here j =>
      subst ending
      exact exitLost fun same => absent (by simp [same])
  | @step j k last blocks leads route ih =>
      obtain ⟨other, later⟩ : x ≠ j ∧ x ∉ blocks := by simpa using absent
      have next := ih later ending
      by_cases atExit : j = g.exit
      · rw [atExit]
        exact exitLost (atExit ▸ other)
      · have listed : j ∈ g.recomputed := mem_recomputed.mpr ⟨lt_size_of_mem_succs leads, atExit⟩
        exact (Sweep.rule_iff_of_pass_eq avoidRule_increasing settled stable listed).mp
          ⟨Ne.symm other, k, leads, next⟩

theorem mem_losers_iff (closed : g.Closed) (leaves : g.Leaves) (low : x < g.size) {cap : Nat}
    (enough : g.size ≤ cap) : i ∈ g.losers x (g.postDominators cap) ↔ g.Avoids x i :=
  ⟨avoids_of_mem_losers closed leaves low cap, mem_losers_of_avoids closed leaves low enough⟩

/-- The set of a block holds what every route from there to the exit goes through. -/
theorem has_postDominators_iff (closed : g.Closed) (leaves : g.Leaves) {cap b : Nat}
    (enough : g.size ≤ cap) (lowX : x < g.size) (lowB : b < g.size) :
    ((g.postDominators cap).getD b []).has x = true ↔
      ∀ blocks, g.Route b blocks g.exit → x ∈ blocks := by
  have lost := mem_losers_iff (i := b) closed leaves lowX enough
  rw [mem_losers] at lost
  have kept : ((g.postDominators cap).getD b []).has x = true ↔ ¬ g.Avoids x b := by
    rw [← lost]
    simp [lowB]
  rw [kept]
  simp only [Avoids, not_exists, not_and, not_not]

theorem postDominators_length (closed : g.Closed) (leaves : g.Leaves) (cap : Nat) :
    (g.postDominators cap).length = g.size := by
  have fits := (losers_iterate (x := 0) closed leaves cap).1
  rw [← postDomIterate_eq] at fits
  exact fits.length

end FlowGraph

/-- For a built kernel whose flow graph leads on from every block but the exit, analysed with as
many passes as there are blocks or more: `x` post-dominates `b` exactly if every route from `b` to
the exit goes through `x`, and the list for `b` has these blocks in ascending order. -/
theorem postDominates_iff_routes (pg : PropertyGraph) (k : KernelId) (info : BuiltKernel)
    (access : Access) (params : List String) (cap : Nat)
    (built : pg.builtKernel? k = some info)
    (analysed : info.facts = analyzeFlow info.graph access params cap)
    (closed : info.graph.Closed) (leaves : info.graph.Leaves) (enough : info.graph.size ≤ cap) :
    (∀ x < info.graph.size, ∀ b < info.graph.size,
      (pg.postDominates k x b = true ↔
        ∀ blocks, info.graph.Route b blocks info.graph.exit → x ∈ blocks)) ∧
    (pg.postDominators k).length = info.graph.size ∧
    ∀ b < info.graph.size, ∃ listed, (pg.postDominators k)[b]? = some listed ∧
      listed.Pairwise (· < ·) ∧
      ∀ x, x ∈ listed ↔ x < info.graph.size ∧
        ∀ blocks, info.graph.Route b blocks info.graph.exit → x ∈ blocks := by
  have sets : info.facts.postDoms = info.graph.postDominators cap := by rw [analysed]; rfl
  have long := FlowGraph.postDominators_length closed leaves cap
  have lists : pg.postDominators k
      = (info.graph.postDominators cap).map (BlockSet.toList info.graph.size) := by
    simp [PropertyGraph.postDominators, built, sets]
  refine ⟨fun x lowX b lowB => ?_, ?_, fun b lowB => ?_⟩
  · rw [← FlowGraph.has_postDominators_iff closed leaves enough lowX lowB]
    simp [PropertyGraph.postDominates, built, sets, lowX, lowB]
  · rw [lists, List.length_map, long]
  · have inside : b < (info.graph.postDominators cap).length := by rw [long]; exact lowB
    refine ⟨BlockSet.toList info.graph.size ((info.graph.postDominators cap).getD b []), ?_, ?_, ?_⟩
    · rw [lists, List.getElem?_map, List.getElem?_eq_getElem inside,
        List.getD_eq_getElem _ _ inside]
      rfl
    · exact List.pairwise_lt_range.filter _
    · intro x
      rw [BlockSet.toList, List.mem_filter, List.mem_range]
      exact and_congr_right fun lowX =>
        FlowGraph.has_postDominators_iff closed leaves enough lowX lowB

/-- A chain over the border of a word, which may be left at its first block for a block that
loops for ever. -/
def trapGraph : FlowGraph where
  blocks := ⟨.body, [], [(1, .taken), (65, .skipped)], none⟩ ::
    (List.range' 2 63).map (fun i => ⟨.body, [], [(i, .always)], none⟩) ++
    [⟨.body, [], [(66, .always)], none⟩, ⟨.forLoop, [], [(65, .always)], none⟩,
      ⟨.exit, [], [], none⟩]

def trapKernel : BuiltKernel where
  kernel := 0
  graph := trapGraph
  entry := 0
  exit := 1
  slots := [0, 1]
  stmts := []
  facts := analyzeFlow trapGraph ⟨fun _ => [], fun _ => []⟩ [] 67

def trapped : PropertyGraph := { cap := 67, built := [trapKernel] }

/-- Nobody gets from the first block to the exit but through block 64, and from the block that
loops nobody gets there at all. -/
theorem postDominates_iff_routes_trap :
    trapGraph.Closed ∧ trapGraph.Leaves ∧
    (∀ blocks, trapGraph.Route 0 blocks 66 → 64 ∈ blocks) ∧
    ∀ x < 67, ∀ blocks, trapGraph.Route 65 blocks 66 → x ∈ blocks := by
  have closed : trapGraph.Closed := by decide +kernel
  have leaves : trapGraph.Leaves := by decide +kernel
  obtain ⟨questions, -, -⟩ := postDominates_iff_routes trapped 0 trapKernel
    ⟨fun _ => [], fun _ => []⟩ [] 67 rfl rfl closed leaves (by decide)
  obtain ⟨passes, everything⟩ : trapped.postDominates 0 64 0 = true ∧
      ∀ x < 67, trapped.postDominates 0 x 65 = true := by decide +kernel
  refine ⟨closed, leaves, (questions 64 (by decide) 0 (by decide)).mp passes, fun x low => ?_⟩
  exact (questions x low 65 (by decide)).mp (everything x low)

end Retarget
