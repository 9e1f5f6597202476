/-
# Proofs.DominatorTree -- climbing the tree of immediate dominators meets the dominators

The tree gives every node that the root leads to, the root excepted, its immediate dominator.  What
dominates a node is the node itself and what dominates its immediate dominator, so climbing from a
node meets its dominators and nothing else.  The climb ends at the root, because what is dominated
strictly has more dominators, and it asks only for nodes that are in the tree (`climbs`).

Which immediate dominators there are does not depend on how they are looked for: any search that
gives the immediate dominator of every node reached and nothing for the others (`Digraph.Finds`)
leads to the same tree (`dominates_iff_routes`).
-/
import Mathlib.Data.Finset.Card
import Retarget.Proofs.DigraphOrder
import Retarget.Proofs.Dominance

namespace Retarget

open Dominance
open Relation (ReflTransGen)

set_option autoImplicit false
set_option linter.dupNamespace false

/-! ## The search for immediate dominators -/

namespace Digraph

variable {d : Digraph} {root x y : OpId}

/-- What is asked of a search for immediate dominators: that of every node the root leads to, and
nothing for the others, the root among them. -/
def Finds (find : Digraph → OpId → OpId → Option OpId) : Prop :=
  ∀ d : Digraph, d.Proper → ∀ root ∈ d.nodes, ∀ x y,
    find d root y = some x ↔ Immediate d.Arc root x y

theorem Proper.separates_iff (proper : d.Proper) (inside : root ∈ d.nodes) :
    d.separates root x y = true ↔ ¬Avoids d.Arc root x y := by
  rw [avoids_iff, separates, Bool.not_eq_true', ← Bool.not_eq_true, List.contains_iff_mem,
    reachableAvoiding]
  by_cases same : root = x
  · simp [same]
  have arcs : (fun a b => b ∈ (d.next a).filter (· != x)) = fun a b => d.Arc a b ∧ b ≠ x := by
    funext a b
    simp [mem_next]
  have reached (z : OpId) : Reachable (fun a => (d.next a).filter (· != x)) [root] z ↔
      ReflTransGen (fun a b => d.Arc a b ∧ b ≠ x) root z := by
    simp only [Reachable, List.mem_singleton, exists_eq_left, arcs]
  rw [if_neg (by simpa using same), mem_explore (fun z leads => ?_) (Nat.le_refl _), reached,
    and_iff_right same]
  exact proper.mem_of_reaches inside
    (ReflTransGen.mono (fun _ _ arc => arc.1) _ _ ((reached z).mp leads))

theorem Proper.mem_strictDominators_iff (proper : d.Proper) (inside : root ∈ d.nodes)
    (reaches : ReflTransGen d.Arc root y) :
    x ∈ d.strictDominators root y ↔ Strictly d.Arc root x y := by
  have reachable : x ∈ d.reachable root ↔ ReflTransGen d.Arc root x := by
    rw [← proper.hasPath_iff inside, hasPath, List.contains_iff_mem]
  simp only [strictDominators, List.mem_filter, Bool.and_eq_true, bne_iff_ne,
    proper.separates_iff inside, reachable, not_avoids_iff]
  constructor
  · rintro ⟨-, apart, passes⟩
    exact ⟨⟨reaches, passes⟩, apart⟩
  · rintro ⟨dominates, apart⟩
    exact ⟨dominates.reaches, apart, dominates.2⟩

theorem Proper.immediateDominator?_eq_some (proper : d.Proper) (inside : root ∈ d.nodes)
    (immediate : Immediate d.Arc root x y) : d.immediateDominator? root y = some x := by
  have reaches := immediate.1.1.1
  have strict {z : OpId} := proper.mem_strictDominators_iff (x := z) inside reaches
  have last {z : OpId} (member : z ∈ d.strictDominators root y) :
      ((d.strictDominators root y).all fun w => w == z || d.separates root w z) = true ↔ z = x := by
    have immediate_z : Immediate d.Arc root z y ↔ z = x :=
      ⟨fun other => other.unique immediate, fun same => same ▸ immediate⟩
    rw [← immediate_z, immediate_iff, and_iff_right (strict.mp member), List.all_eq_true]
    refine forall_congr' fun w => ?_
    rw [strict, Bool.or_eq_true, beq_iff_eq, proper.separates_iff inside, not_avoids_iff]
    exact imp_congr_right fun _ => or_congr_right
      ⟨fun passes => ⟨(strict.mp member).1.reaches, passes⟩, fun above => above.2⟩
  cases found : d.immediateDominator? root y with
  | none =>
      have member := strict.mpr immediate.1
      exact absurd ((last member).mpr rfl) (List.find?_eq_none.mp found x member)
  | some z =>
      rw [immediateDominator?] at found
      have holds := List.find?_some found
      rw [(last (List.mem_of_find?_eq_some found)).mp holds]

/-- The immediate dominator of a node that the root leads to. -/
def searched (d : Digraph) (root y : OpId) : Option OpId :=
  if y != root && d.hasPath root y then d.immediateDominator? root y else none

theorem Proper.exists_immediate (proper : d.Proper) (inside : root ∈ d.nodes)
    (reaches : ReflTransGen d.Arc root y) (apart : y ≠ root) : ∃ x, Immediate d.Arc root x y :=
  have room : ∀ z, ReflTransGen d.Arc root z → z ∈ d.nodes.toFinset := fun _ leads =>
    List.mem_toFinset.mpr (proper.mem_of_reaches inside leads)
  Dominance.exists_immediate room reaches apart

theorem finds_searched : Finds searched := by
  intro d proper root inside x y
  rw [searched]
  split
  · rename_i reached
    rw [Bool.and_eq_true, bne_iff_ne, proper.hasPath_iff inside] at reached
    obtain ⟨z, immediate⟩ := proper.exists_immediate inside reached.2 reached.1
    rw [proper.immediateDominator?_eq_some inside immediate, Option.some.injEq]
    exact ⟨fun same => same ▸ immediate, fun other => immediate.unique other⟩
  · rename_i away
    refine iff_of_false nofun fun immediate => away ?_
    rw [Bool.and_eq_true, bne_iff_ne, proper.hasPath_iff inside]
    exact ⟨fun same => not_immediate_root (same ▸ immediate), immediate.1.1.1⟩

end Digraph

namespace OperationGraph

variable (g : OperationGraph)

/-- An edge leads from one node to another. -/
def Leads (x y : OpId) : Prop := ∃ e ∈ g.edges, e.source = x ∧ e.target = y

/-- The tree with the immediate dominators that `find` gives; nodes for which it gives nothing are
left out. -/
def dominatorsBy? (find : Digraph → OpId → OpId → Option OpId) (root : OpId) :
    Option (List (OpId × Option OpId)) :=
  match g.node? root with
  | none => none
  | some _ =>
    let others := (g.nodes.map (·.id)).filter (· != root)
    some ((root, none) :: others.filterMap fun x =>
      (find g.wholeDigraph root x).map fun up => (x, some up))

/-- A climb from a node in search of `x`, up to where it ends with an answer.  It asks only for
nodes that are in the tree. -/
inductive Climbs (tree : List (OpId × Option OpId)) (x : OpId) : OpId → Bool → Prop
  | found : Climbs tree x x true
  | top {y : OpId} : y ≠ x → tree.lookup y = some none → Climbs tree x y false
  | up {y z : OpId} {answer : Bool} :
      y ≠ x → tree.lookup y = some (some z) → Climbs tree x z answer → Climbs tree x y answer

/-- The question whether `x` dominates `y` comes to an answer: no if `y` is not in the tree, and
else the answer of the climb. -/
def Resolves (tree : List (OpId × Option OpId)) (x y : OpId) (answer : Bool) : Prop :=
  (tree.lookup y = none ∧ answer = false) ∨
    ((tree.lookup y).isSome ∧ Climbs tree x y answer)

/-- What the tree says of every number. -/
structure Tells (leads : OpId → OpId → Prop) (root : OpId) (tree : List (OpId × Option OpId)) :
    Prop where
  top : tree.lookup root = some none
  up : ∀ y, ReflTransGen leads root y → y ≠ root →
    ∃ x, tree.lookup y = some (some x) ∧ Immediate leads root x y
  away : ∀ y, ¬ReflTransGen leads root y → tree.lookup y = none

variable {g} {root x y : OpId} {tree : List (OpId × Option OpId)} {leads : OpId → OpId → Prop}

/-! ## The climb -/

/-- The nodes of the tree. -/
def nodesOf (tree : List (OpId × Option OpId)) : Finset OpId := (tree.map (·.1)).toFinset

theorem mem_nodesOf {entry : Option OpId} (found : tree.lookup y = some entry) :
    y ∈ nodesOf tree := by
  obtain ⟨before, after, rfl, -⟩ := List.lookup_eq_some_iff.mp found
  simp [nodesOf]

theorem Tells.inside (tells : Tells leads root tree) (reaches : ReflTransGen leads root y) :
    y ∈ nodesOf tree := by
  by_cases same : y = root
  · exact mem_nodesOf (same ▸ tells.top)
  · obtain ⟨_, found, -⟩ := tells.up y reaches same
    exact mem_nodesOf found

theorem Tells.isSome_iff (tells : Tells leads root tree) :
    (tree.lookup y).isSome ↔ ReflTransGen leads root y := by
  constructor
  · intro there
    by_contra away
    simp [tells.away y away] at there
  · intro reaches
    by_cases same : y = root
    · simp [same, tells.top]
    · obtain ⟨_, found, -⟩ := tells.up y reaches same
      simp [found]

/-- The climb ends, with as many steps as the node has dominators, and meets these. -/
theorem Tells.climbs (tells : Tells leads root tree) (reaches : ReflTransGen leads root y)
    {steps : Nat} (enough : rank leads root (nodesOf tree) y ≤ steps) :
    Climbs tree x y (climbsTo tree x (steps + 1) y) ∧
      (climbsTo tree x (steps + 1) y = true ↔ Dominates leads root x y) := by
  induction steps generalizing y with
  | zero =>
      have some := rank_pos (tells.inside reaches) reaches
      omega
  | succ steps ih =>
      rw [climbsTo]
      by_cases same : y = x
      · subst same
        simpa using ⟨Climbs.found, Dominates.refl reaches⟩
      by_cases top : y = root
      · subst top
        have apart : ¬Dominates leads y x y := fun above => same (dominates_root_iff.mp above).symm
        rw [tells.top, beq_false_of_ne same, Bool.false_or]
        exact ⟨.top same tells.top, iff_of_false nofun apart⟩
      · obtain ⟨z, found, immediate⟩ := tells.up y reaches top
        have less := immediate.1.rank_lt fun _ => tells.inside
        obtain ⟨climb, meets⟩ := ih (y := z) immediate.1.1.reaches
          (Nat.le_of_lt_succ (Nat.lt_of_lt_of_le less enough))
        rw [found, beq_false_of_ne same, Bool.false_or]
        exact ⟨.up same found climb, by simpa [immediate.dominates_iff, Ne.symm same] using meets⟩

theorem Tells.answers (tells : Tells leads root tree) :
    Resolves tree x y (dominates tree x y) ∧
      (dominates tree x y = true ↔ Dominates leads root x y) := by
  rw [dominates]
  by_cases reaches : ReflTransGen leads root y
  · have there := tells.isSome_iff.mpr reaches
    have enough : rank leads root (nodesOf tree) y ≤ 2 * tree.length + 1 := by
      have few : rank leads root (nodesOf tree) y ≤ (nodesOf tree).card := rank_le_card
      have length : (nodesOf tree).card ≤ tree.length := by
        simpa [nodesOf] using List.toFinset_card_le (tree.map (·.1))
      omega
    obtain ⟨climb, meets⟩ := tells.climbs (x := x) reaches enough
    rw [there, Bool.true_and]
    exact ⟨.inr ⟨there, climb⟩, meets⟩
  · have away := tells.away y reaches
    rw [away, Option.isSome_none, Bool.false_and]
    exact ⟨.inl ⟨away, rfl⟩, iff_of_false nofun fun above => reaches above.1⟩

/-! ## The tree -/

theorem lookup_filterMap (above : OpId → Option OpId) (ids : List OpId) (y : OpId) :
    (ids.filterMap fun x => (above x).map fun up => (x, some up)).lookup y =
      if y ∈ ids then (above y).map some else none := by
  induction ids with
  | nil => rfl
  | cons x ids ih =>
      rw [List.filterMap_cons]
      by_cases same : y = x
      · subst same
        cases found : above y with
        | none => simp [ih, found]
        | some up => simp
      · cases found : above x with
        | none => simpa [same] using ih
        | some up => simpa [List.lookup_cons, beq_false_of_ne same, same] using ih

theorem dominatorsBy?_live (find : Digraph → OpId → OpId → Option OpId)
    (live : (g.node? root).isSome) : g.dominatorsBy? find root =
      some ((root, none) :: ((g.nodes.map (·.id)).filter (· != root)).filterMap fun x =>
        (find g.wholeDigraph root x).map fun up => (x, some up)) := by
  obtain ⟨n, found⟩ := Option.isSome_iff_exists.mp live
  rw [dominatorsBy?, found]

theorem Consistent.leads_eq (consistent : g.Consistent) : g.wholeDigraph.Arc = g.Leads := by
  funext x y
  exact propext (by simp [wholeDigraph, consistent.arc_digraph_iff, Leads])

theorem Consistent.tells (consistent : g.Consistent) {find : Digraph → OpId → OpId → Option OpId}
    (finds : Digraph.Finds find) (live : (g.node? root).isSome)
    (made : g.dominatorsBy? find root = some tree) : Tells g.Leads root tree := by
  have proper : g.wholeDigraph.Proper := consistent.digraph_proper _
  have inside : root ∈ g.wholeDigraph.nodes := (consistent.mem_digraph_nodes _).mpr live
  have found (x y : OpId) := consistent.leads_eq ▸ finds g.wholeDigraph proper root inside x y
  rw [dominatorsBy?_live find live, Option.some.injEq] at made
  subst made
  refine ⟨List.lookup_cons_self, fun y reaches apart => ?_, fun y away => ?_⟩
  · have reached : ReflTransGen g.wholeDigraph.Arc root y := consistent.leads_eq ▸ reaches
    obtain ⟨x, immediate⟩ := proper.exists_immediate inside reached apart
    rw [consistent.leads_eq] at immediate
    have listed : y ∈ (g.nodes.map (·.id)).filter (· != root) :=
      List.mem_filter.mpr ⟨consistent.mem_ids_iff.mpr ((consistent.mem_digraph_nodes _).mp
        (proper.mem_of_reaches inside reached)), by simpa using apart⟩
    refine ⟨x, ?_, immediate⟩
    rw [List.lookup_cons, beq_false_of_ne apart, lookup_filterMap, if_pos listed,
      (found x y).mpr immediate, Option.map_some]
  · have apart : y ≠ root := fun same => away (same ▸ .refl)
    have none : find g.wholeDigraph root y = none := Option.eq_none_iff_forall_ne_some.mpr
      fun x given => away ((found x y).mp given).1.1.1
    simp [List.lookup_cons, beq_false_of_ne apart, lookup_filterMap, none]

/-- The tree that is built is that of any search. -/
theorem Consistent.dominators?_eq (consistent : g.Consistent)
    {find : Digraph → OpId → OpId → Option OpId} (finds : Digraph.Finds find) (root : OpId) :
    g.dominators? root = g.dominatorsBy? find root := by
  cases live : g.node? root with
  | none => rw [dominators?, dominatorsBy?, live]
  | some n =>
      have proper : g.wholeDigraph.Proper := consistent.digraph_proper _
      have inside : root ∈ g.wholeDigraph.nodes :=
        (consistent.mem_digraph_nodes _).mpr (by rw [live]; rfl)
      rw [dominators?, dominatorsBy?, live]
      refine congrArg (fun others => some ((root, none) :: others)) ?_
      rw [← List.filterMap_eq_map, List.filterMap_filter, List.filterMap_filter]
      refine List.filterMap_congr fun x _ => ?_
      by_cases same : x = root
      · simp [same]
      by_cases reached : ReflTransGen g.wholeDigraph.Arc root x
      · obtain ⟨up, immediate⟩ := proper.exists_immediate inside reached same
        simp [same, (proper.hasPath_iff inside).mpr reached, (finds _ proper root inside up x).mpr immediate,
          proper.immediateDominator?_eq_some inside immediate]
      · have none : find g.wholeDigraph root x = none := Option.eq_none_iff_forall_ne_some.mpr
          fun up given => reached ((finds _ proper root inside up x).mp given).1.1.1
        simp [proper.hasPath_iff inside, reached, none]

/-- In an operation graph whose slots and edges fit together, as they do after any history of changes,
a live root has a tree of dominators.  Any search for immediate dominators gives the same; whether a
node dominates another comes to an answer; and the answer is yes exactly if the root leads to the
second node and every route there passes through the first. -/
theorem dominates_iff_routes (consistent : g.Consistent)
    {find : Digraph → OpId → OpId → Option OpId} (finds : Digraph.Finds find)
    (live : (g.node? root).isSome) :
    ∃ tree, g.dominators? root = some tree ∧ g.dominatorsBy? find root = some tree ∧
      ∀ x y, Resolves tree x y (dominates tree x y) ∧
        (dominates tree x y = true ↔
          ReflTransGen g.Leads root y ∧ ∀ ids, Route g.Leads root ids y → x ∈ ids) := by
  have made := dominatorsBy?_live find live
  refine ⟨_, (consistent.dominators?_eq finds root).trans made, made, fun x y => ?_⟩
  exact (consistent.tells finds live made).answers

/-- Two ways from node 1 meet again and lead back into one of them; node 0 only leads in. -/
def rejoining : List GraphChange := [
  .addNode { kind := .load, name := "a" }, .addNode { kind := .load, name := "b" },
  .addNode { kind := .add, name := "c" }, .addNode { kind := .add, name := "d" },
  .addNode { kind := .add, name := "e" }, .addNode { kind := .store, name := "f" },
  .addEdge 1 2 .data "x", .addEdge 1 3 .data "x", .addEdge 2 4 .data "y", .addEdge 3 4 .data "z",
  .addEdge 4 2 .control "", .addEdge 4 5 .data "w", .addEdge 0 5 .data "v"]

theorem wholeDigraph_rejoining : (made "g" rejoining).wholeDigraph =
    { nodes := [0, 1, 2, 3, 4, 5]
      arcs := [(1, 2), (1, 3), (2, 4), (3, 4), (4, 2), (4, 5), (0, 5)] } := by
  rw [wholeDigraph, digraph, List.mergeSort_of_pairwise]
  · exact congrArg₂ Digraph.mk (by decide) (by decide)
  · decide

/-- What comes after the ways have met is dominated by where they meet, and by neither way; the node
that cannot be reached is in no climb. -/
theorem dominates_iff_routes_rejoining :
    (made "g" rejoining).Consistent ∧ Digraph.Finds Digraph.searched ∧
      ((made "g" rejoining).node? 1).isSome ∧
      ∃ tree, (made "g" rejoining).dominators? 1 = some tree ∧
        Resolves tree 4 5 true ∧ (∀ ids, Route (made "g" rejoining).Leads 1 ids 5 → 4 ∈ ids) ∧
        Resolves tree 2 5 false ∧ (∃ ids, Route (made "g" rejoining).Leads 1 ids 5 ∧ 2 ∉ ids) ∧
        Resolves tree 0 0 false ∧ ¬ReflTransGen (made "g" rejoining).Leads 1 0 := by
  have consistent : (made "g" rejoining).Consistent := (new_consistent "g").changed rejoining
  have live : ((made "g" rejoining).node? 1).isSome := by decide
  obtain ⟨tree, found, -, told⟩ :=
    dominates_iff_routes consistent Digraph.finds_searched live
  have built : (made "g" rejoining).dominators? 1 =
      some [(1, none), (2, some 1), (3, some 1), (4, some 1), (5, some 4)] := by
    -- sorting is no structural recursion, so the nodes are sorted by a lemma beforehand
    rw [dominators?, wholeDigraph_rejoining]
    decide
  obtain rfl := Option.some.inj (found.symm.trans built)
  obtain ⟨meets, yes⟩ := told 4 5
  obtain ⟨passes, no⟩ := told 2 5
  obtain ⟨outside, away⟩ := told 0 0
  obtain ⟨reaches, through⟩ := yes.mp rfl
  refine ⟨consistent, Digraph.finds_searched, live, _, found, meets, through, passes, ?_, outside,
    fun leads => ?_⟩
  · by_contra none
    refine absurd (no.mpr ⟨reaches, fun ids route => ?_⟩) nofun
    exact by_contra fun apart => none ⟨ids, route, apart⟩
  · exact absurd (away.mpr ⟨leads, fun _ route => route.end_mem⟩) nofun

end OperationGraph

end Retarget
