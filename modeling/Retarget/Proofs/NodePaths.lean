/-
# Proofs.NodePaths -- the search for paths lists every simple path once

A way from node to node is told by its route, the positions of the edges taken in the successor
lists, together with the nodes passed (`Way`).  The paths found are the node lists of all ways to
the target that pass no node twice and are short enough, one for every route, in the order of the
routes: depth first, along each successor list (`mem_waysFrom`, `waysFrom_sorted`).

The same list comes out of the search that keeps its unfinished paths on a stack, and that search
comes to an end (`turns_path`).  A path can always be made simple, and a simple one passes every node
at most once; so with room for all nodes there is a path if and only if breadth-first search gets to
the target (`nodePaths_exact`).
-/
import Mathlib.Logic.Function.Iterate
import Retarget.Proofs.Bracketing
import Retarget.Proofs.LayoutHistory
import Retarget.Proofs.Reach
import Retarget.PropertyGraph.Query

namespace Retarget

set_option autoImplicit false
set_option linter.dupNamespace false

namespace PropertyGraph

variable {g : PropertyGraph} {s t target : Slot} {route : List Nat} {nodes path : List Slot}

/-! ## Ways -/

/-- From a node to the target along the edges at the given positions, over the given nodes. -/
inductive Way (g : PropertyGraph) (target : Slot) : Slot → List Nat → List Slot → Prop
  | here : Way g target target [] [target]
  | step {s t : Slot} {i : Nat} {route : List Nat} {nodes : List Slot} :
      (g.succSlots s)[i]? = some t → Way g target t route nodes →
        Way g target s (i :: route) (s :: nodes)

theorem Way.start_mem (way : g.Way target s route nodes) : s ∈ nodes := by
  cases way <;> exact List.mem_cons_self

theorem Way.target_mem (way : g.Way target s route nodes) : target ∈ nodes := by
  induction way with
  | here => exact List.mem_cons_self
  | step _ _ ih => exact List.mem_cons_of_mem _ ih

/-- A way that starts at its target and passes no node twice does not move. -/
theorem Way.of_target (way : g.Way target target route nodes) (once : nodes.Nodup) :
    route = [] ∧ nodes = [target] := by
  cases way with
  | here => exact ⟨rfl, rfl⟩
  | step _ rest => exact absurd rest.target_mem (List.nodup_cons.mp once).1

/-- The ways of at most `budget` edges that avoid the nodes of `path`, in depth-first order. -/
def waysFrom (g : PropertyGraph) (target : Slot) :
    Nat → List Slot → Slot → List (List Nat × List Slot)
  | budget, path, s =>
    if s == target then [([], [s])]
    else match budget with
      | 0 => []
      | budget + 1 => (g.succSlots s).zipIdx.flatMap fun e =>
        if (s :: path).contains e.1 then []
        else (waysFrom g target budget (s :: path) e.1).map fun w => (e.2 :: w.1, s :: w.2)

theorem waysFrom_target (budget : Nat) (path : List Slot) :
    g.waysFrom target budget path target = [([], [target])] := by
  rw [waysFrom.eq_def]
  simp

theorem waysFrom_zero (apart : s ≠ target) (path : List Slot) :
    g.waysFrom target 0 path s = [] := by
  rw [waysFrom.eq_def]
  simp [apart]

theorem waysFrom_succ (apart : s ≠ target) (budget : Nat) (path : List Slot) :
    g.waysFrom target (budget + 1) path s =
      (g.succSlots s).zipIdx.flatMap fun e =>
        if (s :: path).contains e.1 then []
        else (g.waysFrom target budget (s :: path) e.1).map fun w => (e.2 :: w.1, s :: w.2) := by
  rw [waysFrom.eq_def]
  simp [apart]

/-- The paths found are the nodes of the ways, after what came before. -/
theorem pathsFrom_eq_ways (budget : Nat) (path : List Slot) (s : Slot) :
    g.pathsFrom target budget path s
      = (g.waysFrom target budget path s).map fun w => path.reverse ++ w.2 := by
  fun_induction pathsFrom g target budget path s with
  | case1 budget path s there =>
      obtain rfl := eq_of_beq there
      simp [waysFrom_target]
  | case2 path s apart => rw [waysFrom_zero (by simpa using apart), List.map_nil]
  | case3 path s apart budget ih =>
      have each : ∀ t i, (if (s :: path).contains t then []
          else (g.waysFrom target budget (s :: path) t).map fun w => (i :: w.1, s :: w.2)).map
            (fun w => path.reverse ++ w.2)
          = if (s :: path).contains t then [] else g.pathsFrom target budget (s :: path) t := by
        intro t i
        split
        · rfl
        · rw [ih, List.map_map]
          exact List.map_congr_left fun w _ => by simp
      have back := congrArg (List.flatMap fun t =>
        if (s :: path).contains t then [] else g.pathsFrom target budget (s :: path) t)
        (List.zipIdx_map_fst 0 (g.succSlots s))
      rw [List.flatMap_map] at back
      rw [waysFrom_succ (by simpa using apart), List.map_flatMap]
      simp only [each, back]

/-- What the ways listed from a node have in common. -/
def Allowed (g : PropertyGraph) (target : Slot) (budget : Nat) (path : List Slot) (s : Slot)
    (route : List Nat) (nodes : List Slot) : Prop :=
  g.Way target s route nodes ∧ nodes.Nodup ∧ (∀ x ∈ nodes, x ∉ path) ∧ nodes.length ≤ budget + 1

theorem allowed_target (budget : Nat) (fresh : target ∉ path) :
    g.Allowed target budget path target route nodes ↔ route = [] ∧ nodes = [target] := by
  constructor
  · rintro ⟨way, once, -⟩
    exact way.of_target once
  · rintro ⟨rfl, rfl⟩
    exact ⟨.here, List.nodup_singleton target, by simpa using fresh, by simp⟩

theorem not_allowed_zero (apart : s ≠ target) : ¬g.Allowed target 0 path s route nodes := by
  rintro ⟨way, -, -, short⟩
  cases way with
  | here => exact apart rfl
  | step _ rest =>
      have some := List.length_pos_of_mem rest.start_mem
      rw [List.length_cons] at short
      omega

/-- A way onward takes an edge to a node that has not been passed. -/
theorem allowed_succ (apart : s ≠ target) (budget : Nat) (fresh : s ∉ path) :
    g.Allowed target (budget + 1) path s route nodes ↔
      ∃ t i onward rest, (g.succSlots s)[i]? = some t ∧ t ∉ s :: path ∧
        g.Allowed target budget (s :: path) t onward rest ∧ route = i :: onward ∧ nodes = s :: rest := by
  constructor
  · rintro ⟨way, once, clear, short⟩
    cases way with
    | here => exact absurd rfl apart
    | @step _ t i onward rest leads way =>
        obtain ⟨off, onceRest⟩ := List.nodup_cons.mp once
        have clearRest : ∀ x ∈ rest, x ∉ s :: path := by
          intro x member before
          rcases List.mem_cons.mp before with rfl | earlier
          · exact off member
          · exact clear x (List.mem_cons_of_mem _ member) earlier
        refine ⟨t, i, onward, rest, leads, clearRest t way.start_mem, ⟨way, onceRest, clearRest, ?_⟩,
          rfl, rfl⟩
        simpa using short
  · rintro ⟨t, i, onward, rest, leads, -, ⟨way, once, clear, short⟩, rfl, rfl⟩
    refine ⟨.step leads way, List.nodup_cons.mpr ⟨fun member => ?_, once⟩, ?_, by simpa using short⟩
    · exact clear s member List.mem_cons_self
    · intro x member
      rcases List.mem_cons.mp member with rfl | later
      · exact fresh
      · exact fun before => clear x later (List.mem_cons_of_mem _ before)

/-- A way is listed if and only if it avoids the nodes before, passes no node twice and is short
enough. -/
theorem mem_waysFrom (budget : Nat) (fresh : s ∉ path) :
    (route, nodes) ∈ g.waysFrom target budget path s ↔ g.Allowed target budget path s route nodes := by
  fun_induction waysFrom g target budget path s generalizing route nodes with
  | case1 budget path s there =>
      obtain rfl := eq_of_beq there
      rw [allowed_target budget fresh, List.mem_singleton, Prod.mk.injEq]
  | case2 path s apart =>
      exact iff_of_false List.not_mem_nil (not_allowed_zero (by simpa using apart))
  | case3 path s apart budget ih =>
      rw [allowed_succ (by simpa using apart) budget fresh, List.mem_flatMap]
      constructor
      · rintro ⟨⟨t, i⟩, taken, listed⟩
        by_cases met : t ∈ s :: path
        · rw [if_pos (List.contains_iff_mem.mpr met)] at listed
          cases listed
        · rw [if_neg (mt List.contains_iff_mem.mp met)] at listed
          obtain ⟨⟨onward, rest⟩, member, same⟩ := List.mem_map.mp listed
          obtain ⟨rfl, rfl⟩ : i :: onward = route ∧ s :: rest = nodes := by simpa using same
          exact ⟨t, i, onward, rest, List.mem_zipIdx_iff_getElem?.mp taken, met,
            (ih (t, i) met).mp member, rfl, rfl⟩
      · rintro ⟨t, i, onward, rest, leads, off, allowed, rfl, rfl⟩
        refine ⟨(t, i), List.mem_zipIdx_iff_getElem?.mpr leads, ?_⟩
        rw [if_neg (mt List.contains_iff_mem.mp off)]
        exact List.mem_map.mpr ⟨(onward, rest), (ih (t, i) off).mpr allowed, rfl⟩

/-- The ways are listed in the order of their routes. -/
theorem waysFrom_sorted (budget : Nat) (path : List Slot) (s : Slot) :
    (g.waysFrom target budget path s).Pairwise fun a b => a.1 < b.1 := by
  fun_induction waysFrom g target budget path s with
  | case1 => exact List.pairwise_singleton _ _
  | case2 => exact List.Pairwise.nil
  | case3 path s _ budget ih =>
      have begins : ∀ e : Slot × Nat, ∀ w ∈ (if (s :: path).contains e.1 then []
          else (g.waysFrom target budget (s :: path) e.1).map fun w => (e.2 :: w.1, s :: w.2)),
          ∃ onward, w.1 = e.2 :: onward := by
        intro e w listed
        split at listed
        · cases listed
        · obtain ⟨w, -, rfl⟩ := List.mem_map.mp listed
          exact ⟨w.1, rfl⟩
      rw [List.pairwise_flatMap]
      constructor
      · intro e _
        split
        · exact List.Pairwise.nil
        · exact List.pairwise_map.mpr ((ih e).imp fun before => List.Lex.cons before)
      · -- routes by an earlier edge come before those by a later one
        have ordered : (g.succSlots s).zipIdx.Pairwise fun a b => a.2 < b.2 := by
          rw [← List.pairwise_map (f := Prod.snd), List.zipIdx_map_snd]
          exact List.pairwise_lt_range'
        refine ordered.imp fun earlier w left w' right => ?_
        obtain ⟨onward, first⟩ := begins _ w left
        obtain ⟨onward', first'⟩ := begins _ w' right
        rw [first, first']
        exact List.Lex.rel earlier

/-! ## The search with a stack -/

/-- A search under way: the paths not yet finished, the next one first and each with its last node
first, and the paths found. -/
structure PathSearch where
  pending : List (List Slot)
  found : List (List Slot)

/-- Take the next path: note it if it is at the target, drop it if it is as long as allowed, and
otherwise go on from its last node to every successor it has not passed. -/
def turn (g : PropertyGraph) (target : Slot) (limit : Nat) (search : PathSearch) : PathSearch :=
  match search.pending with
  | [] => search
  | [] :: rest => { search with pending := rest }
  | (s :: path) :: rest =>
    if s == target then { pending := rest, found := search.found ++ [(s :: path).reverse] }
    else if (s :: path).length == limit then { search with pending := rest }
    else
      { search with
        pending := ((g.succSlots s).filter fun t => !(s :: path).contains t).map (· :: s :: path)
          ++ rest }

/-- Some number of turns leads from one state of the search to another. -/
def Turns (g : PropertyGraph) (target : Slot) (limit : Nat) (a b : PathSearch) : Prop :=
  ∃ n, (g.turn target limit)^[n] a = b

theorem Turns.trans {limit : Nat} {a b c : PathSearch} (first : g.Turns target limit a b)
    (second : g.Turns target limit b c) : g.Turns target limit a c := by
  obtain ⟨n, rfl⟩ := first
  obtain ⟨m, rfl⟩ := second
  exact ⟨m + n, Function.iterate_add_apply _ m n a⟩

theorem Turns.one {limit : Nat} {a b : PathSearch} (step : g.turn target limit a = b) :
    g.Turns target limit a b :=
  ⟨1, step⟩

/-- Going through the successors of a node finds what is found from each in turn. -/
theorem turns_successors {limit : Nat} {find : Slot → List (List Slot)}
    (each : ∀ t, t ∉ path → ∀ rest found,
      g.Turns target limit ⟨(t :: path) :: rest, found⟩ ⟨rest, found ++ find t⟩)
    (successors : List Slot) (rest found : List (List Slot)) :
    g.Turns target limit
      ⟨(successors.filter fun t => !path.contains t).map (· :: path) ++ rest, found⟩
      ⟨rest, found ++ successors.flatMap fun t => if path.contains t then [] else find t⟩ := by
  induction successors generalizing found with
  | nil => exact ⟨0, by simp⟩
  | cons t successors ih =>
      by_cases met : t ∈ path
      · simpa [met] using ih found
      · have later := ih (found ++ find t)
        simpa [met] using (each t met _ found).trans later

/-- The search takes a path from the stack, and after some turns has found all that the path goes
on to. -/
theorem turns_path (budget : Nat) (path : List Slot) (s : Slot) (rest found : List (List Slot)) :
    g.Turns target (path.length + 1 + budget) ⟨(s :: path) :: rest, found⟩
      ⟨rest, found ++ g.pathsFrom target budget path s⟩ := by
  fun_induction pathsFrom g target budget path s generalizing rest found with
  | case1 budget path s there => exact .one (by simp [turn, there])
  | case2 path s apart => exact .one (by simp [turn, apart])
  | case3 path s apart budget ih =>
      have opened : g.turn target (path.length + 1 + (budget + 1)) ⟨(s :: path) :: rest, found⟩
          = ⟨((g.succSlots s).filter fun t => !(s :: path).contains t).map (· :: s :: path) ++ rest,
            found⟩ := by
        simp [turn, apart]
      have each : ∀ t, t ∉ s :: path → ∀ rest found,
          g.Turns target (path.length + 1 + (budget + 1)) ⟨(t :: s :: path) :: rest, found⟩
            ⟨rest, found ++ g.pathsFrom target budget (s :: path) t⟩ := by
        intro t _ rest found
        have onward := ih t rest found
        rwa [List.length_cons, Nat.add_assoc _ 1 budget, Nat.add_comm 1 budget] at onward
      exact (Turns.one opened).trans (turns_successors each (g.succSlots s) rest found)

/-! ## Paths and reachability -/

/-- Edges join live nodes. -/
def Joined (g : PropertyGraph) : Prop := ∀ s, ∀ e ∈ g.succsOf s, g.Live s ∧ g.Live e.other

theorem Sound.joined (sound : g.Sound) : g.Joined := fun _ _ member =>
  ⟨sound.live_of_mem_succs member, sound.live_other_of_mem_succs member⟩

/-- After any history edges join live nodes. -/
theorem history_joined (u : SourceUnit) (cap : Int) (ops : List (GraphOp u)) :
    (history u cap ops).Joined :=
  (history_ordered u cap ops).wired.sound.joined

theorem succSlots_eq (g : PropertyGraph) (s : Slot) :
    g.succSlots s = (g.succsOf s).map (·.other) := by
  simp [succSlots, successors, edgesOf, succsOf, edgesAt]

section Joined

variable (joined : g.Joined)

include joined

theorem Joined.live (leads : t ∈ g.succSlots s) : g.Live s ∧ g.Live t := by
  rw [succSlots_eq] at leads
  obtain ⟨e, member, rfl⟩ := List.mem_map.mp leads
  exact joined s e member

/-- Breadth-first search tells whether some edges lead from one node to the other. -/
theorem Joined.reaches_iff (inside : s < g.nodes.size) :
    g.reaches s target = true ↔ Relation.TransGen (fun a b => b ∈ g.succSlots a) s target := by
  have room : ∀ x, Reachable g.succSlots [s] x → x ∈ List.range g.nodes.size := by
    rintro x ⟨start, listed, path⟩
    obtain rfl := List.mem_singleton.mp listed
    rw [List.mem_range]
    rcases path.cases_tail with same | ⟨y, -, leads⟩
    · exact same ▸ inside
    · exact (joined.live leads).2.lt_size
  have met (x : Slot) : x ∈ explore g.succSlots g.nodes.size [s] ↔ Reachable g.succSlots [s] x :=
    mem_explore room (by simp)
  simp only [reaches, List.any_eq_true, List.contains_iff_mem, met, Reachable, List.mem_singleton,
    exists_eq_left, Relation.TransGen.tail'_iff]

/-- A way from a live node passes live nodes. -/
theorem Joined.way_live (way : g.Way target s route nodes) (alive : g.Live s) :
    ∀ x ∈ nodes, g.Live x := by
  induction way with
  | here => exact fun x member => List.mem_singleton.mp member ▸ alive
  | step leads _ ih =>
      intro x member
      rcases List.mem_cons.mp member with rfl | later
      · exact alive
      · exact ih (joined.live (List.mem_of_getElem? leads)).2 x later

end Joined

/-- There are no more live slots than live nodes. -/
theorem length_le_numNodes (once : nodes.Nodup) (alive : ∀ x ∈ nodes, g.Live x) :
    nodes.length ≤ g.numNodes := by
  let live := (g.nodes.toList.zipIdx.filter fun e => !e.1.removed).map Prod.snd
  have listed : nodes ⊆ live := by
    intro x member
    obtain ⟨n, here, kept⟩ := alive x member
    refine List.mem_map.mpr ⟨(n, x), List.mem_filter.mpr ⟨?_, by simp [kept]⟩, rfl⟩
    exact List.mem_zipIdx_iff_getElem?.mpr (by simpa [node?] using here)
  have length : live.length = g.numNodes := by
    have back := congrArg (List.filter fun n : GraphNode => !n.removed)
      (List.zipIdx_map_fst 0 g.nodes.toList)
    rw [List.filter_map] at back
    rw [numNodes, ← back, List.length_map, List.length_map]
    rfl
  exact length ▸ (List.subperm_of_subset once listed).length_le

/-- From a node passed on the way there is a way too, which passes no other nodes. -/
theorem Way.from_mem (way : g.Way target s route nodes) (once : nodes.Nodup) (passed : t ∈ nodes) :
    ∃ route nodes, g.Way target t route nodes ∧ nodes.Nodup := by
  induction way with
  | here =>
      obtain rfl := List.mem_singleton.mp passed
      exact ⟨[], [t], .here, List.nodup_singleton t⟩
  | @step s _ i route nodes leads way ih =>
      rcases List.mem_cons.mp passed with rfl | later
      · exact ⟨i :: route, t :: nodes, .step leads way, once⟩
      · exact ih (List.nodup_cons.mp once).2 later

/-- Where edges lead there is a way that passes no node twice. -/
theorem exists_way (leads : Relation.ReflTransGen (fun a b => b ∈ g.succSlots a) s target) :
    ∃ route nodes, g.Way target s route nodes ∧ nodes.Nodup := by
  induction leads using Relation.ReflTransGen.head_induction_on with
  | refl => exact ⟨[], [target], .here, List.nodup_singleton target⟩
  | @head s t first _ ih =>
      obtain ⟨route, nodes, way, once⟩ := ih
      by_cases passed : s ∈ nodes
      · exact way.from_mem once passed
      · obtain ⟨i, edge⟩ := List.mem_iff_getElem?.mp first
        exact ⟨i :: route, s :: nodes, .step edge way, List.nodup_cons.mpr ⟨passed, once⟩⟩

theorem Way.reachable (way : g.Way target s route nodes) :
    Relation.ReflTransGen (fun a b => b ∈ g.succSlots a) s target := by
  induction way with
  | here => exact .refl
  | step leads _ ih => exact .head (List.mem_of_getElem? leads) ih

/-! ## The answer -/

section Answer

variable {source : Slot} {limit : Int} (atSource : source < g.nodes.size)
  (atTarget : target < g.nodes.size) (positive : 1 ≤ limit)

include atSource atTarget positive

theorem nodePaths_eq :
    g.nodePaths source target limit = g.pathsFrom target (limit.toNat - 1) [] source := by
  have some : ¬limit ≤ 0 := by omega
  simp [nodePaths, node?, some, Nat.not_le.mpr atSource, Nat.not_le.mpr atTarget]

/-- The paths found are those of the ways that pass no node twice and are no longer than allowed,
one for every route and in the order of the routes. -/
theorem nodePaths_ways :
    ∃ ways : List (List Nat × List Slot), g.nodePaths source target limit = ways.map Prod.snd ∧
      (ways.Pairwise fun a b => a.1 < b.1) ∧
      ∀ route nodes, (route, nodes) ∈ ways ↔
        g.Way target source route nodes ∧ nodes.Nodup ∧ nodes.length ≤ limit := by
  have budget : limit.toNat - 1 + 1 = limit.toNat := by omega
  refine ⟨g.waysFrom target (limit.toNat - 1) [] source, ?_, waysFrom_sorted _ _ _, ?_⟩
  · rw [nodePaths_eq atSource atTarget positive, pathsFrom_eq_ways]
    exact List.map_congr_left fun w _ => by simp
  · intro route nodes
    have short : nodes.length ≤ limit.toNat ↔ nodes.length ≤ limit := by omega
    rw [mem_waysFrom _ List.not_mem_nil, Allowed, budget]
    simp [short]

/-- The search with a stack comes to an end, with the paths found. -/
theorem nodePaths_turns :
    g.Turns target limit.toNat ⟨[[source]], []⟩ ⟨[], g.nodePaths source target limit⟩ := by
  have budget : limit.toNat - 1 + 1 = limit.toNat := by omega
  have run : g.Turns target _ ⟨[[source]], []⟩ _ := turns_path (limit.toNat - 1) [] source [] []
  rwa [List.length_nil, Nat.zero_add, Nat.add_comm, budget, List.nil_append,
    ← nodePaths_eq atSource atTarget positive] at run

/-- With room for all nodes, paths between different nodes are found if and only if breadth-first
search gets there. -/
theorem Joined.nodePaths_ne_nil_iff (joined : g.Joined) (apart : source ≠ target)
    (room : g.numNodes ≤ limit) :
    g.nodePaths source target limit ≠ [] ↔ g.reaches source target = true := by
  obtain ⟨ways, paths, -, listed⟩ := nodePaths_ways atSource atTarget positive
  rw [joined.reaches_iff atSource, paths, ne_eq, List.map_eq_nil_iff]
  constructor
  · intro found
    obtain ⟨⟨route, nodes⟩, member⟩ := List.exists_mem_of_ne_nil _ found
    have leads := ((listed route nodes).mp member).1.reachable
    exact (Relation.reflTransGen_iff_eq_or_transGen.mp leads).resolve_left (Ne.symm apart)
  · intro leads
    obtain ⟨t, first, -⟩ := Relation.TransGen.head'_iff.mp leads
    obtain ⟨route, nodes, way, once⟩ := exists_way leads.to_reflTransGen
    have few := length_le_numNodes once (joined.way_live way (joined.live first).1)
    exact List.ne_nil_of_mem ((listed route nodes).mpr ⟨way, once, by omega⟩)

end Answer

/-- Between two nodes of a graph of any history the search finds, in the order of their routes and
one for every route, the paths that pass no node twice and are no longer than allowed; the search
with a stack comes to an end with the same list.  If the length allowed is at least the number of
nodes, paths between different nodes are found if and only if breadth-first search gets there. -/
theorem nodePaths_exact (u : SourceUnit) (cap : Int) (ops : List (GraphOp u)) (source target : Slot)
    (limit : Int) (atSource : source < (history u cap ops).nodes.size)
    (atTarget : target < (history u cap ops).nodes.size) (positive : 1 ≤ limit) :
    (∃ ways : List (List Nat × List Slot),
      (history u cap ops).nodePaths source target limit = ways.map Prod.snd ∧
      (ways.Pairwise fun a b => a.1 < b.1) ∧
      ∀ route nodes, (route, nodes) ∈ ways ↔
        (history u cap ops).Way target source route nodes ∧ nodes.Nodup ∧ nodes.length ≤ limit) ∧
    (∃ turns, ((history u cap ops).turn target limit.toNat)^[turns] ⟨[[source]], []⟩
      = ⟨[], (history u cap ops).nodePaths source target limit⟩) ∧
    (source ≠ target → (history u cap ops).numNodes ≤ limit →
      ((history u cap ops).nodePaths source target limit ≠ [] ↔
        (history u cap ops).reaches source target = true)) :=
  ⟨nodePaths_ways atSource atTarget positive, nodePaths_turns atSource atTarget positive,
    (history_joined u cap ops).nodePaths_ne_nil_iff atSource atTarget positive⟩

namespace Paths

/-- A loop around a decision with an empty branch: both edges of the decision lead to the same
node. -/
def source : String :=
  "func f(n int) int \x7b\n\tfor n > 0 \x7b\n\t\tif n > 1 \x7b\n\t\t\x7d\n\t\tn--\n\t\x7d\n\treturn n\n\x7d\n"

def graph : PropertyGraph := history (Bracketing.unit source) 0 [.buildUnit]

end Paths

/-- From the decision there are two paths out of the loop, over the same nodes. -/
theorem nodePaths_exact_parallel :
    Paths.graph.nodes.size = 6 ∧ Paths.graph.numNodes = 6 ∧
      Paths.graph.nodePaths 2 1 6 = [[2, 5, 4, 3, 1], [2, 5, 4, 3, 1]] ∧
      (∃ turns, (Paths.graph.turn 1 6)^[turns] ⟨[[2]], []⟩
        = ⟨[], [[2, 5, 4, 3, 1], [2, 5, 4, 3, 1]]⟩) ∧
      Paths.graph.reaches 2 1 = true := by
  obtain ⟨size, live, found⟩ : Paths.graph.nodes.size = 6 ∧ Paths.graph.numNodes = 6 ∧
      Paths.graph.nodePaths 2 1 6 = [[2, 5, 4, 3, 1], [2, 5, 4, 3, 1]] := by
    have spelled : Paths.source.toList = _ := String.toList_ofList
    rw [Paths.graph, Bracketing.unit_spelled spelled]
    decide +kernel
  obtain ⟨-, run, reach⟩ := nodePaths_exact (Bracketing.unit Paths.source) 0 [.buildUnit] 2 1 6
    (by rw [← Paths.graph, size]; decide) (by rw [← Paths.graph, size]; decide) (by decide)
  rw [← Paths.graph, found] at run reach
  exact ⟨size, live, found, run, (reach (by decide) (by rw [live]; decide)).mp (by simp)⟩

end PropertyGraph

end Retarget
