/-
# Proofs.DigraphOrder -- depth-first search puts a relation in order exactly if it has no cycle

Which nodes can be reached is found by breadth-first search, so the test for cycles is right for any
relation between the nodes listed (`isCyclic_iff`).

Depth-first search puts a node before what is in order so far, after it has put everything the node
leads to.  What is in order stays there and all that it leads to comes later (`Settled`); what is new
can be reached from the node asked for (`Puts`), so without a cycle it is not the node itself.  The
depth allowed for is enough: an arc leads to a node below which there are fewer nodes (`below`).
-/
import Mathlib.Data.Finset.Card
import Retarget.Operation.Order
import Retarget.Proofs.OperationHistory
import Retarget.Proofs.Reach

namespace Retarget

open Relation (ReflTransGen TransGen)

set_option autoImplicit false
set_option linter.dupNamespace false

theorem nodup_eraseDups {α : Type} [BEq α] [LawfulBEq α] (l : List α) : l.eraseDups.Nodup := by
  cases l with
  | nil => exact .nil
  | cons a l =>
      rw [List.eraseDups_cons, List.nodup_cons]
      exact ⟨by simp [List.mem_eraseDups], nodup_eraseDups _⟩
termination_by l.length
decreasing_by exact Nat.lt_succ_of_le (List.length_filter_le _ _)

namespace Digraph

variable (d : Digraph)

def Arc (x y : OpId) : Prop := (x, y) ∈ d.arcs

def Acyclic : Prop := ∀ x, ¬TransGen d.Arc x x

/-- Each node is listed once, and arcs join nodes that are listed. -/
structure Proper : Prop where
  once : d.nodes.Nodup
  ends : ∀ {x y}, d.Arc x y → x ∈ d.nodes ∧ y ∈ d.nodes

/-- The nodes stand in an order in which no arc points back. -/
structure Orders (order : List OpId) : Prop where
  all : order.Perm d.nodes
  forward : order.Pairwise fun x y => ¬d.Arc y x

/-- What is in order: each node once, before everything it leads to. -/
def Settled : List OpId → Prop
  | [] => True
  | x :: later => x ∉ later ∧ (∀ y, d.Arc x y → y ∈ later) ∧ Settled later

/-- What it is to put some nodes before what is in order already. -/
structure Puts (roots order result : List OpId) : Prop where
  settled : d.Settled result
  keeps : order <:+ result
  covers : roots ⊆ result
  found : ∀ y ∈ result, y ∈ order ∨ ∃ x ∈ roots, ReflTransGen d.Arc x y

open Classical in
/-- The nodes that `x` leads to. -/
noncomputable def below (x : OpId) : Finset OpId := d.nodes.toFinset.filter (TransGen d.Arc x)

variable {d} {x y : OpId} {roots more order mid result : List OpId}

/-! ## Reachability -/

theorem mem_next : y ∈ d.next x ↔ d.Arc x y := by
  simp [next, Arc, List.mem_eraseDups]

theorem Proper.mem_of_reaches (proper : d.Proper) (inside : x ∈ d.nodes)
    (reaches : ReflTransGen d.Arc x y) : y ∈ d.nodes := by
  cases reaches with
  | refl => exact inside
  | tail _ arc => exact (proper.ends arc).2

theorem Proper.hasPath_iff (proper : d.Proper) (inside : x ∈ d.nodes) :
    d.hasPath x y = true ↔ ReflTransGen d.Arc x y := by
  have same : (fun a b => b ∈ d.next a) = d.Arc := by
    funext a b
    exact propext mem_next
  have reached (z : OpId) : Reachable d.next [x] z ↔ ReflTransGen d.Arc x z := by
    simp [Reachable, same]
  rw [hasPath, List.contains_iff_mem, reachable,
    mem_explore (fun z leads => proper.mem_of_reaches inside ((reached z).mp leads)) (Nat.le_refl _),
    reached]

/-- A node is on a cycle if it leads back to itself. -/
theorem Proper.onCycle_iff (proper : d.Proper) : d.onCycle x = true ↔ TransGen d.Arc x x := by
  rw [onCycle, List.any_eq_true, Relation.TransGen.head'_iff]
  refine exists_congr fun y => ?_
  rw [mem_next]
  exact and_congr_right fun arc => proper.hasPath_iff (proper.ends arc).2

theorem Proper.isCyclic_iff (proper : d.Proper) : d.isCyclic = true ↔ ¬d.Acyclic := by
  simp only [isCyclic, List.any_eq_true, proper.onCycle_iff, Acyclic, not_forall, not_not]
  constructor
  · rintro ⟨x, -, cycle⟩
    exact ⟨x, cycle⟩
  · rintro ⟨x, cycle⟩
    obtain ⟨y, arc, -⟩ := Relation.TransGen.head'_iff.mp cycle
    exact ⟨x, (proper.ends arc).1, cycle⟩

/-! ## The order -/

theorem Settled.nodup (settled : d.Settled order) : order.Nodup := by
  induction order with
  | nil => exact .nil
  | cons x later ih => exact List.nodup_cons.mpr ⟨settled.1, ih settled.2.2⟩

/-- What a settled node leads to is settled. -/
theorem Settled.mem_of_arc (settled : d.Settled order) (member : x ∈ order) (arc : d.Arc x y) :
    y ∈ order := by
  induction order with
  | nil => cases member
  | cons z later ih =>
      rcases List.mem_cons.mp member with rfl | member
      · exact List.mem_cons_of_mem _ (settled.2.1 y arc)
      · exact List.mem_cons_of_mem _ (ih settled.2.2 member)

theorem Settled.forward (settled : d.Settled order) : order.Pairwise fun x y => ¬d.Arc y x := by
  induction order with
  | nil => exact .nil
  | cons x later ih =>
      refine List.pairwise_cons.mpr ⟨fun y member back => ?_, ih settled.2.2⟩
      exact settled.1 (settled.2.2.mem_of_arc member back)

theorem Puts.nothing (settled : d.Settled order) : d.Puts [] order order :=
  ⟨settled, List.suffix_refl _, List.nil_subset _, fun _ old => Or.inl old⟩

theorem Puts.andThen (first : d.Puts [x] order mid) (then_ : d.Puts more mid result) :
    d.Puts (x :: more) order result where
  settled := then_.settled
  keeps := first.keeps.trans then_.keeps
  covers := List.cons_subset.mpr
    ⟨then_.keeps.subset (first.covers (List.mem_singleton_self x)), then_.covers⟩
  found y met := by
    rcases then_.found y met with before | ⟨z, root, reaches⟩
    · refine (first.found y before).imp_right fun ⟨z, root, reaches⟩ => ?_
      exact ⟨z, List.mem_singleton.mp root ▸ List.mem_cons_self, reaches⟩
    · exact Or.inr ⟨z, List.mem_cons_of_mem _ root, reaches⟩

theorem puts_foldl (put : List OpId → OpId → List OpId) (roots : List OpId)
    (one : ∀ x ∈ roots, ∀ order, d.Settled order → d.Puts [x] order (put order x))
    (settled : d.Settled order) : d.Puts roots order (roots.foldl put order) := by
  induction roots generalizing order with
  | nil => exact .nothing settled
  | cons x more ih =>
      obtain ⟨first, others⟩ := List.forall_mem_cons.mp one
      have here := first order settled
      exact here.andThen (ih others here.settled)

theorem Proper.card_below_lt (proper : d.Proper) (acyclic : d.Acyclic) (arc : d.Arc x y) :
    (d.below y).card < (d.below x).card := by
  refine Finset.card_lt_card (Finset.ssubset_iff_of_subset ?_ |>.mpr ⟨y, ?_, ?_⟩)
  · intro z
    simp only [below, Finset.mem_filter]
    exact fun ⟨inside, leads⟩ => ⟨inside, .head arc leads⟩
  · simpa [below] using ⟨(proper.ends arc).2, TransGen.single arc⟩
  · simp [below, acyclic y]

theorem card_below_lt_length (acyclic : d.Acyclic) (inside : x ∈ d.nodes) :
    (d.below x).card < d.nodes.length := by
  have fewer : d.below x ⊂ d.nodes.toFinset := by
    classical
    refine Finset.ssubset_iff_of_subset (Finset.filter_subset _ _) |>.mpr ⟨x, by simpa, ?_⟩
    simp [acyclic x]
  exact Nat.lt_of_lt_of_le (Finset.card_lt_card fewer) (List.toFinset_card_le _)

/-- The search from a node puts it and what it leads to, if it may go deeper than there are nodes
below it. -/
theorem Proper.puts_putFirst (proper : d.Proper) (acyclic : d.Acyclic) {depth : Nat}
    (deep : (d.below x).card < depth) (settled : d.Settled order) :
    d.Puts [x] order (d.putFirst depth order x) := by
  induction depth generalizing x order with
  | zero => cases deep
  | succ depth ih =>
      rw [putFirst]
      by_cases old : x ∈ order
      · rw [if_pos (by simpa using old)]
        exact ⟨settled, List.suffix_refl _, List.cons_subset.mpr ⟨old, List.nil_subset _⟩, fun _ => Or.inl⟩
      rw [if_neg (by simpa using old)]
      have arcs {y : OpId} : y ∈ (d.next x).mergeSort (fun a b => b ≤ a) ↔ d.Arc x y := by
        rw [List.mem_mergeSort, mem_next]
      have inner := puts_foldl (d.putFirst depth) ((d.next x).mergeSort fun a b => b ≤ a)
        (fun y leads order settled => ih (Nat.lt_of_lt_of_le
          (proper.card_below_lt acyclic (arcs.mp leads)) (Nat.le_of_lt_succ deep)) settled) settled
      refine ⟨⟨fun again => ?_, fun y arc => inner.covers (arcs.mpr arc), inner.settled⟩,
        inner.keeps.trans (List.suffix_cons _ _), List.cons_subset.mpr ⟨List.mem_cons_self, List.nil_subset _⟩,
        fun y met => ?_⟩
      · -- what has been put new is reached from `x`, so it is not `x`
        rcases inner.found x again with before | ⟨y, root, back⟩
        · exact old before
        · exact acyclic x (.head' (arcs.mp root) back)
      · rcases List.mem_cons.mp met with rfl | met
        · exact Or.inr ⟨y, List.mem_singleton_self y, .refl⟩
        · refine (inner.found y met).imp_right fun ⟨z, root, reaches⟩ => ?_
          exact ⟨x, List.mem_singleton_self x, .head (arcs.mp root) reaches⟩

theorem Proper.orders_search (proper : d.Proper) (acyclic : d.Acyclic) :
    d.Orders ((d.nodes.mergeSort fun a b => b ≤ a).foldl (d.putFirst d.nodes.length) []) := by
  have nodes {x : OpId} : x ∈ d.nodes.mergeSort (fun a b => b ≤ a) ↔ x ∈ d.nodes :=
    List.mem_mergeSort
  have start : d.Settled [] := trivial
  have puts := puts_foldl (d.putFirst d.nodes.length) (d.nodes.mergeSort fun a b => b ≤ a)
    (fun x root order settled => proper.puts_putFirst acyclic
      (card_below_lt_length acyclic (nodes.mp root)) settled) start
  refine ⟨(List.perm_ext_iff_of_nodup puts.settled.nodup proper.once).mpr fun y => ?_,
    puts.settled.forward⟩
  constructor
  · intro met
    obtain ⟨x, root, reaches⟩ := (puts.found y met).resolve_left nofun
    exact proper.mem_of_reaches (nodes.mp root) reaches
  · exact fun inside => puts.covers (nodes.mpr inside)

/-- What is asked of a sort: an order in which no arc points back, and nothing exactly for a relation
with a cycle. -/
def Sorts (sort : Digraph → Option (List OpId)) : Prop :=
  ∀ d : Digraph, d.Proper → ((sort d).isSome ↔ d.Acyclic) ∧ ∀ order, sort d = some order → d.Orders order

theorem sorts_order? : Sorts Digraph.order? := by
  intro d proper
  rw [order?]
  by_cases cyclic : d.isCyclic = true
  · rw [if_pos cyclic]
    exact ⟨iff_of_false nofun (proper.isCyclic_iff.mp cyclic), nofun⟩
  · have acyclic := not_not.mp (proper.isCyclic_iff.not.mp cyclic)
    rw [if_neg cyclic]
    refine ⟨iff_of_true rfl acyclic, fun order found => ?_⟩
    exact Option.some.inj found ▸ proper.orders_search acyclic

end Digraph

/-! ## The relation of an operation graph -/

namespace OperationGraph

variable {g : OperationGraph} {x y : OpId}

theorem Consistent.mem_ids_iff (consistent : g.Consistent) :
    x ∈ g.nodes.map (·.id) ↔ (g.node? x).isSome := by
  refine ⟨fun member => ?_, consistent.mem_ids⟩
  obtain ⟨n, there, rfl⟩ := List.mem_map.mp member
  obtain ⟨i, here⟩ := mem_nodes_iff.mp there
  rw [node?_eq_some_iff.mpr ⟨i, consistent.slotted i n here, here⟩]
  rfl

theorem Consistent.arc_digraph_iff (consistent : g.Consistent) (keep : OpEdge → Bool) :
    (g.digraph keep).Arc x y ↔ ∃ e ∈ g.edges, keep e = true ∧ e.source = x ∧ e.target = y := by
  simp only [Digraph.Arc, digraph, arcs, List.mem_map, List.mem_filter, Prod.mk.injEq, and_assoc]
  refine exists_congr fun e => and_congr_right fun drawn => ?_
  obtain ⟨start, stop, apart⟩ := consistent.joined e drawn
  simp [start, stop, apart]

/-- The ends of the edges are among the nodes that are there. -/
theorem Consistent.mem_digraph_nodes (consistent : g.Consistent) (keep : OpEdge → Bool) :
    x ∈ (g.digraph keep).nodes ↔ (g.node? x).isSome := by
  simp only [digraph, List.mem_mergeSort, List.mem_eraseDups, List.mem_append, consistent.mem_ids_iff,
    or_iff_left_iff_imp]
  intro isEnd
  obtain ⟨⟨a, b⟩, arc, among⟩ := List.mem_flatMap.mp isEnd
  obtain ⟨e, drawn, -, rfl, rfl⟩ := (consistent.arc_digraph_iff keep).mp arc
  obtain ⟨start, stop, -⟩ := consistent.joined e drawn
  rcases List.mem_pair.mp among with rfl | rfl
  · exact start
  · exact stop

theorem Consistent.digraph_proper (consistent : g.Consistent) (keep : OpEdge → Bool) :
    (g.digraph keep).Proper where
  once := (List.mergeSort_perm _ _).nodup_iff.mpr (nodup_eraseDups _)
  ends arc := by
    obtain ⟨e, drawn, -, rfl, rfl⟩ := (consistent.arc_digraph_iff keep).mp arc
    obtain ⟨start, stop, -⟩ := consistent.joined e drawn
    simp only [consistent.mem_digraph_nodes]
    exact ⟨start, stop⟩

end OperationGraph

end Retarget
