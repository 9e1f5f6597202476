/-
# Proofs.LongestChain -- lengths carried along any order without back arcs are those of the longest chains

Give every node a height, one more than the greatest among the nodes that lead to it (`Heights`).  No
chain is longer than its last node is high, since heights rise along it; and from each node a chain can
be followed down by one at a time.  So the greatest height is the length of the longest chain
(`Heights.isGreatest`).

Heights are found along any order in which no arc points back, for when a node's turn comes, the nodes
that lead to it have had theirs.  They may be pulled, each node asking those before it
(`Orders.heights_lengthOf`), or pushed, each node telling those after it (`Orders.heights_pushed`).
Either way the same length is found (`Proper.longestBy?_eq`).
-/
import Mathlib
import Retarget.Proofs.DigraphOrder

namespace Retarget

open Relation (TransGen)

set_option autoImplicit false
set_option linter.dupNamespace false

namespace Digraph

variable (d : Digraph)

/-- Nodes each of which leads to the next; there may be none. -/
structure Chain (ids : List OpId) : Prop where
  listed : ids ⊆ d.nodes
  linked : ids.IsChain d.Arc

/-- A node is one higher than the highest that leads to it. -/
def Heights (height : OpId → Nat) : Prop :=
  ∀ x ∈ d.nodes, ∀ n, height x ≤ n ↔ 0 < n ∧ ∀ y, d.Arc y x → height y < n

/-! ## Lengths pushed forward -/

/-- How far lengths have been pushed: the greatest met, and for each node the greatest length of the
chains that lead to it. -/
structure Push where
  best : Nat
  before : OpId → Nat

/-- The turn of `x`, which makes the chains that lead to it longer by one. -/
def push (p : Push) (x : OpId) : Push :=
  let length := p.before x + 1
  { best := max p.best length
    before := fun y => if (d.next x).contains y then max (p.before y) length else p.before y }

def pushed (order : List OpId) : Push := order.foldl d.push ⟨0, fun _ => 0⟩

/-- The number of nodes on the longest chain, with lengths pushed along the order that `sort` gives. -/
def longestBy? (sort : Digraph → Option (List OpId)) : Option Nat :=
  (sort d).map fun order => (d.pushed order).best

variable {d} {x y : OpId} {ids order : List OpId} {height : OpId → Nat}

/-! ## Heights and chains -/

/-- No chain is longer than its last node is high. -/
theorem Heights.length_le (heights : d.Heights height) (listed : ids ++ [x] ⊆ d.nodes)
    (linked : (ids ++ [x]).IsChain d.Arc) : (ids ++ [x]).length ≤ height x := by
  induction ids using List.reverseRecOn generalizing x with
  | nil => exact ((heights x (listed (by simp)) _).mp (Nat.le_refl _)).1
  | append_singleton ids y ih =>
      rw [List.append_assoc, List.singleton_append, List.isChain_append_cons_cons] at linked
      have lower := ih (List.append_subset.mp listed).1 linked.1
      have rises := ((heights x (listed (by simp)) _).mp (Nat.le_refl _)).2 y linked.2.1
      rw [List.length_append, List.length_singleton]
      exact Nat.succ_le_of_lt (Nat.lt_of_le_of_lt lower rises)

/-- To every node leads a chain as long as the node is high. -/
theorem Heights.exists_chain (heights : d.Heights height) (proper : d.Proper) (inside : x ∈ d.nodes) :
    ∃ ids, ids ++ [x] ⊆ d.nodes ∧ (ids ++ [x]).IsChain d.Arc ∧ (ids ++ [x]).length = height x := by
  induction h : height x using Nat.strongRecOn generalizing x with
  | ind n ih =>
      obtain ⟨pos, rises⟩ := (heights x inside n).mp (Nat.le_of_eq h)
      by_cases low : n = 1
      · exact ⟨[], List.cons_subset.mpr ⟨inside, List.nil_subset _⟩, List.isChain_singleton x, low.symm⟩
      -- some node that leads to `x` is lower by one, or `x` would not be as high as it is
      obtain ⟨y, arc, high⟩ : ∃ y, d.Arc y x ∧ n - 1 ≤ height y := by
        by_contra none
        have under : height x ≤ n - 1 := (heights x inside (n - 1)).mpr
          ⟨by omega, fun y arc => Nat.lt_of_not_le fun high => none ⟨y, arc, high⟩⟩
        omega
      have less := rises y arc
      obtain ⟨ids, listed, linked, length⟩ := ih _ less (proper.ends arc).1 rfl
      refine ⟨ids ++ [y], ?_, ?_, ?_⟩
      · exact List.append_subset.mpr ⟨listed, List.cons_subset.mpr ⟨inside, List.nil_subset _⟩⟩
      · rw [List.append_assoc, List.singleton_append, List.isChain_append_cons_cons]
        exact ⟨linked, arc, List.isChain_singleton x⟩
      · rw [List.length_append, length, List.length_singleton]
        omega

theorem Heights.isGreatest (heights : d.Heights height) (proper : d.Proper) {best : Nat}
    (bounds : ∀ n, best ≤ n ↔ ∀ x ∈ d.nodes, height x ≤ n) :
    IsGreatest {n | ∃ ids, d.Chain ids ∧ ids.length = n} best := by
  constructor
  · by_cases flat : best = 0
    · exact ⟨[], ⟨List.nil_subset _, .nil⟩, flat.symm⟩
    obtain ⟨x, inside, high⟩ : ∃ x ∈ d.nodes, best ≤ height x := by
      by_contra none
      have less : best ≤ best - 1 := (bounds _).mpr fun x inside =>
        Nat.le_sub_one_of_lt (Nat.lt_of_not_le fun high => none ⟨x, inside, high⟩)
      omega
    obtain ⟨ids, listed, linked, length⟩ := heights.exists_chain proper inside
    have low := (bounds best).mp (Nat.le_refl _) x inside
    exact ⟨ids ++ [x], ⟨listed, linked⟩, by omega⟩
  · rintro n ⟨ids, ⟨listed, linked⟩, rfl⟩
    rcases List.eq_nil_or_concat' ids with rfl | ⟨init, x, rfl⟩
    · exact Nat.zero_le _
    · exact Nat.le_trans (heights.length_le listed linked)
        ((bounds best).mp (Nat.le_refl _) x (listed (by simp)))

/-! ## Pulled along an order -/

theorem foldl_max_le_iff (l : List Nat) (a n : Nat) :
    l.foldl max a ≤ n ↔ a ≤ n ∧ ∀ m ∈ l, m ≤ n := by
  induction l generalizing a with
  | nil => simp
  | cons b l ih => rw [List.foldl_cons, ih, Nat.max_le, List.forall_mem_cons, and_assoc]

/-- The length found for a node, zero before its turn. -/
def lengthOf (d : Digraph) (order : List OpId) (x : OpId) : Nat :=
  ((d.chainLengths order).lookup x).getD 0

theorem chainLengths_snoc (order : List OpId) (x : OpId) : d.chainLengths (order ++ [x]) =
    (x, ((d.arcs.filter (·.2 == x)).map fun a => d.lengthOf order a.1).foldl max 0 + 1) ::
      d.chainLengths order := by
  rw [chainLengths, List.foldl_concat]
  rfl

theorem lengthOf_snoc (order : List OpId) (x y : OpId) : d.lengthOf (order ++ [x]) y =
    if y = x then ((d.arcs.filter (·.2 == x)).map fun a => d.lengthOf order a.1).foldl max 0 + 1
    else d.lengthOf order y := by
  rw [lengthOf, chainLengths_snoc, List.lookup_cons]
  by_cases same : y = x
  · simp [same]
  · simp [same, beq_eq_false_iff_ne.mpr same, lengthOf]

/-- Whose turn has come has its height, as nothing that leads to it comes later. -/
theorem lengthOf_le_iff (loops : ∀ x, ¬d.Arc x x) (once : order.Nodup)
    (forward : order.Pairwise fun x y => ¬d.Arc y x) (member : x ∈ order) (n : Nat) :
    d.lengthOf order x ≤ n ↔ 0 < n ∧ ∀ y, d.Arc y x → d.lengthOf order y < n := by
  induction order using List.reverseRecOn generalizing x with
  | nil => cases member
  | append_singleton order z ih =>
      obtain ⟨once', -, apart⟩ := List.nodup_append.mp once
      obtain ⟨forward', -, later⟩ := List.pairwise_append.mp forward
      have unchanged (arcless : ¬d.Arc z x) : (∀ y, d.Arc y x → d.lengthOf (order ++ [z]) y < n) ↔
          ∀ y, d.Arc y x → d.lengthOf order y < n := by
        refine forall_congr' fun y => imp_congr_right fun arc => ?_
        rw [lengthOf_snoc, if_neg (by rintro rfl; exact arcless arc)]
      rcases List.mem_append.mp member with old | new
      · rw [unchanged (later x old z (List.mem_singleton_self z)), lengthOf_snoc,
          if_neg (apart x old z (List.mem_singleton_self z)), ih once' forward' old]
      · obtain rfl := List.mem_singleton.mp new
        rw [unchanged (loops x), lengthOf_snoc, if_pos rfl]
        cases n with
        | zero => simp
        | succ n =>
            rw [Nat.succ_le_succ_iff, foldl_max_le_iff]
            simp only [Nat.lt_succ_iff]
            simp [Arc]

theorem Orders.heights_lengthOf (orders : d.Orders order) (proper : d.Proper) (loops : ∀ x, ¬d.Arc x x) :
    d.Heights (d.lengthOf order) := fun _ inside n =>
  lengthOf_le_iff loops (orders.all.nodup_iff.mpr proper.once) orders.forward
    (orders.all.mem_iff.mpr inside) n

/-- The greatest of the lengths found. -/
theorem foldl_chainLengths_le_iff (once : order.Nodup) (n : Nat) :
    ((d.chainLengths order).map (·.2)).foldl max 0 ≤ n ↔ ∀ x ∈ order, d.lengthOf order x ≤ n := by
  rw [foldl_max_le_iff, and_iff_right (Nat.zero_le n)]
  induction order using List.reverseRecOn with
  | nil => simp [chainLengths]
  | append_singleton order z ih =>
      obtain ⟨once', -, apart⟩ := List.nodup_append.mp once
      have before : ∀ x ∈ order, d.lengthOf (order ++ [z]) x = d.lengthOf order x := by
        intro x old
        rw [lengthOf_snoc, if_neg (apart x old z (List.mem_singleton_self z))]
      rw [chainLengths_snoc, List.map_cons, List.forall_mem_cons, ih once', List.forall_mem_append,
        List.forall_mem_singleton, lengthOf_snoc order z z, if_pos rfl, and_comm]
      exact and_congr_left fun _ => forall₂_congr fun x old => by rw [before x old]

/-! ## Pushed along an order -/

theorem pushed_snoc (order : List OpId) (x : OpId) :
    d.pushed (order ++ [x]) = d.push (d.pushed order) x := List.foldl_concat ..

theorem best_push_le_iff (p : Push) (x : OpId) (n : Nat) :
    (d.push p x).best ≤ n ↔ p.best ≤ n ∧ p.before x < n := Nat.max_le

/-- Only those that `x` leads to are told. -/
theorem before_push_le_iff (p : Push) (x y : OpId) (n : Nat) :
    (d.push p x).before y ≤ n ↔ p.before y ≤ n ∧ (d.Arc x y → p.before x < n) := by
  by_cases arc : d.Arc x y
  · have told : (d.push p x).before y = max (p.before y) (p.before x + 1) := by
      simp [push, mem_next, arc]
    rw [told, Nat.max_le, Nat.succ_le_iff, imp_iff_right arc]
  · simp [push, mem_next, arc]

/-- What has been pushed: the greatest of the lengths of those whose turn has come, and for each node
the greatest of those among them that lead to it. -/
theorem pushed_le_iff (loops : ∀ x, ¬d.Arc x x) (forward : order.Pairwise fun x y => ¬d.Arc y x)
    (n : Nat) : ((d.pushed order).best ≤ n ↔ ∀ x ∈ order, (d.pushed order).before x < n) ∧
      ∀ y, (d.pushed order).before y ≤ n ↔
        ∀ x ∈ order, d.Arc x y → (d.pushed order).before x < n := by
  induction order using List.reverseRecOn with
  | nil => simp [pushed]
  | append_singleton order z ih =>
      obtain ⟨forward', -, later⟩ := List.pairwise_append.mp forward
      obtain ⟨best, before⟩ := ih forward'
      have told {x : OpId} (arcless : ¬d.Arc z x) :
          (d.push (d.pushed order) z).before x = (d.pushed order).before x := by
        simp [push, mem_next, arcless]
      have old : ∀ x ∈ order, (d.push (d.pushed order) z).before x = (d.pushed order).before x :=
        fun x member => told (later x member z (List.mem_singleton_self z))
      rw [pushed_snoc]
      refine ⟨?_, fun y => ?_⟩
      · rw [best_push_le_iff, best, List.forall_mem_append, List.forall_mem_singleton, told (loops z)]
        exact and_congr_left fun _ => forall₂_congr fun x member => by rw [old x member]
      · rw [before_push_le_iff, before, List.forall_mem_append, List.forall_mem_singleton,
          told (loops z)]
        exact and_congr_left fun _ => forall₂_congr fun x member => by rw [old x member]

theorem Orders.heights_pushed (orders : d.Orders order) (proper : d.Proper) (loops : ∀ x, ¬d.Arc x x) :
    d.Heights fun x => (d.pushed order).before x + 1 := by
  intro x _ n
  cases n with
  | zero => simp
  | succ n =>
      rw [Nat.succ_le_succ_iff, (pushed_le_iff loops orders.forward n).2 x,
        and_iff_right (Nat.succ_pos n)]
      refine forall_congr' fun y => ⟨fun below arc => ?_, fun below _ arc => ?_⟩
      · exact Nat.succ_lt_succ (below (orders.all.mem_iff.mpr (proper.ends arc).1) arc)
      · exact Nat.lt_of_succ_lt_succ (below arc)

/-! ## The longest chain -/

/-- Along any order without back arcs both ways find the length of the longest chain. -/
theorem Orders.isGreatest (orders : d.Orders order) (proper : d.Proper) (acyclic : d.Acyclic) :
    IsGreatest {n | ∃ ids, d.Chain ids ∧ ids.length = n}
        (((d.chainLengths order).map (·.2)).foldl max 0) ∧
      IsGreatest {n | ∃ ids, d.Chain ids ∧ ids.length = n} (d.pushed order).best := by
  have loops : ∀ x, ¬d.Arc x x := fun x arc => acyclic x (.single arc)
  have once : order.Nodup := orders.all.nodup_iff.mpr proper.once
  refine ⟨(orders.heights_lengthOf proper loops).isGreatest proper fun n => ?_,
    (orders.heights_pushed proper loops).isGreatest proper fun n => ?_⟩
  · rw [foldl_chainLengths_le_iff once]
    exact forall_congr' fun x => imp_congr_left orders.all.mem_iff
  · rw [(pushed_le_iff loops orders.forward n).1]
    exact forall_congr' fun x => imp_congr_left orders.all.mem_iff

theorem Proper.longestChain?_of_cyclic (proper : d.Proper) (cyclic : ¬d.Acyclic) :
    d.longestChain? = none := by
  rw [longestChain?, order?, if_pos (proper.isCyclic_iff.mpr cyclic), Option.map_none]

theorem Proper.longestChain?_of_acyclic (proper : d.Proper) (acyclic : d.Acyclic) :
    ∃ n, d.longestChain? = some n ∧ IsGreatest {n | ∃ ids, d.Chain ids ∧ ids.length = n} n := by
  obtain ⟨order, found⟩ := Option.isSome_iff_exists.mp ((sorts_order? d proper).1.mpr acyclic)
  refine ⟨_, by rw [longestChain?, found, Option.map_some], ?_⟩
  exact (((sorts_order? d proper).2 order found).isGreatest proper acyclic).1

/-- Neither the order nor the way in which lengths are carried makes a difference. -/
theorem Proper.longestBy?_eq (proper : d.Proper) {sort : Digraph → Option (List OpId)}
    (sorts : Sorts sort) : d.longestBy? sort = d.longestChain? := by
  by_cases acyclic : d.Acyclic
  · obtain ⟨order, found⟩ := Option.isSome_iff_exists.mp ((sorts d proper).1.mpr acyclic)
    obtain ⟨n, longest, greatest⟩ := proper.longestChain?_of_acyclic acyclic
    have pushed := (((sorts d proper).2 order found).isGreatest proper acyclic).2
    rw [longestBy?, found, longest, Option.map_some, pushed.unique greatest]
  · have none : sort d = none := Option.not_isSome_iff_eq_none.mp ((sorts d proper).1.not.mpr acyclic)
    rw [longestBy?, none, proper.longestChain?_of_cyclic acyclic, Option.map_none]

end Digraph

/-! ## The critical path -/

namespace OperationGraph

variable (g : OperationGraph)

/-- A data edge leads from one node to another. -/
def DataArc (x y : OpId) : Prop := ∃ e ∈ g.edges, e.kind = .data ∧ e.source = x ∧ e.target = y

/-- Nodes that are there, each joined to the next by a data edge; there may be none. -/
structure DataPath (ids : List OpId) : Prop where
  live : ∀ x ∈ ids, (g.node? x).isSome
  linked : ids.IsChain g.DataArc

/-- The critical path with lengths pushed along the order that `sort` gives; zero without one. -/
def criticalPathBy (sort : Digraph → Option (List OpId)) : Nat :=
  ((g.digraph (·.kind == .data)).longestBy? sort).getD 0

variable {g} {x y : OpId} {ids : List OpId}

theorem Consistent.arc_iff_dataArc (consistent : g.Consistent) :
    (g.digraph (·.kind == .data)).Arc x y ↔ g.DataArc x y := by
  simp [consistent.arc_digraph_iff, DataArc]

theorem Consistent.acyclic_iff (consistent : g.Consistent) :
    (g.digraph (·.kind == .data)).Acyclic ↔ ∀ x, ¬TransGen g.DataArc x x := by
  have same : (g.digraph (·.kind == .data)).Arc = g.DataArc := by
    funext x y
    exact propext consistent.arc_iff_dataArc
  rw [Digraph.Acyclic, same]

theorem Consistent.chain_iff (consistent : g.Consistent) :
    (g.digraph (·.kind == .data)).Chain ids ↔ g.DataPath ids := by
  have links := List.IsChain.iff (l := ids) fun x y => consistent.arc_iff_dataArc (x := x) (y := y)
  have there : ids ⊆ (g.digraph (·.kind == .data)).nodes ↔ ∀ x ∈ ids, (g.node? x).isSome :=
    forall₂_congr fun x _ => consistent.mem_digraph_nodes _
  exact ⟨fun chain => ⟨there.mp chain.listed, links.mp chain.linked⟩,
    fun path => ⟨there.mpr path.live, links.mpr path.linked⟩⟩

/-- After any history of changes to an empty graph the critical path is the greatest number of nodes
on a path of data edges, as long as these form no cycle; it is zero if they do, or if no node is
there.  Lengths pushed along the order that any sort gives come to the same. -/
theorem criticalPath_longest (name : String) (changes : List GraphChange)
    (sort : Digraph → Option (List OpId)) (sorts : Digraph.Sorts sort) :
    let g := made name changes
    g.criticalPath = g.criticalPathBy sort ∧
      ((∀ x, ¬TransGen g.DataArc x x) →
        IsGreatest {n | ∃ ids, g.DataPath ids ∧ ids.length = n} g.criticalPath) ∧
      ((∃ x, TransGen g.DataArc x x) → g.criticalPath = 0) ∧
      (g.nodes = [] → g.criticalPath = 0) := by
  intro g
  have consistent : g.Consistent := (new_consistent name).changed changes
  have proper := consistent.digraph_proper (·.kind == .data)
  have longest : (∀ x, ¬TransGen g.DataArc x x) →
      IsGreatest {n | ∃ ids, g.DataPath ids ∧ ids.length = n} g.criticalPath := by
    intro acyclic
    obtain ⟨n, found, greatest⟩ := proper.longestChain?_of_acyclic (consistent.acyclic_iff.mpr acyclic)
    simp only [consistent.chain_iff] at greatest
    rwa [criticalPath, found, Option.getD_some]
  have cyclic : (∃ x, TransGen g.DataArc x x) → g.criticalPath = 0 := by
    rintro ⟨x, cycle⟩
    rw [criticalPath, proper.longestChain?_of_cyclic fun acyclic =>
      consistent.acyclic_iff.mp acyclic x cycle, Option.getD_none]
  refine ⟨?_, longest, cyclic, fun empty => ?_⟩
  · rw [criticalPath, criticalPathBy, proper.longestBy?_eq sorts]
  · by_cases some : ∃ x, TransGen g.DataArc x x
    · exact cyclic some
    obtain ⟨⟨ids, path, length⟩, -⟩ := longest fun x cycle => some ⟨x, cycle⟩
    have none : ids = [] := List.eq_nil_iff_forall_not_mem.mpr fun x member => by
      have there := consistent.mem_ids (path.live x member)
      rw [empty] at there
      cases there
    rw [← length, none, List.length_nil]

/-- Two ways of data, one of them with a second edge beside the first, and a control edge back. -/
def twoWays : List GraphChange := [
  .addNode { kind := .load, name := "a" }, .addNode { kind := .add, name := "b" },
  .addNode { kind := .add, name := "c" }, .addNode { kind := .store, name := "d" },
  .addEdge 0 1 .data "x", .addEdge 0 1 .data "y", .addEdge 1 2 .data "z", .addEdge 2 3 .data "w",
  .addEdge 0 3 .data "x", .addEdge 3 0 .control "", .addNode { kind := .load, name := "e" }]

/-- The longer way counts each of its nodes once; with a data edge back there is nothing to count. -/
theorem criticalPath_longest_twoWays :
    Digraph.Sorts Digraph.order? ∧
      (∀ x, ¬TransGen (made "g" twoWays).DataArc x x) ∧
      (made "g" twoWays).criticalPathBy Digraph.order? = 4 ∧
      IsGreatest {n | ∃ ids, (made "g" twoWays).DataPath ids ∧ ids.length = n} 4 ∧
      TransGen (made "g" (twoWays ++ [.addEdge 3 0 .data "v"])).DataArc 0 0 ∧
      (made "g" (twoWays ++ [.addEdge 3 0 .data "v"])).criticalPath = 0 ∧
      (made "g" []).criticalPath = 0 := by
  obtain ⟨same, longest, -, -⟩ :=
    criticalPath_longest "g" twoWays Digraph.order? Digraph.sorts_order?
  obtain ⟨-, -, cyclic, -⟩ := criticalPath_longest "g"
    (twoWays ++ [GraphChange.addEdge 3 0 .data "v"]) Digraph.order? Digraph.sorts_order?
  obtain ⟨-, -, -, empty⟩ := criticalPath_longest "g" [] Digraph.order? Digraph.sorts_order?
  have ascends : ∀ e ∈ (made "g" twoWays).edges, e.kind = .data → e.source < e.target := by
    decide
  have acyclic : ∀ x, ¬TransGen (made "g" twoWays).DataArc x x := by
    intro x cycle
    have less : TransGen (· < ·) x x := TransGen.mono (fun a b arc => by
      obtain ⟨e, drawn, data, rfl, rfl⟩ := arc
      exact ascends e drawn data) x x cycle
    rw [Relation.transGen_eq_self] at less
    exact Int.lt_irrefl x less
  have four : (made "g" twoWays).criticalPath = 4 := by cbv
  have round : TransGen (made "g" (twoWays ++ [GraphChange.addEdge 3 0 .data "v"])).DataArc 0 0 :=
    .tail (.single (b := 3) ⟨⟨0, 3, .data, "x"⟩, by decide, rfl, rfl, rfl⟩)
      ⟨⟨3, 0, .data, "v"⟩, by decide, rfl, rfl, rfl⟩
  exact ⟨Digraph.sorts_order?, acyclic, same.symm.trans four, four ▸ longest acyclic, round,
    cyclic ⟨0, round⟩, empty rfl⟩

end OperationGraph

end Retarget
