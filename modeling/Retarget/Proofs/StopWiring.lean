/-
# Proofs.StopWiring -- the slots and edges of one kernel

A kernel takes consecutive slots: entry, exit, then its nodes in block order.  So every stop has
its slot (`FlowGraph.slot`), no two stops share one, and there are no others (`slot_inj`,
`mem_slotsFrom_iff`).

The edges are made from the blocks: a search looks through empty blocks, each at most once, for
the first node on the way.  Where the way through empty blocks is forced this search finds what
control meets first, and finds nothing exactly if control goes round for ever
(`entries_eq`).  So the edges that leave the slot of a stop lead to the stops that follow it
(`outOf_kernelEdges`, `exists_mem_onward`).
-/
import Retarget.Proofs.FlowStop
import Retarget.Proofs.KernelWiring
import Retarget.Proofs.Ledger

namespace Retarget

open Retarget.Source (NodeId)

set_option autoImplicit false
set_option linter.dupNamespace false

namespace FlowGraph

variable {flow : FlowGraph} {first : Nat}

/-! ## Slots -/

/-- How many nodes stand before a block. -/
def nodesBefore (flow : FlowGraph) (i : Nat) : Nat := ((flow.blocks.take i).flatMap (·.nodes)).length

/-- The slot of a stop when those of the kernel begin at `first`. -/
def slot (flow : FlowGraph) (first : Slot) : Stop → Slot
  | .entry => first
  | .exit => first + 1
  | .node p => first + 2 + flow.nodesBefore p.block + p.offset

theorem nodesBefore_succ (flow : FlowGraph) (i : Nat) :
    flow.nodesBefore (i + 1) = flow.nodesBefore i + (flow.nodes i).length := by
  rw [nodesBefore, nodesBefore, List.take_add_one, List.flatMap_append, List.length_append,
    nodes, block?]
  cases flow.blocks[i]? <;> simp

theorem nodesBefore_mono {i j : Nat} (le : i ≤ j) : flow.nodesBefore i ≤ flow.nodesBefore j := by
  induction le with
  | refl => exact Nat.le_refl _
  | step _ ih => exact Nat.le_trans ih (by rw [nodesBefore_succ]; exact Nat.le_add_right _ _)

theorem nodesBefore_size (flow : FlowGraph) : flow.nodesBefore flow.size = flow.statements.length := by
  rw [nodesBefore, size, List.take_length, statements]

/-- A node stands among all statements at the place its slot says. -/
theorem At.getElem?_statements {p : Point} {n : NodeId} (here : flow.At p n) :
    flow.statements[flow.nodesBefore p.block + p.offset]? = some n := by
  have low : p.block < flow.blocks.length := here.lt_size
  have bound : p.offset < (flow.nodes p.block).length := (List.getElem?_eq_some_iff.mp here).1
  have split : flow.statements = (flow.blocks.take p.block).flatMap (·.nodes) ++
      (flow.nodes p.block ++ (flow.blocks.drop (p.block + 1)).flatMap (·.nodes)) := by
    rw [statements, nodes_eq low, ← List.flatMap_cons, ← List.drop_eq_getElem_cons low,
      ← List.flatMap_append, List.take_append_drop]
  rw [split, nodesBefore, List.getElem?_append_right (Nat.le_add_right _ _),
    Nat.add_sub_cancel_left, List.getElem?_append_left bound]
  exact here

theorem At.lt_nodesBefore_succ {p : Point} {n : NodeId} (here : flow.At p n) :
    flow.nodesBefore p.block + p.offset < flow.nodesBefore (p.block + 1) := by
  have bound : p.offset < (flow.nodes p.block).length := (List.getElem?_eq_some_iff.mp here).1
  rw [nodesBefore_succ]
  omega

theorem At.nodesBefore_inj {p q : Point} {m n : NodeId} (one : flow.At p m) (two : flow.At q n)
    (same : flow.nodesBefore p.block + p.offset = flow.nodesBefore q.block + q.offset) : p = q := by
  have onward {p q : Point} {m : NodeId} (here : flow.At p m) (less : p.block < q.block) :
      flow.nodesBefore p.block + p.offset < flow.nodesBefore q.block + q.offset :=
    calc flow.nodesBefore p.block + p.offset
        < flow.nodesBefore (p.block + 1) := here.lt_nodesBefore_succ
      _ ≤ flow.nodesBefore q.block := nodesBefore_mono less
      _ ≤ flow.nodesBefore q.block + q.offset := Nat.le_add_right _ _
  obtain less | equal | greater := Nat.lt_trichotomy p.block q.block
  · exact absurd same (Nat.ne_of_lt (onward one less))
  · obtain ⟨i, k⟩ := p
    obtain ⟨j, l⟩ := q
    obtain rfl : i = j := equal
    obtain rfl : k = l := Nat.add_left_cancel same
    rfl
  · exact absurd same (Nat.ne_of_gt (onward two greater))

/-- No two stops share a slot. -/
theorem slot_inj {a b : Stop} (hasA : flow.Has a) (hasB : flow.Has b)
    (same : flow.slot first a = flow.slot first b) : a = b := by
  cases a <;> cases b <;> simp only [slot] at same <;> try rfl
  case node.node p q =>
      obtain ⟨m, one⟩ := hasA
      obtain ⟨n, two⟩ := hasB
      rw [one.nodesBefore_inj two (by simp only [Slot] at same; omega)]
  all_goals simp only [Slot] at same; omega

/-- Every number below the count of statements belongs to a node. -/
theorem exists_at_of_lt {j i : Nat} (below : j < flow.nodesBefore i) :
    ∃ p n, flow.At p n ∧ j = flow.nodesBefore p.block + p.offset := by
  induction i with
  | zero => simp [nodesBefore] at below
  | succ i ih =>
      rcases Nat.lt_or_ge j (flow.nodesBefore i) with earlier | within
      · exact ih earlier
      · obtain ⟨k, rfl⟩ := Nat.exists_eq_add_of_le within
        have bound : k < (flow.nodes i).length := by
          rw [nodesBefore_succ] at below
          omega
        exact ⟨⟨i, k⟩, _, List.getElem?_eq_getElem bound, rfl⟩

/-- The slots of a kernel are those of its stops. -/
theorem mem_slotsFrom_iff {s : Slot} :
    s ∈ PropertyGraph.slotsFrom flow first ↔ ∃ a, flow.Has a ∧ flow.slot first a = s := by
  rw [PropertyGraph.slotsFrom, List.mem_range'_1]
  constructor
  · rintro ⟨low, high⟩
    obtain ⟨j, rfl⟩ := Nat.exists_eq_add_of_le low
    match j with
    | 0 => exact ⟨.entry, trivial, rfl⟩
    | 1 => exact ⟨.exit, trivial, rfl⟩
    | j + 2 =>
        have below : j < flow.nodesBefore flow.size := by
          rw [nodesBefore_size]
          omega
        obtain ⟨p, n, here, rfl⟩ := exists_at_of_lt below
        exact ⟨.node p, ⟨n, here⟩, by simp only [slot, Slot]; omega⟩
  · rintro ⟨a, has, rfl⟩
    cases a with
    | entry => simp only [slot]; omega
    | exit => simp only [slot]; omega
    | node p =>
        obtain ⟨n, here⟩ := has
        have bound := (List.getElem?_eq_some_iff.mp here.getElem?_statements).1
        simp only [slot]
        omega

end FlowGraph

namespace PropertyGraph

variable {flow : FlowGraph} {first : Nat}

theorem numberBlocks_getElem? (first : Nat) (lists : List (List NodeId)) (i : Nat) :
    (numberBlocks first lists)[i]? = lists[i]?.map fun nodes =>
      List.range' (first + (lists.take i).flatten.length) nodes.length := by
  induction lists generalizing first i with
  | nil => rfl
  | cons nodes lists ih =>
      cases i with
      | zero => simp [numberBlocks]
      | succ i => simp [numberBlocks, ih, Nat.add_assoc]

/-- The slots of a block. -/
def blockSlots (flow : FlowGraph) (first i : Nat) : List Slot :=
  List.range' (first + 2 + flow.nodesBefore i) (flow.nodes i).length

theorem wiringOf_blocks_eq (flow : FlowGraph) (first : Nat) :
    (wiringOf flow first).blocks = (List.range flow.size).map (blockSlots flow first) := by
  apply List.ext_getElem?
  intro i
  rw [wiringOf, numberBlocks_getElem?, List.getElem?_map, List.getElem?_map]
  rcases Nat.lt_or_ge i flow.size with low | high
  · rw [List.getElem?_range low, List.getElem?_eq_getElem low]
    simp [blockSlots, FlowGraph.nodesBefore, FlowGraph.nodes_eq (g := flow) low,
      ← List.map_take, List.flatMap_def]
  · rw [List.getElem?_eq_none (l := flow.blocks) high, List.getElem?_eq_none (by simpa using high)]
    rfl

theorem wiringOf_block (flow : FlowGraph) (first i : Nat) :
    (wiringOf flow first).blocks.getD i [] = blockSlots flow first i := by
  rw [wiringOf_blocks_eq, List.getD_eq_getElem?_getD, List.getElem?_map]
  rcases Nat.lt_or_ge i flow.size with low | high
  · rw [List.getElem?_range low]
    rfl
  · have none : flow.nodes i = [] := by
      simp [FlowGraph.nodes, FlowGraph.block?, List.getElem?_eq_none (l := flow.blocks) high]
    rw [List.getElem?_eq_none (by simpa using high), blockSlots, none]
    rfl

/-! ## Looking through empty blocks -/

theorem head?_blockSlots_of_empty {b : Nat} (empty : flow.nodes b = []) :
    ((wiringOf flow first).blocks.getD b []).head? = none := by
  rw [wiringOf_block, blockSlots, empty]
  rfl

theorem head?_blockSlots {b : Nat} {n : NodeId} (here : flow.At ⟨b, 0⟩ n) :
    ((wiringOf flow first).blocks.getD b []).head? = some (flow.slot first (.node ⟨b, 0⟩)) := by
  have some : 0 < (flow.nodes b).length := (List.getElem?_eq_some_iff.mp here).1
  rw [wiringOf_block, blockSlots, List.head?_range', if_neg (Nat.ne_of_gt some)]
  rfl

/-- The search finds the stop at the end of the way. -/
theorem entriesOf_of_through (shaped : flow.Shaped) {b depth : Nat} {blocks seen : List Nat}
    {s : Stop} (through : flow.Through b blocks s) (enough : blocks.length < depth)
    (fresh : ∀ x ∈ blocks, x ∉ seen) :
    (entriesOf flow (wiringOf flow first) depth b seen).1 = [flow.slot first s] := by
  obtain ⟨depth, rfl⟩ := Nat.exists_eq_add_one_of_ne_zero (Nat.ne_zero_of_lt enough)
  induction through generalizing depth seen with
  | exit =>
      rw [entriesOf, if_pos (beq_self_eq_true _)]
      rfl
  | @node b n here =>
      have other : b ≠ flow.exit := by
        rintro rfl
        exact FlowGraph.nodes_ne_nil here shaped.exitEmpty
      rw [entriesOf, if_neg (by simpa using other), head?_blockSlots here]
  | @empty b c blocks s empty only through ih =>
      have other : b ≠ flow.exit := by
        rintro rfl
        cases shaped.exitLast.symm.trans only
      have unseen : b ∉ seen := fresh b List.mem_cons_self
      have once := (FlowGraph.Through.empty empty only through).nodup shaped
      rw [List.nodup_cons] at once
      have rest : ∀ x ∈ blocks, x ∉ b :: seen := by
        intro x member again
        rcases List.mem_cons.mp again with rfl | before
        · exact once.1 member
        · exact fresh x (List.mem_cons_of_mem _ member) before
      rw [List.length_cons] at enough
      obtain ⟨depth, rfl⟩ := Nat.exists_eq_add_one_of_ne_zero
        (Nat.ne_zero_of_lt (Nat.lt_of_succ_lt_succ enough))
      rw [entriesOf, if_neg (by simpa using other), head?_blockSlots_of_empty empty]
      simp only [List.contains_eq_mem, unseen, decide_false, only, List.foldl_cons, List.foldl_nil,
        List.nil_append, Bool.false_eq_true, if_false]
      exact ih rest depth (Nat.lt_of_succ_lt_succ enough)

/-- From a block where nothing is ever met the search finds nothing. -/
theorem entriesOf_of_never (shaped : flow.Shaped) {b depth : Nat} {seen : List Nat}
    (never : ∀ s, ¬flow.Meets ⟨b, 0⟩ s) :
    (entriesOf flow (wiringOf flow first) depth b seen).1 = [] := by
  induction depth generalizing b seen with
  | zero => rfl
  | succ depth ih =>
      have other : b ≠ flow.exit := by
        rintro rfl
        exact never .exit ⟨_, rfl, .here _⟩
      have empty : flow.nodes b = [] := by
        by_contra some
        have here : flow.At ⟨b, 0⟩ ((flow.nodes b).head some) := by
          simp [FlowGraph.At, ← List.head?_eq_getElem?, List.head?_eq_some_head some]
        exact never (.node ⟨b, 0⟩) ⟨_, ⟨rfl, _, here⟩, .here _⟩
      rw [entriesOf, if_neg (by simpa using other), head?_blockSlots_of_empty empty]
      simp only []
      split
      · rfl
      · cases leads : flow.succs b with
        | nil => rfl
        | cons c rest =>
            have only := shaped.eq_singleton empty (c := c) (by rw [leads]; exact List.mem_cons_self)
            obtain rfl : rest = [] := by simpa [leads] using only
            have later : ∀ s, ¬flow.Meets ⟨c, 0⟩ s := by
              rintro s ⟨q, before, path⟩
              have step : flow.Path (flow.blockEnd b) [] q := .edge (by simp [leads]) path
              rw [FlowGraph.blockEnd_of_empty empty] at step
              exact never s ⟨q, before, step⟩
            simpa using ih later

variable {landing : Nat → Option Stop}

theorem entries_eq (shaped : flow.Shaped) (lands : flow.Lands landing) (b : Nat) :
    entries flow (wiringOf flow first) b = ((landing b).map (flow.slot first)).toList := by
  cases met : landing b with
  | none =>
      refine entriesOf_of_never shaped fun s meets => ?_
      cases ((lands b s).mpr meets).symm.trans met
  | some s =>
      obtain ⟨blocks, through⟩ := shaped.through_of_meets ((lands b s).mp met)
      have enough := Nat.lt_succ_of_le (through.length_le shaped)
      exact entriesOf_of_through shaped through enough fun _ _ => List.not_mem_nil

/-! ## Edges out of a stop -/

/-- The stops that follow a stop, with the kinds of the edges there. -/
def onward (flow : FlowGraph) (landing : Nat → Option Stop) : Stop → List (Stop × EdgeKind)
  | .entry => ((landing flow.entry).map (·, .within)).toList
  | .exit => []
  | .node p =>
    if p.offset + 1 < (flow.nodes p.block).length then [(.node p.next, .within)]
    else (flow.labeledSuccs p.block).filterMap fun (t, label) =>
      (landing t).map (·, EdgeKind.ofLabel label)

theorem outOf_chainEdges (low count s : Nat) :
    outOf (chainEdges (List.range' low count)) s
      = if low ≤ s ∧ s + 1 < low + count then [⟨s + 1, .within⟩] else [] := by
  induction count generalizing low with
  | zero =>
      rw [if_neg (by omega)]
      rfl
  | succ count ih =>
      cases count with
      | zero =>
          rw [if_neg (by omega)]
          rfl
      | succ count =>
          have step : chainEdges (List.range' low (count + 1 + 1))
              = [(low, low + 1, EdgeKind.within)] ++ chainEdges (List.range' (low + 1) (count + 1)) := rfl
          rw [step, outOf_append, ih]
          by_cases here : s = low
          · subst here
            rw [if_neg (by omega), if_pos (by omega)]
            simp [outOf]
          · have first : outOf [(low, low + 1, EdgeKind.within)] s = [] :=
              outOf_eq_nil (by simpa using Ne.symm here)
            rw [first, List.nil_append]
            have same : (low + 1 ≤ s ∧ s + 1 < low + 1 + (count + 1))
                ↔ (low ≤ s ∧ s + 1 < low + (count + 1 + 1)) := by omega
            simp only [same]

theorem getLast?_blockSlots {i : Nat} :
    (blockSlots flow first i).getLast? = if (flow.nodes i).length = 0 then none
      else some (first + 2 + flow.nodesBefore i + ((flow.nodes i).length - 1)) := by
  rw [blockSlots, List.getLast?_range']
  split
  · rfl
  · congr 1
    omega

theorem outOf_blockEdges (shaped : flow.Shaped) (lands : flow.Lands landing) (i s : Nat) :
    outOf (blockEdges flow (wiringOf flow first) i) s
      = if (flow.nodes i).length ≠ 0 ∧
            s = first + 2 + flow.nodesBefore i + ((flow.nodes i).length - 1) then
          (flow.labeledSuccs i).filterMap fun (t, label) =>
            (landing t).map fun a => ⟨flow.slot first a, EdgeKind.ofLabel label⟩
        else [] := by
  rw [blockEdges, wiringOf_block, getLast?_blockSlots]
  by_cases none : (flow.nodes i).length = 0
  · simp [none, outOf]
  · rw [if_neg none]
    simp only [entries_eq shaped lands]
    by_cases last : s = first + 2 + flow.nodesBefore i + ((flow.nodes i).length - 1)
    · rw [if_pos ⟨none, last⟩, outOf_flatMap, List.filterMap_eq_flatMap_toList]
      refine List.flatMap_congr ?_
      rintro ⟨t, label⟩ -
      cases landing t <;> simp [outOf, last]
    · rw [if_neg fun both => last both.2]
      refine outOf_eq_nil fun e member => ?_
      obtain ⟨⟨t, label⟩, -, inner⟩ := List.mem_flatMap.mp member
      obtain ⟨a, -, rfl⟩ := List.mem_map.mp inner
      exact Ne.symm last

/-- A block makes edges from its own slots alone. -/
theorem outOf_block_eq_nil (shaped : flow.Shaped) {s i : Nat}
    (outside : s < first + 2 + flow.nodesBefore i ∨ first + 2 + flow.nodesBefore (i + 1) ≤ s) :
    outOf (chainEdges (blockSlots flow first i)) s = [] ∧
      outOf (blockEdges flow (wiringOf flow first) i) s = [] := by
  obtain ⟨landing, lands⟩ := shaped.exists_landing
  rw [FlowGraph.nodesBefore_succ] at outside
  constructor
  · rw [blockSlots, outOf_chainEdges, if_neg (by omega)]
  · rw [outOf_blockEdges shaped lands, if_neg (by omega)]

theorem outOf_kernelEdges_parts (flow : FlowGraph) (first s : Nat) :
    outOf (kernelEdges flow (wiringOf flow first)) s
      = ((List.range flow.size).flatMap fun i => outOf (chainEdges (blockSlots flow first i)) s) ++
        ((List.range flow.size).flatMap fun i =>
          outOf (blockEdges flow (wiringOf flow first) i) s) ++
        outOf ((entries flow (wiringOf flow first) flow.entry).map fun e => (first, e, .within)) s := by
  rw [kernelEdges, outOf_append, outOf_append, outOf_flatMap, outOf_flatMap, wiringOf_blocks_eq,
    List.flatMap_map]
  rfl

/-- Nothing but the start leads from a slot before those of the nodes. -/
theorem outOf_kernelEdges_of_lt (shaped : flow.Shaped) {s : Nat} (low : s < first + 2) :
    outOf (kernelEdges flow (wiringOf flow first)) s
      = outOf ((entries flow (wiringOf flow first) flow.entry).map fun e => (first, e, .within)) s := by
  have none (i : Nat) : outOf (chainEdges (blockSlots flow first i)) s = [] ∧
      outOf (blockEdges flow (wiringOf flow first) i) s = [] :=
    outOf_block_eq_nil shaped (Or.inl (Nat.lt_of_lt_of_le low (Nat.le_add_right _ _)))
  have chains : ((List.range flow.size).flatMap fun i =>
      outOf (chainEdges (blockSlots flow first i)) s) = [] :=
    List.flatMap_eq_nil_iff.mpr fun i _ => (none i).1
  have branches : ((List.range flow.size).flatMap fun i =>
      outOf (blockEdges flow (wiringOf flow first) i) s) = [] :=
    List.flatMap_eq_nil_iff.mpr fun i _ => (none i).2
  rw [outOf_kernelEdges_parts, chains, branches, List.nil_append, List.nil_append]

/-- From the slot of a node leads what is made for its block. -/
theorem outOf_kernelEdges_node (shaped : flow.Shaped) {p : Point} {n : NodeId}
    (here : flow.At p n) :
    outOf (kernelEdges flow (wiringOf flow first)) (flow.slot first (.node p))
      = outOf (chainEdges (blockSlots flow first p.block)) (flow.slot first (.node p)) ++
        outOf (blockEdges flow (wiringOf flow first) p.block) (flow.slot first (.node p)) := by
  have others : ∀ i ∈ List.range flow.size, i ≠ p.block →
      outOf (chainEdges (blockSlots flow first i)) (flow.slot first (.node p)) = [] ∧
        outOf (blockEdges flow (wiringOf flow first) i) (flow.slot first (.node p)) = [] := by
    intro i _ other
    refine outOf_block_eq_nil shaped ?_
    have within := here.lt_nodesBefore_succ
    rcases Nat.lt_or_gt_of_ne other with before | after
    · have order : flow.nodesBefore (i + 1) ≤ flow.nodesBefore p.block :=
        FlowGraph.nodesBefore_mono before
      exact Or.inr (by simp only [FlowGraph.slot, Slot]; omega)
    · have order : flow.nodesBefore (p.block + 1) ≤ flow.nodesBefore i :=
        FlowGraph.nodesBefore_mono after
      exact Or.inl (by simp only [FlowGraph.slot, Slot]; omega)
  have member : p.block ∈ List.range flow.size := List.mem_range.mpr here.lt_size
  have start : outOf ((entries flow (wiringOf flow first) flow.entry).map
      fun e => (first, e, EdgeKind.within)) (flow.slot first (.node p)) = [] := by
    refine outOf_eq_nil fun e member => ?_
    obtain ⟨s, -, rfl⟩ := List.mem_map.mp member
    simp only [FlowGraph.slot, Slot]
    omega
  rw [outOf_kernelEdges_parts, start, List.append_nil,
    flatMap_eq_of_unique List.nodup_range member fun i listed other => (others i listed other).1,
    flatMap_eq_of_unique List.nodup_range member fun i listed other => (others i listed other).2]

/-- The edges that leave the slot of a stop lead to the slots of those that follow it. -/
theorem outOf_kernelEdges (shaped : flow.Shaped) (lands : flow.Lands landing) {a : Stop}
    (has : flow.Has a) :
    outOf (kernelEdges flow (wiringOf flow first)) (flow.slot first a)
      = (onward flow landing a).map fun (s, kind) => ⟨flow.slot first s, kind⟩ := by
  cases a with
  | entry =>
      rw [outOf_kernelEdges_of_lt shaped (by simp [FlowGraph.slot]), entries_eq shaped lands]
      cases landed : landing flow.entry <;> simp [onward, landed, outOf, FlowGraph.slot]
  | exit =>
      rw [outOf_kernelEdges_of_lt shaped (by simp [FlowGraph.slot])]
      refine outOf_eq_nil fun e member => ?_
      obtain ⟨s, -, rfl⟩ := List.mem_map.mp member
      simp [FlowGraph.slot]
  | node p =>
      obtain ⟨n, here⟩ := has
      have bound : p.offset < (flow.nodes p.block).length := (List.getElem?_eq_some_iff.mp here).1
      rw [outOf_kernelEdges_node shaped here, blockSlots, outOf_chainEdges,
        outOf_blockEdges shaped lands]
      simp only [onward]
      by_cases more : p.offset + 1 < (flow.nodes p.block).length
      · rw [if_pos more, if_pos (by simp only [FlowGraph.slot, Slot]; omega),
          if_neg (by simp only [FlowGraph.slot, Slot]; omega)]
        simp [FlowGraph.slot, Point.next, Nat.add_assoc]
      · rw [if_neg more, if_neg (by simp only [FlowGraph.slot, Slot]; omega),
          if_pos (by simp only [FlowGraph.slot, Slot]; omega), List.map_filterMap]
        simp [Option.map_map, Function.comp_def]

/-! ## Edges and flow -/

/-- The stops that the edges lead to are those where control stands next. -/
theorem exists_mem_onward (lands : flow.Lands landing) {a b : Stop} (has : flow.Has a) :
    (∃ kind, (b, kind) ∈ onward flow landing a) ↔ flow.Next a b := by
  cases a with
  | entry =>
      simp only [onward, Option.mem_toList, Option.map_eq_some_iff, Prod.mk.injEq]
      constructor
      · rintro ⟨_, s, met, rfl, -⟩
        exact ⟨_, rfl, (lands _ _).mp met⟩
      · rintro ⟨_, rfl, meets⟩
        exact ⟨_, b, (lands _ _).mpr meets, rfl, rfl⟩
  | exit =>
      constructor
      · rintro ⟨_, member⟩
        cases member
      · rintro ⟨_, after, -⟩
        exact after.elim
  | node p =>
      obtain ⟨n, here⟩ := has
      have bound : p.offset < (flow.nodes p.block).length := (List.getElem?_eq_some_iff.mp here).1
      have next : flow.Next (.node p) b ↔ flow.Meets p.next b :=
        ⟨fun ⟨_, after, meets⟩ => after.1 ▸ meets, fun meets => ⟨_, ⟨rfl, n, here⟩, meets⟩⟩
      rw [next, onward]
      by_cases more : p.offset + 1 < (flow.nodes p.block).length
      · have following : flow.At p.next (flow.nodes p.block)[p.offset + 1] :=
          List.getElem?_eq_getElem more
        rw [FlowGraph.meets_node_iff following (Nat.succ_pos _), if_pos more]
        simp
      · have last : p.next = flow.blockEnd p.block := by
          simp only [Point.next, FlowGraph.blockEnd, Point.mk.injEq, true_and]
          omega
        have some : flow.nodes p.block ≠ [] := List.ne_nil_of_length_pos (by omega)
        rw [last, FlowGraph.meets_blockEnd_iff some, if_neg more]
        simp only [FlowGraph.succs, List.mem_filterMap, List.mem_map, Prod.exists,
          Option.map_eq_some_iff, Prod.mk.injEq]
        constructor
        · rintro ⟨kind, t, label, listed, s, met, rfl, -⟩
          exact ⟨t, ⟨t, label, listed, rfl⟩, (lands _ _).mp met⟩
        · rintro ⟨t, ⟨t, label, listed, rfl⟩, meets⟩
          exact ⟨_, t, label, listed, b, (lands _ _).mpr meets, rfl, rfl⟩

end PropertyGraph

end Retarget
