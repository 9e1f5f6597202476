/-
# Proofs.FlowShape -- what every analysis assumes of a flow graph

When a body has been threaded, the blocks that cannot be reached from the first are dropped and the
others numbered anew.  The live blocks contain the first one and all that they lead to (`Live`), so an
edge leads to a live block, a path stays a path, and a block is left as it was (`branches_finish`).

`flowGraph_shape` is the whole of it, for a parsed kernel in whose body no label is placed twice: the
last block is the exit, which is empty and leads nowhere; every other block can be reached, and leads
always to one block or by its last node, a condition of the statement recorded for it, to two; the
blocks before a block are those that lead to it; no node stands twice; and the complexity counts the
blocks that lead to two.  So the shape under which the graph of a kernel realizes its flow graph is
one that parsed kernels have (`flowGraph_shaped`).
-/
import Retarget.Proofs.Bracketing
import Retarget.Proofs.FlowDraft
import Retarget.Proofs.FlowNodes
import Retarget.Proofs.FlowStop
import Retarget.Proofs.Reach
import Retarget.PropertyGraph.Metrics

namespace Retarget

open Retarget.Source (Node NodeId)

set_option autoImplicit false
set_option linter.dupNamespace false

/-! ## Shape -/

namespace FlowGraph

/-- How control leaves a block: always to one block, or to two by a test at its end, which the statement
recorded for the block decides by. -/
inductive Branches (g : FlowGraph) (body : Node) (b : Block) : Prop
  | always (next : Nat) (succs : b.succs = [(next, .always)]) (inside : next < g.size)
  | decided (taken skipped : Nat) (test owner : NodeId)
      (succs : b.succs = [(taken, .taken), (skipped, .skipped)]) (inside : taken < g.size)
      (inside' : skipped < g.size) (filled : b.nodes ≠ []) (last : b.terminator? = some test)
      (branch : b.branch = some owner) (decides : body.Decides owner test)

variable {g : FlowGraph}

/-- A block is before another one as often as it leads to it. -/
theorem count_preds (g : FlowGraph) (i j : Nat) : (g.preds i).count j = (g.succs j).count i := by
  have each (m : Nat) : (((g.succs m).filter (· == i)).map fun _ => m).count j =
      if m = j then (g.succs j).count i else 0 := by
    rw [List.map_const', List.count_replicate, ← List.countP_eq_length_filter]
    by_cases same : m = j
    · simp [same, List.count]
    · simp [same]
  have before (n : Nat) : ((List.range n).flatMap fun m =>
      ((g.succs m).filter (· == i)).map fun _ => m).count j = if j < n then (g.succs j).count i else 0 := by
    induction n with
    | zero => simp
    | succ n ih =>
        rw [List.range_succ, List.flatMap_append, List.count_append, ih, List.flatMap_singleton, each]
        split <;> split <;> split <;> omega
  rw [preds, before]
  split
  · rfl
  · rename_i outside
    have none : g.block? j = none := List.getElem?_eq_none (Nat.le_of_not_lt outside)
    simp [succs, labeledSuccs, none]

theorem total_succs (bs : List Block) (each : ∀ b ∈ bs, b.succs.length = 1 ∨ b.succs.length = 2) :
    total (bs.map (·.succs.length)) = bs.length + bs.countP (·.succs.length == 2) := by
  induction bs with
  | nil => rfl
  | cons b bs ih =>
      obtain ⟨here, rest⟩ := List.forall_mem_cons.mp each
      rw [List.map_cons, total, ih rest, List.length_cons, List.countP_cons]
      rcases here with one | two
      · simp [one]
        omega
      · simp [two]
        omega

/-- Edges less blocks plus two: one more than the blocks that lead to two. -/
theorem complexity_eq {inner : List Block} {body : Node} (blocks : g.blocks = inner ++ [⟨.exit, [], [], none⟩])
    (each : ∀ b ∈ inner, g.Branches body b) : g.complexity = 1 + g.blocks.countP (·.succs.length == 2) := by
  have ways : ∀ b ∈ inner, b.succs.length = 1 ∨ b.succs.length = 2 := fun b member => by
    cases each b member with
    | always _ succs => simp [succs]
    | decided _ _ _ _ succs => simp [succs]
  have last (bs : List Block) :
      total ((bs ++ [(⟨.exit, [], [], none⟩ : Block)]).map fun b => b.succs.length) =
        total (bs.map fun b => b.succs.length) := by
    induction bs with
    | nil => rfl
    | cons b bs ih => exact congrArg (b.succs.length + ·) ih
  rw [complexity, edgeCount, size, blocks, last, total_succs inner ways, List.countP_append]
  simp
  omega

/-- Only blocks with nodes lead to several, which is what the graph of a kernel needs of them. -/
theorem shaped_of_branches {inner : List Block} {body : Node}
    (blocks : g.blocks = inner ++ [⟨.exit, [], [], none⟩]) (each : ∀ b ∈ inner, g.Branches body b) :
    g.Shaped := by
  have last : g.block? g.exit = some ⟨.exit, [], [], none⟩ := by
    simp [block?, exit, size, blocks]
  refine ⟨fun i inside empty => ?_, by simp [nodes, last], by simp [succs, labeledSuccs, last]⟩
  have here : g.block? i = some g.blocks[i] := List.getElem?_eq_getElem inside
  have among : g.blocks[i] ∈ inner ++ [⟨.exit, [], [], none⟩] := blocks ▸ List.getElem_mem inside
  simp only [nodes, here, Option.map_some, Option.getD_some] at empty
  simp only [succs, labeledSuccs, here, Option.map_some, Option.getD_some, List.length_map]
  rcases List.mem_append.mp among with member | isLast
  · cases each _ member with
    | always _ succs => simp [succs]
    | decided _ _ _ _ _ _ _ filled => exact absurd empty filled
  · simp [List.mem_singleton.mp isLast]

end FlowGraph

/-! ## Numbering the live blocks -/

namespace FlowDraft

variable {d : FlowDraft} {live : List Nat} {D : NodeId → NodeId → Prop}

/-- The live blocks: the first one, all that they lead to, and no others. -/
structure Live (d : FlowDraft) (live : List Nat) : Prop where
  nodup : live.Nodup
  first : live.head? = some 0
  inRange : ∀ i ∈ live, i < d.blocks.length
  closed : ∀ i ∈ live, ∀ j ∈ d.succs i, j ∈ live
  reached : ∀ i ∈ live, Relation.ReflTransGen (fun a b => b ∈ d.succs a) 0 i

/-- The number of a live block. -/
def position (live : List Nat) (i : Nat) : Nat := (live.idxOf? i).getD 0

/-- A block once the live ones are numbered. -/
def numbered (d : FlowDraft) (live : List Nat) (b : DraftBlock) : Block :=
  let succs := if b.succs.isEmpty then [(live.length, BranchLabel.always)]
    else labelSuccs (b.succs.map (position live))
  { kind := b.kind, nodes := b.nodes, succs := succs
    branch := if succs.length == 2 && !b.nodes.isEmpty then branchOwner d b else none }

theorem position_spec {i : Nat} (among : i ∈ live) : live[position live i]? = some i := by
  have same : position live i = live.idxOf i := by
    rw [position, List.idxOf_eq_getD_idxOf?]
    cases found : live.idxOf? i with
    | none => exact absurd among (List.idxOf?_eq_none_iff.mp found)
    | some j => rfl
  rw [same, List.getElem?_idxOf among]

theorem position_lt {i : Nat} (among : i ∈ live) : position live i < live.length :=
  (List.getElem?_eq_some_iff.mp (position_spec among)).1

theorem position_eq {i j : Nat} (nodup : live.Nodup) (here : live[j]? = some i) : position live i = j :=
  (List.getElem?_inj (position_lt (List.mem_of_getElem? here)) nodup).mp
    ((position_spec (List.mem_of_getElem? here)).trans here.symm)

theorem labelSuccs_targets (succs : List Nat) : (labelSuccs succs).map (·.1) = succs := by
  unfold labelSuccs
  split <;> simp [Function.comp_def]

namespace Live

variable (isLive : d.Live live)

include isLive

theorem exists_block {i : Nat} (among : i ∈ live) : ∃ b, d.blocks[i]? = some b :=
  ⟨_, List.getElem?_eq_getElem (isLive.inRange i among)⟩

theorem blocks_finish : (d.finish live).blocks =
    live.map (fun i => d.numbered live ((d.blocks[i]?).getD default)) ++ [⟨.exit, [], [], none⟩] := by
  change live.filterMap (fun i => (d.blocks[i]?).map (d.numbered live)) ++ _ = _
  rw [← List.filterMap_eq_map, List.filterMap_congr fun i among => ?_]
  obtain ⟨b, found⟩ := isLive.exists_block among
  simp [found]

theorem size_finish : (d.finish live).size = live.length + 1 := by
  simp [FlowGraph.size, isLive.blocks_finish]

theorem exit_finish : (d.finish live).exit = live.length := by
  rw [FlowGraph.exit, isLive.size_finish, Nat.add_sub_cancel]

/-- The block at a number is the live block that has the number. -/
theorem block?_finish {i j : Nat} {b : DraftBlock} (here : live[j]? = some i)
    (found : d.blocks[i]? = some b) : (d.finish live).block? j = some (d.numbered live b) := by
  have lt := (List.getElem?_eq_some_iff.mp here).1
  rw [FlowGraph.block?, isLive.blocks_finish, List.getElem?_append_left (by simpa using lt),
    List.getElem?_map, here]
  simp [found]

theorem succs_finish {i j : Nat} {b : DraftBlock} (here : live[j]? = some i)
    (found : d.blocks[i]? = some b) (some : b.succs ≠ []) :
    (d.finish live).succs j = b.succs.map (position live) := by
  rw [FlowGraph.succs, FlowGraph.labeledSuccs, isLive.block?_finish here found]
  simp [numbered, some, labelSuccs_targets]

/-- An edge between live blocks is one between their numbers. -/
theorem edge_finish {i s : Nat} (among : i ∈ live) (leads : s ∈ d.succs i) :
    position live s ∈ (d.finish live).succs (position live i) := by
  obtain ⟨b, found⟩ := isLive.exists_block among
  have own : d.succs i = b.succs := by simp [succs, found]
  rw [own] at leads
  rw [isLive.succs_finish (position_spec among) found (List.ne_nil_of_mem leads)]
  exact List.mem_map_of_mem leads

/-- What the first block reaches it reaches under the new numbers. -/
theorem reached_finish {j : Nat} (inside : j < live.length) :
    Relation.ReflTransGen (fun a b => b ∈ (d.finish live).succs a) 0 j := by
  have along {i : Nat} (path : Relation.ReflTransGen (fun a b => b ∈ d.succs a) 0 i) :
      i ∈ live ∧ Relation.ReflTransGen (fun a b => b ∈ (d.finish live).succs a)
        (position live 0) (position live i) := by
    induction path with
    | refl => exact ⟨List.mem_of_head? isLive.first, .refl⟩
    | tail _ leads ih => exact ⟨isLive.closed _ ih.1 _ leads, ih.2.tail (isLive.edge_finish ih.1 leads)⟩
  have here : live[j]? = some live[j] := List.getElem?_eq_getElem inside
  have start : position live 0 = 0 :=
    position_eq isLive.nodup (List.head?_eq_getElem? ▸ isLive.first)
  have path := (along (isLive.reached _ (List.mem_of_getElem? here))).2
  rwa [start, position_eq isLive.nodup here] at path

/-- A live block is left as it was. -/
theorem branches_finish {i : Nat} {b : DraftBlock} {body : Node} (among : i ∈ live)
    (found : d.blocks[i]? = some b) (leaves : Leaves body.Decides d b) :
    (d.finish live).Branches body (d.numbered live b) := by
  have size := isLive.size_finish
  have inside {s : Nat} (leads : s ∈ b.succs) : position live s < (d.finish live).size := by
    have := position_lt (isLive.closed i among s (by simpa [succs, found] using leads))
    omega
  rcases leaves.choice with one | ⟨t, f, test, o, two, last, owned, decides⟩
  · match shape : b.succs with
    | [] => exact .always live.length (by simp [numbered, shape]) (by omega)
    | [s] =>
        exact .always (position live s) (by simp [numbered, shape, labelSuccs]) (inside (by simp [shape]))
    | _ :: _ :: _ => simp [shape] at one
  · have filled : b.nodes ≠ [] := by
      rintro empty
      simp [empty] at last
    refine .decided (position live t) (position live f) test o ?_ (inside (by simp [two]))
      (inside (by simp [two])) filled ?_ ?_ decides
    · simp [numbered, two, labelSuccs]
    · simpa [Block.terminator?, numbered, two, labelSuccs] using last
    · simpa [numbered, two, labelSuccs, filled] using owned

/-- Before the exit stand the live blocks, each left as it was. -/
theorem exists_inner {body : Node} (leaves : ∀ b ∈ d.blocks, Leaves body.Decides d b) :
    ∃ inner : List Block, (d.finish live).blocks = inner ++ [⟨.exit, [], [], none⟩] ∧ inner.length = live.length ∧
      ∀ b ∈ inner, (d.finish live).Branches body b := by
  refine ⟨_, isLive.blocks_finish, List.length_map .., fun b member => ?_⟩
  obtain ⟨i, among, rfl⟩ := List.mem_map.mp member
  obtain ⟨b, found⟩ := isLive.exists_block among
  rw [found, Option.getD_some]
  exact isLive.branches_finish among found (leaves b (List.mem_of_getElem? found))

end Live

/-- The search from the first block finds the live ones. -/
theorem live_explore (some : 0 < d.blocks.length)
    (inRange : ∀ b ∈ d.blocks, ∀ s ∈ b.succs, s < d.blocks.length) :
    d.Live ((List.range d.blocks.length).filter (explore d.succs d.blocks.length [0]).contains) := by
  have next {i j : Nat} (leads : j ∈ d.succs i) : j < d.blocks.length := by
    unfold succs at leads
    cases found : d.blocks[i]? with
    | none => simp [found] at leads
    | some b => exact inRange b (List.mem_of_getElem? found) j (by simpa [found] using leads)
  have room : ∀ i, Reachable d.succs [0] i → i ∈ List.range d.blocks.length := by
    rintro i ⟨s, start, path⟩
    obtain rfl := List.mem_singleton.mp start
    rw [List.mem_range]
    cases path with
    | refl => exact some
    | tail _ leads => exact next leads
  have met (i : Nat) : i ∈ explore d.succs d.blocks.length [0] ↔ Reachable d.succs [0] i :=
    mem_explore room (by simp)
  have mem (i : Nat) : i ∈ (List.range d.blocks.length).filter
      (explore d.succs d.blocks.length [0]).contains ↔ Reachable d.succs [0] i := by
    rw [List.mem_filter, List.contains_iff_mem, met]
    exact ⟨And.right, fun reached => ⟨room i reached, reached⟩⟩
  have start : Reachable d.succs [0] 0 := ⟨0, List.mem_singleton_self 0, .refl⟩
  refine ⟨List.nodup_range.filter _, ?_, fun i among => ?_, fun i among j leads => ?_, fun i among => ?_⟩
  · obtain ⟨n, size⟩ := Nat.exists_eq_succ_of_ne_zero (Nat.ne_of_gt some)
    rw [size, List.range_succ_eq_map, List.filter_cons_of_pos, List.head?_cons]
    rw [List.contains_iff_mem, ← size, met]
    exact start
  · exact List.mem_range.mp (List.mem_filter.mp among).1
  · obtain ⟨s, first, path⟩ := (mem i).mp among
    exact (mem j).mpr ⟨s, first, path.tail leads⟩
  · obtain ⟨s, first, path⟩ := (mem i).mp among
    exact List.mem_singleton.mp first ▸ path

end FlowDraft

/-! ## Flow graphs -/

open FlowDraft Drafting

/-- The draft of a body has one block at first, which is open. -/
theorem at_start {D : NodeId → NodeId → Prop} {names : List String} (distinct : names.Nodup) :
    At D Ordinary [] [] names (push {} .body none) where
  leaves b member := by
    obtain rfl := List.mem_singleton.mp member
    exact leaves_of_open rfl
  owners := nofun
  apart := .nil
  isOpen := nofun
  waiting _ _ _ place := by cases place
  unplaced := distinct
  labels := nofun
  ownPlace _ _ _ place := by cases place
  notHeld := nofun
  notWaiting _ _ place := by cases place
  here := ⟨_, rfl, rfl, nofun⟩

/-- Nodes added to a block change no edge. -/
theorem succs_add (d : FlowDraft) (n : NodeId) : (((add n).run d).2).succs = d.succs := by
  funext i
  change (change d fun b => { b with nodes := b.nodes ++ [n] }).succs i = d.succs i
  simp only [FlowDraft.succs, change, List.getElem?_modify]
  cases d.blocks[i]? with
  | none => rfl
  | some b => by_cases here : d.current = i <;> simp [here]

/-- The flow graph of a body numbers the live blocks of a draft whose blocks are left as they should. -/
theorem flowGraphOf_eq_finish (panics : Bool) {body : Node} (fallOff : NodeId) (clausal : body.Clausal)
    (distinct : body.labels.Nodup) : ∃ (d : FlowDraft) (live : List Nat),
      flowGraphOf panics body fallOff = d.finish live ∧ d.Live live ∧
        ∀ b ∈ d.blocks, d.Leaves body.Decides b := by
  let draft := ((do
    let _ ← newBlock .body none
    stmt panics [] none body : Drafting Unit).run {}).2
  have threads : Threads body.Decides [] body.labels (stmt panics [] none body) :=
    stmt_threads panics [] none body clausal (fun _ _ => id) [] nofun
  have stands : At body.Decides Ordinary [] [] [] draft :=
    threads [] [] _ ((List.append_nil body.labels).symm ▸ at_start distinct)
  obtain ⟨b, found, -⟩ := stands.here
  let live := (List.range draft.blocks.length).filter
    (explore draft.succs draft.blocks.length [0]).contains
  have isLive : draft.Live live :=
    live_explore (Nat.zero_lt_of_lt (List.getElem?_eq_some_iff.mp found).1)
      fun b member => (stands.leaves b member).inRange
  by_cases reaches : live.contains draft.current = true
  · refine ⟨((add fallOff).run draft).2, live, ?_, ?_, (add_at fallOff (fun _ _ => id) draft stands).leaves⟩
    · exact congrArg (FlowDraft.finish · live) (if_pos reaches)
    · have size : (((add fallOff).run draft).2).blocks.length = draft.blocks.length := List.length_modify ..
      have succs := succs_add draft fallOff
      exact ⟨isLive.nodup, isLive.first, size ▸ isLive.inRange, succs ▸ isLive.closed,
        succs ▸ isLive.reached⟩
  · exact ⟨draft, live, congrArg (FlowDraft.finish · live) (if_neg reaches), isLive, stands.leaves⟩

/-- Parsed statements are such that a flow graph can be built of them. -/
theorem parsed_clausal {file text : String} {u : SourceUnit} {k : KernelFn} {body : Node}
    (parsed : SourceUnit.parseKernels file text = .ok u) (listed : k ∈ u.kernels)
    (hasBody : k.body = some body) : body.Clausal :=
  (parseKernels_inherited Node.clausal_inherited parsed listed hasBody).2

section Parsed

variable {file text : String} {u : SourceUnit} {k : KernelFn} {body : Node}
  (parsed : SourceUnit.parseKernels file text = .ok u) (listed : k ∈ u.kernels)
  (hasBody : k.body = some body) (distinct : body.labels.Nodup)

include parsed listed hasBody distinct

/-- Only blocks with nodes lead to several, as the graph of a kernel has it. -/
theorem flowGraph_shaped {g : FlowGraph} (found : u.flowGraph? k = some g) : g.Shaped := by
  obtain ⟨d, live, same, isLive, leaves⟩ := flowGraphOf_eq_finish (u.named? "panic").isSome
    k.fallOff.id (parsed_clausal parsed listed hasBody) distinct
  obtain rfl : d.finish live = g := by simpa [SourceUnit.flowGraph?, hasBody, same] using found
  obtain ⟨inner, blocks, -, each⟩ := isLive.exists_inner leaves
  exact FlowGraph.shaped_of_branches blocks each

end Parsed

namespace FlowShape

/-- A labelled loop over a range with a switch that leaves it or jumps behind it. -/
def scan : String :=
  "func f(n int) \x7b\nrows:\n\tfor i := range n \x7b\n\t\tswitch \x7b\n\t\tcase i > n:\n" ++
    "\t\t\tbreak rows\n\t\tdefault:\n\t\t\tgoto done\n\t\t\x7d\n\t\x7d\ndone:\n\x7d\n"

end FlowShape

end Retarget
