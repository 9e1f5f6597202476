/-
# Proofs.Blueprint -- the graph as the set of built kernels determines it

Slots depend on the order of building.  Told without slots, a node is the `i`-th of a kernel or the
`i`-th of the `j`-th call that a kernel makes (`Spot`).  The unit and the set of built kernels say
which spots there are and what stands there (`Part`), what a call site names as its target (`Aims`)
and which edges run between spots (`blueprint`).

A graph fits when each of its slots is one spot and nodes, targets and edges are those of the
blueprint (`Fits`).  In a unit with single calls every graph that a history leads to fits
(`Plain.fits`).
-/
import Retarget.Proofs.CallPlan
import Retarget.Proofs.Grouping

namespace Retarget

open Retarget.Source (Node NodeId)

set_option autoImplicit false
set_option linter.dupNamespace false

/-- The record with its site counted from another slot. -/
def CallRecord.moved (first : Slot) (r : CallRecord) : CallRecord :=
  { r with site := first + r.site }

/-- A kernel of the unit that has a flow graph. -/
def SourceUnit.part? (u : SourceUnit) (k : KernelId) : Option (KernelFn × FlowGraph) :=
  (u.kernel? k).bind fun f => (u.flowGraph? f).map fun flow => (f, flow)

namespace PropertyGraph

/-! ## The edges of a kernel under a change of slots -/

/-- The same wiring at other slots. -/
def Wiring.move (f : Slot → Slot) (w : Wiring) : Wiring where
  entry := f w.entry
  exit := f w.exit
  blocks := w.blocks.map (·.map f)

theorem chainEdges_map (f : Slot → Slot) (slots : List Slot) :
    chainEdges (slots.map f) = (chainEdges slots).map (moveArc f) := by
  fun_induction chainEdges slots with
  | case1 a b rest ih =>
      rw [List.map_cons, List.map_cons, chainEdges, List.map_cons, ← ih]
      rfl
  | case2 slots short =>
      rcases slots with _ | ⟨a, _ | ⟨b, rest⟩⟩
      · rfl
      · rfl
      · exact absurd rfl (short a b rest)

section Move

variable (flow : FlowGraph) (w : Wiring) (f : Slot → Slot)

theorem Wiring.move_block (b : Nat) : (w.move f).blocks.getD b [] = (w.blocks.getD b []).map f := by
  simp only [Wiring.move, List.getD_eq_getElem?_getD, List.getElem?_map]
  cases w.blocks[b]? <;> rfl

theorem entriesOf_move (depth b : Nat) (seen : List Nat) :
    entriesOf flow (w.move f) depth b seen
      = Prod.map (List.map f) id (entriesOf flow w depth b seen) := by
  induction depth generalizing b seen with
  | zero => rfl
  | succ depth ih =>
      rw [entriesOf, entriesOf, Wiring.move_block, List.head?_map]
      split
      · rfl
      · cases (w.blocks.getD b []).head? with
        | some s => rfl
        | none =>
            simp only [Option.map_none]
            split
            · rfl
            · show List.foldl _ (Prod.map (List.map f) id ([], b :: seen)) _ = _
              refine List.foldl_hom (Prod.map (List.map f) id) ?_
              rintro ⟨out, seen⟩ s
              simp [ih]

theorem entries_move (b : Nat) : entries flow (w.move f) b = (entries flow w b).map f := by
  rw [entries, entriesOf_move, entries]
  rfl

theorem blockEdges_move (b : Nat) :
    blockEdges flow (w.move f) b = (blockEdges flow w b).map (moveArc f) := by
  rw [blockEdges, blockEdges, Wiring.move_block, List.getLast?_map]
  cases (w.blocks.getD b []).getLast? with
  | none => rfl
  | some s =>
      simp only [Option.map_some, List.map_flatMap, entries_move, List.map_map]
      rfl

/-- The edges of a kernel do not depend on its slots. -/
theorem kernelEdges_move :
    kernelEdges flow (w.move f) = (kernelEdges flow w).map (moveArc f) := by
  have blocks : (w.move f).blocks.flatMap chainEdges
      = (w.blocks.flatMap chainEdges).map (moveArc f) := by
    rw [Wiring.move, List.flatMap_map, List.map_flatMap]
    exact List.flatMap_congr fun slots _ => chainEdges_map f slots
  have between : (List.range flow.size).flatMap (blockEdges flow (w.move f))
      = ((List.range flow.size).flatMap (blockEdges flow w)).map (moveArc f) := by
    rw [List.map_flatMap]
    exact List.flatMap_congr fun b _ => blockEdges_move flow w f b
  rw [kernelEdges, kernelEdges, blocks, between, entries_move, List.map_append, List.map_append,
    List.map_map, List.map_map]
  rfl

end Move

theorem numberBlocks_add (first offset : Nat) (blocks : List (List NodeId)) :
    numberBlocks (first + offset) blocks
      = (numberBlocks offset blocks).map (·.map (first + ·)) := by
  induction blocks generalizing offset with
  | nil => rfl
  | cons nodes blocks ih =>
      rw [numberBlocks, numberBlocks, List.map_cons, List.map_add_range', Nat.add_assoc, ih]

theorem wiringOf_eq_move (flow : FlowGraph) (first : Nat) :
    wiringOf flow first = (wiringOf flow 0).move (first + ·) := by
  simp only [wiringOf, Wiring.move, ← numberBlocks_add, Nat.add_zero, Nat.zero_add]

theorem recordsFor_eq_moved (u : SourceUnit) (k : KernelFn) (flow : FlowGraph) (first : Nat) :
    recordsFor u k flow first = (recordsFor u k flow 0).map (CallRecord.moved first) := by
  have slots : (slotsFrom flow first).drop 2 = ((slotsFrom flow 0).drop 2).map (first + ·) := by
    rw [drop_slotsFrom, drop_slotsFrom, List.map_add_range', Nat.zero_add]
  rw [recordsFor, slots, List.zip_map_left, List.flatMap_map, recordsFor, List.map_flatMap]
  refine List.flatMap_congr fun row _ => ?_
  simp only [recordsOf, List.map_map]
  rfl

/-! ## Spots -/

/-- Where a node belongs, told without slots. -/
inductive Spot where
  /-- The `i`-th node of a kernel. -/
  | own (k : KernelId) (i : Nat)
  /-- The `i`-th node of the `j`-th call that a kernel makes. -/
  | link (k : KernelId) (j i : Nat)
deriving DecidableEq

/-- An edge between spots. -/
abbrev SpotArc := Spot × Spot × EdgeKind

section Plan

variable (u : SourceUnit) (P : KernelId → Bool)

/-- The node that belongs at a spot when the kernels `P` are built, up to its target. -/
inductive Part : Spot → GraphNode → Prop
  | own {k : KernelId} {f : KernelFn} {flow : FlowGraph} {i : Nat} {n : GraphNode}
      (built : P k = true) (part : u.part? k = some (f, flow))
      (listed : (kernelNodes f (rowsOf u flow))[i]? = some n) : Part (.own k i) n
  | link {k t : KernelId} {f : KernelFn} {flow : FlowGraph} {j i : Nat} {r : CallRecord}
      {n : GraphNode} (built : P k = true) (part : u.part? k = some (f, flow))
      (recorded : (recordsFor u f flow 0)[j]? = some r) (target : r.target = some t)
      (linked : P t = true) (listed : (linkNodes r t (u.returns t))[i]? = some n) :
      Part (.link k j i) n

/-- The node at a spot names kernel `t` as its target: a call there invokes `t`, which is built. -/
def Aims : Spot → KernelId → Prop
  | .own k i, t => ∃ f flow, u.part? k = some (f, flow) ∧
      ∃ r ∈ recordsFor u f flow 0, r.site = i ∧ r.target = some t ∧ P t = true
  | .link _ _ _, _ => False

/-- The edges of a kernel between its own spots. -/
def spotArcs (k : KernelId) (flow : FlowGraph) : List SpotArc :=
  (kernelEdges flow (wiringOf flow 0)).map (moveArc (.own k))

/-- The edges of the `j`-th call of a kernel; there are none unless its callee is built. -/
def linkSpotArcs (k : KernelId) (flow : FlowGraph) (r : CallRecord) (j : Nat) : List SpotArc :=
  match r.target with
  | none => []
  | some t =>
    if P t then linkArcs (.own k r.site) (.own t 0) (.own t 1) (.link k j)
      ((spotArcs k flow).filter (·.1 == .own k r.site)) r.args.length (u.returns t)
    else []

/-- The edges of a kernel and of its calls. -/
def kernelSpotArcs (k : KernelId) : List SpotArc :=
  match u.part? k with
  | none => []
  | some (f, flow) => spotArcs k flow ++
      (recordsFor u f flow 0).zipIdx.flatMap fun (r, j) => linkSpotArcs u P k flow r j

/-- All edges when the kernels `P` are built. -/
def blueprint : List SpotArc :=
  ((List.range u.kernels.length).filter P).flatMap (kernelSpotArcs u P)

end Plan

/-- The slot of a spot. -/
def place (g : PropertyGraph) : Spot → Slot
  | .own k i => ((g.builtKernel? k).map (·.entry)).getD 0 + i
  | .link k j i => ((g.callsFrom k)[j]?.bind (·.returnSite)).getD 0 + i

/-- The graph is what the unit and the built kernels `P` determine, its spots placed in slots. -/
structure Fits (u : SourceUnit) (P : KernelId → Bool) (g : PropertyGraph) : Prop where
  nodes : ∀ x n, Part u P x n → g.Holds (g.place x) n
  aims : ∀ x n, Part u P x n → ∀ t, g.aim (g.place x) = some t ↔ Aims u P x t
  covers : ∀ s, g.Live s → ∃ x n, Part u P x n ∧ g.place x = s
  distinct : ∀ x y n m, Part u P x n → Part u P y m → g.place x = g.place y → x = y
  drawn : g.Accounts ((blueprint u P).map (moveArc g.place))

variable {u : SourceUnit} {P : KernelId → Bool}

/-! ## Edges run between spots -/

theorem exists_part_own {k : KernelId} {f : KernelFn} {flow : FlowGraph} (built : P k = true)
    (part : u.part? k = some (f, flow)) {i : Nat} (inside : i ∈ slotsFrom flow 0) :
    ∃ n, Part u P (.own k i) n := by
  have bound : i < (kernelNodes f (rowsOf u flow)).length := by
    rw [kernelNodes_length]
    simpa using (List.mem_range'_1.mp inside).2
  exact ⟨_, .own built part (List.getElem?_eq_getElem bound)⟩

theorem mem_recordsFor_site {k : KernelFn} {flow : FlowGraph} {first : Slot} {r : CallRecord}
    (member : r ∈ recordsFor u k flow first) : r.site ∈ slotsFrom flow first := by
  obtain ⟨⟨s, n, calls⟩, zipped, made⟩ := List.mem_flatMap.mp member
  obtain ⟨c, -, rfl⟩ := List.mem_map.mp made
  exact List.mem_of_mem_drop (List.of_mem_zip zipped).1

theorem mem_spotArcs {k : KernelId} {f : KernelFn} {flow : FlowGraph} (built : P k = true)
    (part : u.part? k = some (f, flow)) {e : SpotArc} (member : e ∈ spotArcs k flow) :
    (∃ n, Part u P e.1 n) ∧ ∃ n, Part u P e.2.1 n := by
  obtain ⟨a, inner, rfl⟩ := List.mem_map.mp member
  obtain ⟨source, target, -⟩ := kernelEdges_all (wiringOf_all flow 0) inner
  exact ⟨exists_part_own built part source, exists_part_own built part target⟩

/-- Both ends of an edge of the blueprint are spots that have a node. -/
theorem mem_blueprint (parts : ∀ k, P k = true → ∃ f flow, u.part? k = some (f, flow))
    {e : SpotArc} (member : e ∈ blueprint u P) :
    (∃ n, Part u P e.1 n) ∧ ∃ n, Part u P e.2.1 n := by
  obtain ⟨k, listed, drawn⟩ := List.mem_flatMap.mp member
  have built : P k = true := (List.mem_filter.mp listed).2
  obtain ⟨f, flow, part⟩ := parts k built
  rw [kernelSpotArcs, part, List.mem_append] at drawn
  rcases drawn with own | called
  · exact mem_spotArcs built part own
  · obtain ⟨⟨r, j⟩, indexed, drawn⟩ := List.mem_flatMap.mp called
    have recorded : (recordsFor u f flow 0)[j]? = some r := List.mem_zipIdx_iff_getElem?.mp indexed
    have site := exists_part_own built part (mem_recordsFor_site (List.mem_of_getElem? recorded))
    cases target : r.target with
    | none => simp [linkSpotArcs, target] at drawn
    | some t =>
        cases linked : P t with
        | false => simp [linkSpotArcs, target, linked] at drawn
        | true =>
            obtain ⟨f', flow', part'⟩ := parts t linked
            have ends {i : Nat} (low : i < 2) : ∃ n, Part u P (.own t i) n :=
              exists_part_own linked part' (List.mem_range'_1.mpr ⟨Nat.zero_le _, by omega⟩)
            have spot {i : Nat} (inside : i < (linkNodes r t (u.returns t)).length) :
                ∃ n, Part u P (.link k j i) n :=
              ⟨_, .link built part recorded target linked (List.getElem?_eq_getElem inside)⟩
            have passed {i : Nat} (low : i ≤ 2 * r.args.length) : ∃ n, Part u P (.link k j i) n :=
              spot (by rw [linkNodes_length]; split <;> omega)
            simp only [linkSpotArcs, target, linked, if_true] at drawn
            rcases mem_linkArcs.mp drawn with rfl | rfl | ⟨a, onward, rfl⟩ | ⟨i, low, rfl | rfl⟩ |
              ⟨gives, result⟩
            · exact ⟨site, ends (by omega)⟩
            · exact ⟨ends (by omega), passed (by omega)⟩
            · exact ⟨passed (by omega), (mem_spotArcs built part (List.mem_filter.mp onward).1).2⟩
            · exact ⟨site, passed (by omega)⟩
            · exact ⟨passed (by omega), passed (by omega)⟩
            · have given {i : Nat} (low : i ≤ 2 * r.args.length + 2) :
                  ∃ n, Part u P (.link k j i) n :=
                spot (by rw [linkNodes_length, gives, if_pos rfl]; omega)
              simp only [resultArcs, List.mem_cons, List.not_mem_nil, or_false] at result
              rcases result with rfl | rfl | rfl
              · exact ⟨ends (by omega), given (by omega)⟩
              · exact ⟨given (by omega), given (by omega)⟩
              · exact ⟨given (by omega), given (by omega)⟩

/-! ## Graphs that fit -/

variable {g : PropertyGraph} {b : BuiltKernel}

section Placed

variable (wired : g.Wired u g.calls)

include wired

theorem Wired.part?_eq (built : b ∈ g.built) :
    ∃ f, f.id = b.kernel ∧ u.part? b.kernel = some (f, b.graph) := by
  obtain ⟨f, listed, describes⟩ := (wired.kernels b built).listed
  refine ⟨f, describes.kernel.symm, ?_⟩
  rw [SourceUnit.part?, describes.kernel, SourceUnit.kernel?_id listed, Option.bind_some,
    describes.graph, Option.map_some]

theorem Wired.place_own (built : b ∈ g.built) (i : Nat) :
    g.place (.own b.kernel i) = b.entry + i := by
  rw [place, wired.builtKernel?_eq built, Option.map_some, Option.getD_some]

omit wired in
theorem place_link {k : KernelId} {j : Nat} {r : CallRecord} {s : Slot}
    (listed : (g.callsFrom k)[j]? = some r) (noted : r.returnSite = some s) (i : Nat) :
    g.place (.link k j i) = s + i := by
  rw [place, listed, Option.bind_some, noted, Option.getD_some]

end Placed

theorem mem_calls_of_callsFrom {k : KernelId} {j : Nat} {r : CallRecord}
    (listed : (g.callsFrom k)[j]? = some r) : r ∈ g.calls ∧ r.caller = k := by
  obtain ⟨member, caller⟩ := List.mem_filter.mp (List.mem_of_getElem? listed)
  exact ⟨member, by simpa using caller⟩

theorem mem_callsFrom {r : CallRecord} (member : r ∈ g.calls) :
    ∃ j : Nat, (g.callsFrom r.caller)[j]? = some r :=
  List.mem_iff_getElem?.mp (List.mem_filter.mpr ⟨member, beq_self_eq_true _⟩)

/-- A record and the plan for it agree on all but what linking notes. -/
theorem eq_of_idle {r q : CallRecord} {first : Slot} (same : r.idle = q.moved first) :
    r.site = first + q.site ∧ r.args = q.args ∧ r.target = q.target := by
  have site : r.idle.site = (q.moved first).site := congrArg CallRecord.site same
  have args : r.idle.args = (q.moved first).args := congrArg CallRecord.args same
  have target : r.idle.target = (q.moved first).target := congrArg CallRecord.target same
  exact ⟨site, args, target⟩

theorem linkNodes_of_idle {r q : CallRecord} {first : Slot} (same : r.idle = q.moved first)
    (t : KernelId) (returns : Bool) : linkNodes r t returns = linkNodes q t returns := by
  have idle : linkNodes r.idle t returns = linkNodes r t returns := rfl
  rw [← idle, same]
  rfl

/-- The calls of a kernel are those planned for it, in the same order. -/
theorem Plain.getElem?_callsFrom (plain : g.Plain u) {f : KernelFn} (built : b ∈ g.built)
    (same : f.id = b.kernel) (j : Nat) : ((g.callsFrom b.kernel)[j]?).map CallRecord.idle
      = ((recordsFor u f b.graph 0)[j]?).map (CallRecord.moved b.entry) := by
  rw [← List.getElem?_map, plain.planned b built f same, recordsFor_eq_moved, List.getElem?_map]

/-- Every call of a kernel is planned. -/
theorem Plain.plan_of_call (plain : g.Plain u) {f : KernelFn} (built : b ∈ g.built)
    (same : f.id = b.kernel) {r : CallRecord} (recorded : r ∈ g.calls)
    (caller : r.caller = b.kernel) :
    ∃ (j : Nat) (q : CallRecord), (g.callsFrom b.kernel)[j]? = some r ∧
      (recordsFor u f b.graph 0)[j]? = some q ∧ r.idle = q.moved b.entry := by
  obtain ⟨j, here⟩ := mem_callsFrom recorded
  rw [caller] at here
  have planned := plain.getElem?_callsFrom built same j
  rw [here, Option.map_some, eq_comm, Option.map_eq_some_iff] at planned
  obtain ⟨q, listed, idle⟩ := planned
  exact ⟨j, q, here, listed, idle.symm⟩

section Plain

variable (ordered : g.Ordered u) (plain : g.Plain u)

include ordered

theorem Ordered.linked_iff_isBuilt {r : CallRecord} {t : KernelId} (member : r ∈ g.calls)
    (target : r.target = some t) : r.linked = true ↔ g.isBuilt t = true := by
  constructor
  · intro linked
    obtain ⟨c, built, joins⟩ := (ordered.wired.records r member).linked linked
    obtain rfl : c.kernel = t := Option.some.inj (joins.target.symm.trans target)
    exact ordered.wired.isBuilt built
  · exact ordered.settled r member t target

include plain

omit plain in
/-- A kernel of the plan is built. -/
theorem Ordered.kernel_of_part {k : KernelId} {f : KernelFn} {flow : FlowGraph}
    (built : g.isBuilt k = true) (part : u.part? k = some (f, flow)) :
    ∃ b ∈ g.built, b.kernel = k ∧ f.id = b.kernel ∧ flow = b.graph := by
  obtain ⟨b, found⟩ := Option.isSome_iff_exists.mp built
  obtain ⟨member, rfl⟩ := mem_of_builtKernel? found
  obtain ⟨f', same, part'⟩ := ordered.wired.part?_eq member
  obtain ⟨rfl, rfl⟩ : f = f' ∧ flow = b.graph := by simpa using part.symm.trans part'
  exact ⟨b, member, rfl, same, rfl⟩

/-- A call of the plan whose callee is built is linked. -/
theorem Plain.call_of_part {f : KernelFn} {j : Nat} {q : CallRecord} {t : KernelId}
    (built : b ∈ g.built) (same : f.id = b.kernel)
    (recorded : (recordsFor u f b.graph 0)[j]? = some q) (target : q.target = some t)
    (linked : g.isBuilt t = true) :
    ∃ r s, (g.callsFrom b.kernel)[j]? = some r ∧ r.idle = q.moved b.entry ∧ r.linked = true ∧
      r.Spans u g t s := by
  have planned := plain.getElem?_callsFrom built same j
  rw [recorded, Option.map_some, Option.map_eq_some_iff] at planned
  obtain ⟨r, listed, idle⟩ := planned
  have member := (mem_calls_of_callsFrom listed).1
  have targetR : r.target = some t := (eq_of_idle idle).2.2.trans target
  have done := (ordered.linked_iff_isBuilt member targetR).mpr linked
  obtain ⟨t', s, spans⟩ := (plain.laid.records r member).linked done
  obtain rfl : t = t' := Option.some.inj (targetR.symm.trans spans.target)
  exact ⟨r, s, listed, idle, done, spans⟩

theorem Plain.fits_nodes (x : Spot) (n : GraphNode) (part : Part u g.isBuilt x n) :
    g.Holds (g.place x) n := by
  cases part with
  | own built part listed =>
      obtain ⟨b, member, rfl, same, rfl⟩ := ordered.kernel_of_part built part
      rw [ordered.wired.place_own member]
      exact (plain.laid.kernels b member).nodes _ same _ n listed
  | link built part recorded target linked listed =>
      obtain ⟨b, member, rfl, same, rfl⟩ := ordered.kernel_of_part built part
      obtain ⟨r, s, here, idle, -, spans⟩ :=
        plain.call_of_part ordered member same recorded target linked
      rw [place_link here spans.returnSite]
      exact spans.nodes _ n (linkNodes_of_idle idle _ _ ▸ listed)

theorem Plain.fits_aims (x : Spot) (n : GraphNode) (part : Part u g.isBuilt x n) (t : KernelId) :
    g.aim (g.place x) = some t ↔ Aims u g.isBuilt x t := by
  have alive := (plain.fits_nodes ordered x n part).live
  rw [plain.aimed _ alive]
  cases part with
  | @own _ f flow i _ built part listed =>
      obtain ⟨b, member, rfl, same, rfl⟩ := ordered.kernel_of_part built part
      rw [ordered.wired.place_own member]
      constructor
      · rintro ⟨r, recorded, linked, site, target⟩
        obtain ⟨c, builtC, owner, ofC⟩ := (ordered.wired.records r recorded).caller
        have ofB := (plain.laid.kernels b member).mem_slots listed
        have caller : r.caller = b.kernel := by
          rw [← owner]
          exact ordered.wired.kernel_eq_of_slot member builtC ofB (site ▸ ofC)
        obtain ⟨j, q, -, listedQ, idle⟩ := plain.plan_of_call member same recorded caller
        obtain ⟨siteQ, -, targetQ⟩ := eq_of_idle idle
        refine ⟨f, b.graph, part, q, List.mem_of_getElem? listedQ, ?_, targetQ ▸ target, ?_⟩
        · exact Nat.add_left_cancel (siteQ.symm.trans site)
        · exact (ordered.linked_iff_isBuilt recorded target).mp linked
      · rintro ⟨f', flow', part', q, recorded, rfl, target, linked⟩
        obtain ⟨rfl, rfl⟩ : f = f' ∧ b.graph = flow' := by simpa using part.symm.trans part'
        obtain ⟨j, listedQ⟩ := List.mem_iff_getElem?.mp recorded
        obtain ⟨r, s, here, idle, done, spans⟩ :=
          plain.call_of_part ordered member same listedQ target linked
        exact ⟨r, (mem_calls_of_callsFrom here).1, done, (eq_of_idle idle).1, spans.target⟩
  | link built part recorded target linked listed =>
      obtain ⟨b, member, rfl, same, rfl⟩ := ordered.kernel_of_part built part
      obtain ⟨r, s, here, idle, -, spans⟩ :=
        plain.call_of_part ordered member same recorded target linked
      refine ⟨?_, False.elim⟩
      rintro ⟨q, recordedQ, -, site, -⟩
      rw [place_link here spans.returnSite] at site
      have inside := (List.getElem?_eq_some_iff.mp listed).1
      rw [← linkNodes_of_idle idle] at inside
      exact ordered.wired.site_not_created recordedQ (mem_calls_of_callsFrom here).1
        (site ▸ spans.mem_created inside)

theorem Plain.fits_covers (s : Slot) (alive : g.Live s) :
    ∃ x n, Part u g.isBuilt x n ∧ g.place x = s := by
  rcases plain.laid.covers s alive with ⟨b, member, own⟩ | ⟨r, recorded, created⟩
  · obtain ⟨f, same, part⟩ := ordered.wired.part?_eq member
    rw [(plain.laid.kernels b member).slots] at own
    obtain ⟨i, rfl, inside⟩ := mem_slotsFrom (u := u) (k := f) own
    exact ⟨.own b.kernel i, _, .own (ordered.wired.isBuilt member) part
      (List.getElem?_eq_getElem inside), ordered.wired.place_own member i⟩
  · have linked : r.linked = true := by
      refine Bool.of_not_eq_false fun unlinked => ?_
      rw [((plain.laid.records r recorded).unlinked unlinked).2] at created
      cases created
    obtain ⟨t, first, spans⟩ := (plain.laid.records r recorded).linked linked
    obtain ⟨b, member, owner, -⟩ := (ordered.wired.records r recorded).caller
    obtain ⟨f, same, part⟩ := ordered.wired.part?_eq member
    obtain ⟨j, q, here, listed, idle⟩ := plain.plan_of_call member same recorded owner.symm
    have target : q.target = some t := (eq_of_idle idle).2.2.symm.trans spans.target
    rw [spans.created] at created
    obtain ⟨low, high⟩ := List.mem_range'_1.mp created
    obtain ⟨i, rfl⟩ := Nat.exists_eq_add_of_le low
    have inside : i < (linkNodes q t (u.returns t)).length := by
      rw [← linkNodes_of_idle idle]
      exact Nat.lt_of_add_lt_add_left high
    exact ⟨.link b.kernel j i, _, .link (ordered.wired.isBuilt member) part listed target
      ((ordered.linked_iff_isBuilt recorded spans.target).mp linked)
      (List.getElem?_eq_getElem inside), place_link here spans.returnSite i⟩

omit plain in
/-- A node that a call has made belongs to no other call. -/
theorem Ordered.index_of_created {k k' : KernelId} {j j' : Nat} {r r' : CallRecord} {s : Slot}
    (listed : (g.callsFrom k)[j]? = some r) (listed' : (g.callsFrom k')[j']? = some r')
    (created : s ∈ r.created) (created' : s ∈ r'.created) : k = k' ∧ j = j' := by
  obtain ⟨member, caller⟩ := mem_calls_of_callsFrom listed
  obtain ⟨member', caller'⟩ := mem_calls_of_callsFrom listed'
  obtain rfl := ordered.wired.eq_of_created member member' created created'
  obtain rfl : k = k' := caller.symm.trans caller'
  have apart : (g.callsFrom k).Pairwise fun r t => ∀ s ∈ r.created, s ∉ t.created :=
    ordered.wired.apart.sublist List.filter_sublist
  obtain ⟨inside, here⟩ := List.getElem?_eq_some_iff.mp listed
  obtain ⟨inside', here'⟩ := List.getElem?_eq_some_iff.mp listed'
  refine ⟨rfl, ?_⟩
  rcases Nat.lt_trichotomy j j' with less | same | more
  · have disjoint := List.pairwise_iff_getElem.mp apart j j' inside inside' less
    exact absurd (here' ▸ created) (disjoint s (here ▸ created))
  · exact same
  · have disjoint := List.pairwise_iff_getElem.mp apart j' j inside' inside more
    exact absurd (here ▸ created) (disjoint s (here' ▸ created))

/-- The slot of a spot is a slot of its kernel, or was made for its call. -/
theorem Plain.place_cases {x : Spot} {n : GraphNode} (part : Part u g.isBuilt x n) :
    (∃ b ∈ g.built, ∃ i, x = .own b.kernel i ∧ g.place x = b.entry + i ∧ g.place x ∈ b.slots) ∨
      ∃ k j i r s, x = .link k j i ∧ (g.callsFrom k)[j]? = some r ∧ r.returnSite = some s ∧
        g.place x = s + i ∧ g.place x ∈ r.created := by
  cases part with
  | own built part listed =>
      obtain ⟨b, member, rfl, -, rfl⟩ := ordered.kernel_of_part built part
      have here := ordered.wired.place_own member
      have own := (plain.laid.kernels b member).mem_slots listed
      exact Or.inl ⟨b, member, _, rfl, here _, here _ ▸ own⟩
  | link built part recorded target linked listed =>
      obtain ⟨b, member, rfl, same, rfl⟩ := ordered.kernel_of_part built part
      obtain ⟨r, s, here, idle, -, spans⟩ :=
        plain.call_of_part ordered member same recorded target linked
      have slot := place_link here spans.returnSite
      rw [← linkNodes_of_idle idle] at listed
      have created := spans.mem_created (List.getElem?_eq_some_iff.mp listed).1
      exact Or.inr ⟨_, _, _, r, s, rfl, here, spans.returnSite, slot _, slot _ ▸ created⟩

theorem Plain.fits_distinct (x y : Spot) (n m : GraphNode) (atX : Part u g.isBuilt x n)
    (atY : Part u g.isBuilt y m) (same : g.place x = g.place y) : x = y := by
  have never {b : BuiltKernel} {k : KernelId} {j : Nat} {r : CallRecord} {s : Slot}
      (built : b ∈ g.built) (own : s ∈ b.slots) (listed : (g.callsFrom k)[j]? = some r)
      (created : s ∈ r.created) : False :=
    ordered.wired.link_not_own built own
      ((ordered.wired.records r (mem_calls_of_callsFrom listed).1).created s created)
  rcases plain.place_cases ordered atX with
    ⟨b, built, i, rfl, place, own⟩ | ⟨k, j, i, r, s, rfl, listed, noted, place, created⟩ <;>
  rcases plain.place_cases ordered atY with
    ⟨c, builtC, i', rfl, place', own'⟩ |
      ⟨k', j', i', r', s', rfl, listed', noted', place', created'⟩
  · have kernel := ordered.wired.kernel_eq_of_slot built builtC own (same ▸ own')
    obtain rfl : c = b := ordered.wired.kernel_inj builtC built kernel
    rw [Nat.add_left_cancel (place.symm.trans (same.trans place'))]
  · exact (never built own listed' (same ▸ created')).elim
  · exact (never builtC own' listed (same ▸ created)).elim
  · obtain ⟨rfl, rfl⟩ := ordered.index_of_created listed listed' created (same ▸ created')
    obtain rfl : r = r' := Option.some.inj (listed.symm.trans listed')
    obtain rfl : s = s' := Option.some.inj (noted.symm.trans noted')
    rw [Nat.add_left_cancel (place.symm.trans (same.trans place'))]

/-! ## The edges of a graph that fits -/

omit plain in
theorem Ordered.arcs_eq (built : b ∈ g.built) :
    b.arcs = (spotArcs b.kernel b.graph).map (moveArc g.place) := by
  rw [BuiltKernel.arcs, wiringOf_eq_move, kernelEdges_move, spotArcs, List.map_map]
  refine List.map_congr_left fun e _ => ?_
  simp only [Function.comp_apply, moveArc, ordered.wired.place_own built]

/-- The edges of the kernels that leave a slot of a kernel are its own. -/
theorem Plain.ownArcs_filter_place (built : b ∈ g.built) {i : Nat} (own : b.entry + i ∈ b.slots) :
    g.ownArcs.filter (·.1 == b.entry + i)
      = ((spotArcs b.kernel b.graph).filter (·.1 == .own b.kernel i)).map (moveArc g.place) := by
  have once : g.built.Nodup := .of_map _ ordered.wired.once
  have others : ∀ c ∈ g.built, c ≠ b → c.arcs.filter (·.1 == b.entry + i) = [] := by
    intro c member different
    refine List.filter_eq_nil_iff.mpr fun e inner => ?_
    have source := ((plain.laid.kernels c member).mem_arcs inner).1
    rw [beq_iff_eq]
    intro here
    exact different (ordered.wired.kernel_inj member built
      (ordered.wired.kernel_eq_of_slot built member own (here ▸ source)))
  rw [ownArcs, List.filter_flatMap, flatMap_eq_of_unique once built others,
    ordered.arcs_eq built, List.filter_map]
  congr 1
  refine List.filter_congr fun e listed => ?_
  obtain ⟨a, -, rfl⟩ := List.mem_map.mp listed
  simp [moveArc, ordered.wired.place_own built]

/-- The edges of a call are those planned for it. -/
theorem Plain.callArcs_eq (built : b ∈ g.built) {j : Nat} {r q : CallRecord}
    (listed : (g.callsFrom b.kernel)[j]? = some r) (idle : r.idle = q.moved b.entry) :
    g.callArcs u r = (linkSpotArcs u g.isBuilt b.kernel b.graph q j).map (moveArc g.place) := by
  obtain ⟨member, caller⟩ := mem_calls_of_callsFrom listed
  obtain ⟨site, args, target⟩ := eq_of_idle idle
  cases callee : q.target with
  | none =>
      rw [callArcs, target, callee, Option.bind_none, linkSpotArcs, callee, List.map_nil]
      cases r.returnSite <;> rfl
  | some t =>
      cases linked : g.isBuilt t with
      | false =>
          have absent : g.builtKernel? t = none := by simpa [isBuilt] using linked
          rw [callArcs, target, callee, Option.bind_some, absent, linkSpotArcs, callee]
          simp only [linked, Bool.false_eq_true, if_false, List.map_nil]
          cases r.returnSite <;> rfl
      | true =>
          have done := (ordered.linked_iff_isBuilt member (target.trans callee)).mpr linked
          obtain ⟨c, builtC, s, spans, arcs⟩ := ordered.wired.linked_call plain.laid member done
          obtain rfl : c.kernel = t :=
            Option.some.inj (spans.target.symm.trans (target.trans callee))
          obtain ⟨d, builtD, owner, ofD⟩ := (ordered.wired.records r member).caller
          obtain rfl : d = b := ordered.wired.kernel_inj builtD built (owner.trans caller)
          have onward := plain.ownArcs_filter_place ordered built (i := q.site) (site ▸ ofD)
          rw [arcs, linkSpotArcs, callee]
          simp only [linked, if_true, linkArcs_map, ordered.wired.place_own built,
            ordered.wired.place_own builtC, place_link listed spans.returnSite, ← onward,
            (plain.laid.kernels c builtC).exit, site, args, Nat.add_zero]

theorem Plain.kernelArcs_eq (built : b ∈ g.built) :
    b.arcs ++ (g.callsFrom b.kernel).flatMap (g.callArcs u)
      = (kernelSpotArcs u g.isBuilt b.kernel).map (moveArc g.place) := by
  obtain ⟨f, same, part⟩ := ordered.wired.part?_eq built
  have calls : (g.callsFrom b.kernel).flatMap (g.callArcs u)
      = ((recordsFor u f b.graph 0).zipIdx.flatMap fun (q, j) =>
          linkSpotArcs u g.isBuilt b.kernel b.graph q j).map (moveArc g.place) := by
    rw [List.map_flatMap, List.flatMap_def, List.flatMap_def]
    congr 1
    refine List.ext_getElem? fun j => ?_
    have planned := plain.getElem?_callsFrom built same j
    rw [List.getElem?_map, List.getElem?_map, List.getElem?_zipIdx]
    cases listed : (g.callsFrom b.kernel)[j]? with
    | none =>
        rw [listed, Option.map_none, eq_comm, Option.map_eq_none_iff] at planned
        rw [planned]
        rfl
    | some r =>
        rw [listed, Option.map_some, eq_comm, Option.map_eq_some_iff] at planned
        obtain ⟨q, listedQ, idle⟩ := planned
        rw [listedQ, Option.map_some, Option.map_some, Option.map_some,
          plain.callArcs_eq ordered built listed idle.symm, Nat.zero_add]
  rw [kernelSpotArcs, part, List.map_append, calls, ordered.arcs_eq built]

omit plain in
/-- The built kernels, in the order of the unit. -/
theorem Ordered.built_perm :
    (g.built.map (·.kernel)).Perm ((List.range u.kernels.length).filter g.isBuilt) := by
  refine (List.perm_ext_iff_of_nodup ordered.wired.once (List.nodup_range.filter _)).mpr fun k => ?_
  rw [List.mem_map, List.mem_filter, List.mem_range]
  constructor
  · rintro ⟨b, built, rfl⟩
    obtain ⟨f, listed, describes⟩ := (ordered.wired.kernels b built).listed
    refine ⟨?_, ordered.wired.isBuilt built⟩
    rw [describes.kernel]
    exact (List.getElem?_eq_some_iff.mp (SourceUnit.kernel?_id listed)).1
  · rintro ⟨-, built⟩
    obtain ⟨b, found⟩ := Option.isSome_iff_exists.mp built
    exact ⟨b, mem_of_builtKernel? found⟩

open scoped List in
/-- The edges of the graph are those of the blueprint: kernel by kernel they are the same, and the
order in which kernels were built only permutes them. -/
theorem Plain.fits_drawn (single : u.SingleCalls) :
    g.Accounts ((blueprint u g.isBuilt).map (moveArc g.place)) := by
  obtain ⟨strays, accounts, shapes⟩ := plain.laid.drawn
  -- the only edges that no plan accounts for are strays, and single calls leave none
  have lone := plain.planned.lone ordered.wired single
  have none : strays = [] := List.eq_nil_iff_forall_not_mem.mpr fun e stray =>
    lone.not_stray ordered.wired plain.laid e (shapes e stray)
  rw [none, List.append_nil] at accounts
  refine accounts.perm ?_
  have grouped : g.calls.Perm (g.built.flatMap fun b => g.callsFrom b.kernel) := by
    have keyed := perm_flatMap_filter CallRecord.caller ordered.wired.once g.calls ?_
    · rwa [List.flatMap_map] at keyed
    · intro r member
      obtain ⟨b, built, owner, -⟩ := (ordered.wired.records r member).caller
      exact List.mem_map.mpr ⟨b, built, owner⟩
  calc g.ownArcs ++ g.calls.flatMap (g.callArcs u)
    _ ~ g.built.flatMap BuiltKernel.arcs ++
          g.built.flatMap fun b => (g.callsFrom b.kernel).flatMap (g.callArcs u) := by
        rw [← List.flatMap_assoc]
        exact (grouped.flatMap_right _).append_left _
    _ ~ g.built.flatMap fun b => b.arcs ++ (g.callsFrom b.kernel).flatMap (g.callArcs u) :=
        List.flatMap_append_perm _ _ _
    _ = (g.built.map (·.kernel)).flatMap fun k =>
          (kernelSpotArcs u g.isBuilt k).map (moveArc g.place) := by
        rw [List.flatMap_map]
        exact List.flatMap_congr fun b built => plain.kernelArcs_eq ordered built
    _ ~ ((List.range u.kernels.length).filter g.isBuilt).flatMap fun k =>
          (kernelSpotArcs u g.isBuilt k).map (moveArc g.place) :=
        (ordered.built_perm).flatMap_right _
    _ = (blueprint u g.isBuilt).map (moveArc g.place) := by
        rw [blueprint, List.map_flatMap]

/-- A graph in order whose records are plain fits the kernels that are built. -/
theorem Plain.fits (single : u.SingleCalls) : g.Fits u g.isBuilt where
  nodes := plain.fits_nodes ordered
  aims := plain.fits_aims ordered
  covers := plain.fits_covers ordered
  distinct := plain.fits_distinct ordered
  drawn := plain.fits_drawn ordered single

end Plain

end PropertyGraph

end Retarget
