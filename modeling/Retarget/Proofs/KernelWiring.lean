/-
# Proofs.KernelWiring -- a kernel is put into the graph

The slots of a new kernel are those from the end of the arena on, and all edges made for it run
between them (`kernelEdges_all`), none of them a return. So building a kernel extends the graph;
what is left is to see that its tables agree with the nodes: entry and exit have their kinds, the
index names the nodes of the statements, aliases name statements, and a record is made only at a
call site (`Wired.buildKernel`).
-/
import Retarget.Proofs.CallWiring

namespace Retarget

open Retarget.Source (Node NodeId)

set_option autoImplicit false
set_option linter.dupNamespace false

/-- The kinds of edges that stay within a kernel. -/
def EdgeKind.isLocal : EdgeKind → Bool
  | .within | .taken | .skipped | .between => true
  | .call | .ret | .paramIn | .paramOut => false

theorem Block.mem_of_terminator? {b : Block} {cond : NodeId} (ends : b.terminator? = some cond) :
    cond ∈ b.nodes := by
  unfold Block.terminator? at ends
  split at ends
  · exact List.mem_of_getLast? ends
  · cases ends

namespace PropertyGraph

/-! ## Edges of one kernel -/

/-- Every slot of the wiring is as described. -/
structure Wiring.All (w : Wiring) (P : Slot → Prop) : Prop where
  entry : P w.entry
  exit : P w.exit
  blocks : ∀ block ∈ w.blocks, ∀ s ∈ block, P s

section Edges

variable {flow : FlowGraph} {w : Wiring} {P : Slot → Prop}

theorem Wiring.All.block (all : w.All P) (i : Nat) : ∀ s ∈ w.blocks.getD i [], P s := by
  intro s member
  rw [List.getD_eq_getElem?_getD] at member
  cases here : w.blocks[i]? with
  | none => simp [here] at member
  | some block =>
      rw [here] at member
      exact all.blocks block (List.mem_of_getElem? here) s member

theorem entriesOf_all (all : w.All P) (depth b : Nat) (seen : List Nat) :
    ∀ s ∈ (entriesOf flow w depth b seen).1, P s := by
  induction depth generalizing b seen with
  | zero =>
      intro s member
      cases member
  | succ depth ih =>
      -- looking through an empty block collects what its successors begin with
      have collect (next : List Nat) (state : List Slot × List Nat)
          (before : ∀ s ∈ state.1, P s) :
          ∀ s ∈ (next.foldl (fun state t => (state.1 ++ (entriesOf flow w depth t state.2).1,
            (entriesOf flow w depth t state.2).2)) state).1, P s := by
        induction next generalizing state with
        | nil => exact before
        | cons t next more =>
            apply more
            intro s member
            rcases List.mem_append.mp member with old | new
            · exact before s old
            · exact ih t state.2 s new
      rw [entriesOf]
      split
      · intro s member
        obtain rfl := List.mem_singleton.mp member
        exact all.exit
      · split
        · intro s member
          obtain rfl := List.mem_singleton.mp member
          exact all.block b _ (List.mem_of_mem_head? ‹_›)
        · split
          · intro s member
            cases member
          · exact collect (flow.succs b) ([], b :: seen) fun s member => absurd member List.not_mem_nil

theorem mem_chainEdges {block : List Slot} {a b : Slot} {kind : EdgeKind}
    (member : (a, b, kind) ∈ chainEdges block) : a ∈ block ∧ b ∈ block ∧ kind.isLocal = true := by
  induction block using chainEdges.induct with
  | case1 x y rest ih =>
      rw [chainEdges, List.mem_cons] at member
      rcases member with first | later
      · cases first
        simp [EdgeKind.isLocal]
      · obtain ⟨source, target, isLocal⟩ := ih later
        exact ⟨List.mem_cons_of_mem _ source, List.mem_cons_of_mem _ target, isLocal⟩
  | case2 block short => simp [chainEdges] at member

theorem mem_blockEdges (all : w.All P) {i : Nat} {a b : Slot} {kind : EdgeKind}
    (member : (a, b, kind) ∈ blockEdges flow w i) : P a ∧ P b ∧ kind.isLocal = true := by
  unfold blockEdges at member
  split at member
  · cases member
  · rename_i _ last here
    rw [List.mem_flatMap] at member
    obtain ⟨⟨t, label⟩, -, inner⟩ := member
    obtain ⟨s, entry, same⟩ := List.mem_map.mp inner
    cases same
    refine ⟨all.block i a (List.mem_of_getLast? here), entriesOf_all all _ _ _ _ entry, ?_⟩
    cases label <;> rfl

/-- Edges of a kernel run between its own slots and are of the local kinds. -/
theorem kernelEdges_all (all : w.All P) {a b : Slot} {kind : EdgeKind}
    (member : (a, b, kind) ∈ kernelEdges flow w) : P a ∧ P b ∧ kind.isLocal = true := by
  rw [kernelEdges, List.mem_append, List.mem_append] at member
  rcases member with (chain | branch) | start
  · obtain ⟨block, listed, inner⟩ := List.mem_flatMap.mp chain
    obtain ⟨source, target, isLocal⟩ := mem_chainEdges inner
    exact ⟨all.blocks block listed a source, all.blocks block listed b target, isLocal⟩
  · obtain ⟨i, -, inner⟩ := List.mem_flatMap.mp branch
    exact mem_blockEdges all inner
  · obtain ⟨s, entry, same⟩ := List.mem_map.mp start
    cases same
    exact ⟨all.entry, entriesOf_all all _ _ _ _ entry, rfl⟩

theorem mem_numberBlocks {first s : Nat} {lists : List (List NodeId)} {block : List Nat}
    (listed : block ∈ numberBlocks first lists) (member : s ∈ block) :
    first ≤ s ∧ s < first + lists.flatten.length := by
  induction lists generalizing first with
  | nil => cases listed
  | cons nodes lists ih =>
      rw [numberBlocks, List.mem_cons] at listed
      rw [List.flatten_cons, List.length_append]
      rcases listed with rfl | later
      · have within := List.mem_range'_1.mp member
        exact ⟨within.1, by omega⟩
      · have within := ih later
        exact ⟨by omega, by omega⟩

/-- The slots of a kernel that is built at the end of an arena of the given size. -/
def slotsFrom (flow : FlowGraph) (first : Slot) : List Slot :=
  List.range' first (flow.statements.length + 2)

theorem wiringOf_all (flow : FlowGraph) (first : Slot) :
    (wiringOf flow first).All (· ∈ slotsFrom flow first) where
  entry := List.mem_range'_1.mpr (by simp [wiringOf])
  exit := List.mem_range'_1.mpr (by simp [wiringOf])
  blocks := by
    intro block listed s member
    obtain ⟨low, high⟩ := mem_numberBlocks listed member
    have total : (flow.blocks.map (·.nodes)).flatten.length = flow.statements.length := by
      rw [FlowGraph.statements, List.flatMap_def]
    rw [total] at high
    exact List.mem_range'_1.mpr ⟨by omega, by omega⟩

end Edges

/-! ## Names of statements -/

/-- Either the entry was there, or it names a statement. -/
def Names (known : List (NodeId × NodeId)) (stmts : List NodeId) (e : NodeId × NodeId) : Prop :=
  e ∈ known ∨ e.2 ∈ stmts

theorem Names.of_mem_addAlias {known acc : List (NodeId × NodeId)} {stmts : List NodeId}
    {owner stmt : NodeId} (before : ∀ e ∈ acc, Names known stmts e) (listed : stmt ∈ stmts) :
    ∀ e ∈ addAlias acc owner stmt, Names known stmts e := by
  intro e member
  unfold addAlias at member
  split at member
  · exact before e member
  · rcases List.mem_append.mp member with old | new
    · exact before e old
    · obtain rfl := List.mem_singleton.mp new
      exact Or.inr listed

theorem mem_branchAliases (flow : FlowGraph) (index : List (NodeId × Slot))
    (known : List (NodeId × NodeId)) :
    ∀ e ∈ branchAliases flow index known, Names known flow.statements e := by
  apply List.foldlRecOn (motive := fun acc => ∀ e ∈ acc, Names known flow.statements e)
  · exact fun e old => Or.inl old
  · intro acc before b listed
    split
    · rename_i cond owner ends _
      split
      · exact before
      · exact .of_mem_addAlias before
          (List.mem_flatMap.mpr ⟨b, listed, Block.mem_of_terminator? ends⟩)
    · exact before

theorem mem_stmtAliases (u : SourceUnit) (stmts : List NodeId) (known : List (NodeId × NodeId)) :
    ∀ e ∈ stmtAliases u stmts known, Names known stmts e := by
  apply List.foldlRecOn (motive := fun acc => ∀ e ∈ acc, Names known stmts e)
  · exact fun e old => Or.inl old
  · intro acc before n listed
    split
    · split
      · exact .of_mem_addAlias before listed
      · exact before
    · intro e member
      rcases List.mem_append.mp member with old | new
      · exact before e (List.mem_filter.mp old).1
      · obtain rfl := List.mem_singleton.mp new
        exact Or.inr listed
    · exact before

/-! ## Nodes and records of one kernel -/

section Kernel

variable {u : SourceUnit} {g : PropertyGraph} {k : KernelFn} {flow : FlowGraph}

theorem mem_kernelNodes {rows : List (NodeId × List Node)} {n : GraphNode}
    (member : n ∈ kernelNodes k rows) :
    n.kernel = k.id ∧ n.kind.isLink = false ∧ n.removed = false ∧ n.succs = [] ∧ n.preds = [] := by
  rw [kernelNodes, List.mem_cons, List.mem_cons, List.mem_map] at member
  rcases member with rfl | rfl | ⟨row, -, rfl⟩
  · exact ⟨rfl, rfl, rfl, rfl, rfl⟩
  · exact ⟨rfl, rfl, rfl, rfl, rfl⟩
  · refine ⟨rfl, ?_, rfl, rfl, rfl⟩
    by_cases none : row.2.isEmpty <;> simp [none, NodeKind.isLink]

theorem mem_slotsFrom {first s : Nat} (member : s ∈ slotsFrom flow first) :
    ∃ i, s = first + i ∧ i < (kernelNodes k (rowsOf u flow)).length := by
  obtain ⟨low, high⟩ := List.mem_range'_1.mp member
  obtain ⟨i, rfl⟩ := Nat.exists_eq_add_of_le low
  refine ⟨i, rfl, ?_⟩
  simp only [kernelNodes, rowsOf, List.length_cons, List.length_map]
  omega

theorem addNodes_own {s : Slot} (member : s ∈ slotsFrom flow g.nodes.size) :
    (g.addNodes (kernelNodes k (rowsOf u flow))).LiveAs s
      fun n => n.kernel = k.id ∧ n.kind.isLink = false := by
  obtain ⟨i, rfl, inside⟩ := mem_slotsFrom (u := u) (k := k) member
  have here := List.getElem?_eq_getElem inside
  have facts := mem_kernelNodes (List.mem_of_getElem? here)
  exact liveAs_addNodes here facts.2.2.1 ⟨facts.1, facts.2.1⟩

theorem wireKernel_grown (sound : g.Sound) (u : SourceUnit) (k : KernelFn) (flow : FlowGraph) :
    (g.addNodes (kernelNodes k (rowsOf u flow))).Grown (g.wireKernel u k flow) := by
  have bare : ∀ n ∈ kernelNodes k (rowsOf u flow), n.succs = [] ∧ n.preds = [] :=
    fun n member => (mem_kernelNodes member).2.2.2
  apply (Grown.refl (sound.addNodes bare)).addEdges
  rintro ⟨a, b, kind⟩ member
  obtain ⟨source, target, isLocal⟩ := kernelEdges_all (wiringOf_all flow g.nodes.size) member
  refine ⟨(addNodes_own source).live, (addNodes_own target).live, ?_⟩
  rintro rfl
  cases isLocal

/-- What stands at the slot of the `i`-th statement. -/
theorem wireKernel_row (sound : g.Sound) {i : Nat} {n : NodeId} {calls : List Node}
    (row : (rowsOf u flow)[i]? = some (n, calls)) :
    (g.wireKernel u k flow).LiveAs (g.nodes.size + (i + 2)) fun m =>
      m.stmt = some n ∧ m.kind = if calls.isEmpty then .statement else .callSite := by
  have here : (kernelNodes k (rowsOf u flow))[i + 2]? = some
      { kind := if calls.isEmpty then .statement else .callSite, kernel := k.id, stmt := some n,
        calls := calls.map Node.id } := by
    simp [kernelNodes, row]
  exact (wireKernel_grown sound u k flow).ext.liveAs (liveAs_addNodes here rfl ⟨rfl, rfl⟩)

/-- The entries of the index that a kernel adds. -/
def entriesFor (flow : FlowGraph) (first : Slot) : List (NodeId × Slot) :=
  flow.statements.zip ((slotsFrom flow first).drop 2)

theorem drop_slotsFrom (flow : FlowGraph) (first : Nat) :
    (slotsFrom flow first).drop 2 = List.range' (first + 2) flow.statements.length :=
  rfl

theorem getElem?_drop_slotsFrom {first i s : Nat}
    (here : ((slotsFrom flow first).drop 2)[i]? = some s) : s = first + (i + 2) := by
  rw [drop_slotsFrom] at here
  obtain ⟨inside, same⟩ := List.getElem?_eq_some_iff.mp here
  have value : first + 2 + 1 * i = s := List.getElem_range' inside ▸ same
  omega

/-- An entry of the index names the node of its statement. -/
theorem mem_entriesFor (sound : g.Sound) {n : NodeId} {s : Slot}
    (member : (n, s) ∈ entriesFor flow g.nodes.size) :
    n ∈ flow.statements ∧ s ∈ slotsFrom flow g.nodes.size ∧
      (g.wireKernel u k flow).LiveAs s (·.stmt = some n) := by
  obtain ⟨i, here⟩ := List.mem_iff_getElem?.mp member
  obtain ⟨stmt, slot⟩ := List.getElem?_zip_eq_some.mp here
  have row : (rowsOf u flow)[i]? = some (n, u.callsOf n) := by simp [rowsOf, stmt]
  refine ⟨List.mem_of_getElem? stmt, List.mem_of_mem_drop (List.of_mem_zip member).2, ?_⟩
  have site : s = g.nodes.size + (i + 2) := getElem?_drop_slotsFrom slot
  rw [site]
  exact (wireKernel_row sound row).imp fun m shows => shows.1

theorem exists_mem_entriesFor (first : Slot) {n : NodeId} (member : n ∈ flow.statements) :
    ∃ s, (n, s) ∈ entriesFor flow first := by
  have all : (entriesFor flow first).map Prod.fst = flow.statements := by
    apply List.map_fst_zip
    exact Nat.le_of_eq (by rw [drop_slotsFrom, List.length_range'])
  rw [← all] at member
  obtain ⟨⟨m, s⟩, listed, rfl⟩ := List.mem_map.mp member
  exact ⟨s, listed⟩

/-- The records of the calls that a kernel makes. -/
def recordsFor (u : SourceUnit) (k : KernelFn) (flow : FlowGraph) (first : Slot) :
    List CallRecord :=
  (((slotsFrom flow first).drop 2).zip (rowsOf u flow)).flatMap fun (s, _, calls) =>
    recordsOf u k.id s calls

/-- A record is made at a call site of the kernel, with nothing linked. -/
theorem mem_recordsFor (sound : g.Sound) {r : CallRecord}
    (member : r ∈ recordsFor u k flow g.nodes.size) :
    r.caller = k.id ∧ r.site ∈ slotsFrom flow g.nodes.size ∧
      (g.wireKernel u k flow).LiveAs r.site (·.kind = .callSite) ∧ r.linked = false ∧
      r.created = [] := by
  obtain ⟨⟨s, n, calls⟩, zipped, made⟩ := List.mem_flatMap.mp member
  obtain ⟨c, listed, rfl⟩ := List.mem_map.mp made
  obtain ⟨i, here⟩ := List.mem_iff_getElem?.mp zipped
  obtain ⟨slot, row⟩ := List.getElem?_zip_eq_some.mp here
  refine ⟨rfl, List.mem_of_mem_drop (List.of_mem_zip zipped).1, ?_, rfl, rfl⟩
  have site : s = g.nodes.size + (i + 2) := getElem?_drop_slotsFrom slot
  rw [site]
  refine (wireKernel_row sound row).imp fun m shows => ?_
  rw [shows.2, if_neg (by simpa using List.ne_nil_of_mem listed)]

/-- Every alias was known or names a statement of the kernel. -/
theorem mem_aliasesFor (u : SourceUnit) {known : List (NodeId × NodeId)}
    (index : List (NodeId × Slot)) (first : Slot) {owner n : NodeId}
    (member : (owner, n) ∈ stmtAliases u flow.statements (branchAliases flow index known)) :
    (owner, n) ∈ known ∨ ∃ s, (n, s) ∈ entriesFor flow first := by
  rcases mem_stmtAliases u flow.statements _ _ member with old | stmt
  · rcases mem_branchAliases flow _ _ _ old with older | stmt
    · exact Or.inl older
    · exact Or.inr (exists_mem_entriesFor first stmt)
  · exact Or.inr (exists_mem_entriesFor first stmt)

/-! ## The kernel joins the others -/

/-- A kernel whose nodes are there may be entered in the tables. -/
theorem Wired.addKernel {calls records : List CallRecord} {info : BuiltKernel}
    {entries : List (NodeId × Slot)} {aliases : List (NodeId × NodeId)} (wired : g.Wired u calls)
    (stands : info.Stands u g) (absent : ∀ b ∈ g.built, b.kernel ≠ info.kernel)
    (named : ∀ n s, (n, s) ∈ entries →
      n ∈ info.stmts ∧ s ∈ info.slots ∧ g.LiveAs s (·.stmt = some n))
    (known : ∀ owner n, (owner, n) ∈ aliases → (owner, n) ∈ g.aliases ∨ ∃ s, (n, s) ∈ entries)
    (sites : ∀ r ∈ records, r.caller = info.kernel ∧ r.site ∈ info.slots ∧
      g.LiveAs r.site (·.kind = .callSite) ∧ r.linked = false ∧ r.created = []) :
    Wired u { g with
      built := g.built ++ [info], index := g.index ++ entries, aliases := aliases }
      (calls ++ records) where
  sound := ⟨wired.sound.numbered, wired.sound.mirrored, wired.sound.cleared, wired.sound.returns⟩
  once := by
    rw [List.map_append, List.nodup_append]
    refine ⟨wired.once, List.nodup_singleton _, ?_⟩
    intro x old y new
    obtain ⟨b, built, rfl⟩ := List.mem_map.mp old
    obtain rfl := List.mem_singleton.mp new
    exact absent b built
  kernels := by
    intro b member
    have standsB : b.Stands u g := by
      rcases List.mem_append.mp member with old | new
      · exact wired.kernels b old
      · obtain rfl := List.mem_singleton.mp new
        exact stands
    exact ⟨standsB.listed, standsB.own, standsB.entry, standsB.exit⟩
  records := by
    intro r member
    rcases List.mem_append.mp member with old | new
    · have standsR := wired.records r old
      obtain ⟨b, built, owner, site⟩ := standsR.caller
      refine ⟨⟨b, List.mem_append_left _ built, owner, site⟩, standsR.site, standsR.created, ?_⟩
      intro linked
      obtain ⟨c, builtC, joins⟩ := standsR.linked linked
      exact ⟨c, List.mem_append_left _ builtC, joins.target, joins.returnSite, joins.calls⟩
    · obtain ⟨owner, site, alive, unlinked, created⟩ := sites r new
      refine ⟨⟨info, ?_, owner.symm, site⟩, alive, ?_, ?_⟩
      · exact List.mem_append_right _ (List.mem_singleton_self info)
      · intro s member
        rw [created] at member
        cases member
      · intro linked
        exact absurd (unlinked.symm.trans linked) Bool.false_ne_true
  apart := by
    rw [List.pairwise_append]
    have none {r : CallRecord} (new : r ∈ records) {s : Slot} (member : s ∈ r.created) : False := by
      rw [(sites r new).2.2.2.2] at member
      cases member
    refine ⟨wired.apart, ?_, fun r _ t new s _ later => none new later⟩
    exact List.pairwise_of_forall_mem_list fun r new t _ s member _ => none new member
  index := by
    intro n s listed
    rcases List.mem_append.mp listed with old | new
    · obtain ⟨b, built, stmt, slot, alive⟩ := wired.index n s old
      exact ⟨b, List.mem_append_left _ built, stmt, slot, alive⟩
    · obtain ⟨stmt, slot, alive⟩ := named n s new
      exact ⟨info, List.mem_append_right _ (List.mem_singleton_self info), stmt, slot, alive⟩
  aliases := by
    intro owner n listed
    rcases known owner n listed with old | ⟨s, new⟩
    · obtain ⟨s, entry⟩ := wired.aliases owner n old
      exact ⟨s, List.mem_append_left _ entry⟩
    · exact ⟨s, List.mem_append_right _ new⟩

/-- What is noted of a kernel built at the end of the arena. -/
def kernelInfo (g : PropertyGraph) (u : SourceUnit) (k : KernelFn) (flow : FlowGraph) :
    BuiltKernel where
  kernel := k.id
  graph := flow
  entry := g.nodes.size
  exit := g.nodes.size + 1
  slots := slotsFrom flow g.nodes.size
  stmts := flow.statements
  facts := analyzeFlow flow (u.accessTo flow.statements) (k.params.map (·.name)) g.cap

theorem buildKernel_eq (found : u.flowGraph? k = some flow) :
    let made := g.wireKernel u k flow
    let index := made.index ++ entriesFor flow g.nodes.size
    (g.buildKernel u k).value = { made with
      built := made.built ++ [g.kernelInfo u k flow]
      index := index
      aliases := stmtAliases u flow.statements (branchAliases flow index made.aliases)
      calls := made.calls ++ recordsFor u k flow g.nodes.size } := by
  simp only [buildKernel, found]
  rfl

theorem kernelInfo_stands (sound : g.Sound) (listed : k ∈ u.kernels)
    (found : u.flowGraph? k = some flow) :
    (g.kernelInfo u k flow).Stands u (g.wireKernel u k flow) where
  listed := by
    refine ⟨k, listed, rfl, found, rfl, ?_⟩
    rw [(wireKernel_grown sound u k flow).ext.cap]
    rfl
  own s member := (wireKernel_grown sound u k flow).ext.liveAs (addNodes_own member)
  entry := by
    refine ⟨(wiringOf_all flow g.nodes.size).entry, (wireKernel_grown sound u k flow).ext.liveAs ?_⟩
    exact liveAs_addNodes (i := 0) rfl rfl rfl
  exit := by
    refine ⟨(wiringOf_all flow g.nodes.size).exit, (wireKernel_grown sound u k flow).ext.liveAs ?_⟩
    exact liveAs_addNodes (i := 1) rfl rfl rfl

/-- Building a kernel that is not built leaves the graph in order. -/
theorem Wired.buildKernel (wired : g.Wired u g.calls) (listed : k ∈ u.kernels)
    (absent : g.isBuilt k.id = false) :
    (g.buildKernel u k).value.Wired u (g.buildKernel u k).value.calls ∧
      g.Persists (g.buildKernel u k).value := by
  cases found : u.flowGraph? k with
  | none =>
      rw [PropertyGraph.buildKernel, found]
      exact ⟨wired, .refl g⟩
  | some flow =>
      have made := wireKernel_grown wired.sound u k flow
      have grown : g.Grown (g.wireKernel u k flow) :=
        ⟨made.sound, (Extends.addNodes g _).trans made.ext⟩
      have base := wired.grow grown
      have calls : (g.wireKernel u k flow).calls = g.calls := calls_addEdges _
      rw [← calls] at base
      have fresh : ∀ b ∈ (g.wireKernel u k flow).built, b.kernel ≠ k.id := by
        intro b built same
        rw [grown.ext.built] at built
        have none : g.built.find? (·.kernel == k.id) = none := by
          simpa [isBuilt, builtKernel?] using absent
        exact absurd same (by simpa using List.find?_eq_none.mp none b built)
      have added := base.addKernel (kernelInfo_stands wired.sound listed found) fresh
        (fun _ _ member => mem_entriesFor wired.sound member)
        (fun _ _ => mem_aliasesFor u
          ((g.wireKernel u k flow).index ++ entriesFor flow g.nodes.size) g.nodes.size)
        (fun _ member => mem_recordsFor wired.sound member)
      rw [buildKernel_eq found]
      refine ⟨added.grow ((Grown.refl added.sound).withCalls _), ?_⟩
      exact ⟨grown.ext.persists.cap, grown.ext.persists.nodes⟩

end Kernel

end PropertyGraph

end Retarget
