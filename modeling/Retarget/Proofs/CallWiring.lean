/-
# Proofs.CallWiring -- kernels and calls in one graph

A state of the graph is well wired (`Wired`) when every built kernel has its nodes, every record
of a call sits at a call site of a built kernel, a linked one is joined to its callee, and every
name of a statement leads to a node. Nodes made for calls are told from nodes of kernels by their
kind, those of two kernels by the kernel they name, and those of two calls by never occurring in
two records; so what is removed for one kernel or call is nothing that another one needs.

The records are a parameter of the invariant: linking and unlinking walk over the records and
change the graph at each step, so the invariant is carried along for the records already
changed followed by those still to come.
-/
import Mathlib.Data.List.Nodup
import Retarget.Proofs.Arena

namespace Retarget

open Retarget.Source (NodeId)

set_option autoImplicit false
set_option linter.dupNamespace false

/-- The kinds of nodes that are made for linked calls. -/
def NodeKind.isLink : NodeKind → Bool
  | .returnSite | .formalIn | .formalOut | .actualIn | .actualOut => true
  | .entry | .exit | .statement | .callSite => false

/-! ## The invariant -/

/-- What is noted of a built kernel is the analysis of the flow graph of `k`. -/
structure BuiltKernel.Describes (u : SourceUnit) (cap : Nat) (b : BuiltKernel) (k : KernelFn) :
    Prop where
  kernel : b.kernel = k.id
  graph : u.flowGraph? k = some b.graph
  stmts : b.stmts = b.graph.statements
  facts : b.facts = analyzeFlow b.graph (u.accessTo b.stmts) (k.params.map (·.name)) cap

/-- The kernel is one of the unit, and all its nodes are there. -/
structure BuiltKernel.Stands (u : SourceUnit) (g : PropertyGraph) (b : BuiltKernel) : Prop where
  listed : ∃ k ∈ u.kernels, b.Describes u g.cap k
  own : ∀ s ∈ b.slots, g.LiveAs s fun n => n.kernel = b.kernel ∧ n.kind.isLink = false
  entry : b.entry ∈ b.slots ∧ g.LiveAs b.entry (·.kind = .entry)
  exit : b.exit ∈ b.slots ∧ g.LiveAs b.exit (·.kind = .exit)

/-- The call is joined to the kernel `b`: control goes to its entry and comes back from its exit
alone. -/
structure CallRecord.Joins (g : PropertyGraph) (r : CallRecord) (b : BuiltKernel) : Prop where
  target : r.target = some b.kernel
  returnSite : ∃ s ∈ r.created, r.returnSite = some s ∧ g.LiveAs s (·.kind = .returnSite) ∧
    (g.predsOf s).filter (·.kind == .ret) = [⟨b.exit, .ret⟩]
  calls : ⟨b.entry, .call⟩ ∈ g.succsOf r.site

/-- The record sits at a call site of a built kernel and is joined to a built one if linked. -/
structure CallRecord.Stands (g : PropertyGraph) (r : CallRecord) : Prop where
  caller : ∃ b ∈ g.built, b.kernel = r.caller ∧ r.site ∈ b.slots
  site : g.LiveAs r.site (·.kind = .callSite)
  created : ∀ s ∈ r.created, g.LiveAs s fun n => n.kind.isLink = true
  linked : r.linked = true → ∃ b ∈ g.built, r.Joins g b

variable {u : SourceUnit} {g h : PropertyGraph} {calls : List CallRecord} {r : CallRecord}
  {b : BuiltKernel}

theorem BuiltKernel.Stands.extend (stands : b.Stands u g) (ext : g.Extends h) :
    b.Stands u h where
  listed := ext.cap ▸ stands.listed
  own s member := ext.liveAs (stands.own s member)
  entry := ⟨stands.entry.1, ext.liveAs stands.entry.2⟩
  exit := ⟨stands.exit.1, ext.liveAs stands.exit.2⟩

theorem CallRecord.Joins.extend (joins : r.Joins g b) (ext : g.Extends h) :
    r.Joins h b where
  target := joins.target
  returnSite := by
    obtain ⟨s, owned, noted, alive, returns⟩ := joins.returnSite
    exact ⟨s, owned, noted, ext.liveAs alive, (ext.returnsIn_eq alive.live.lt_size).trans returns⟩
  calls := ext.succsOf_subset r.site joins.calls

theorem CallRecord.Stands.extend (stands : r.Stands g) (ext : g.Extends h) : r.Stands h where
  caller := ext.built ▸ stands.caller
  site := ext.liveAs stands.site
  created s member := ext.liveAs (stands.created s member)
  linked := by
    intro linked
    obtain ⟨b, built, joins⟩ := stands.linked linked
    exact ⟨b, ext.built ▸ built, joins.extend ext⟩

namespace PropertyGraph

/-- The graph is in order for the given records. -/
structure Wired (u : SourceUnit) (g : PropertyGraph) (calls : List CallRecord) : Prop where
  sound : g.Sound
  once : (g.built.map (·.kernel)).Nodup
  kernels : ∀ b ∈ g.built, b.Stands u g
  records : ∀ r ∈ calls, r.Stands g
  apart : calls.Pairwise fun r t => ∀ s ∈ r.created, s ∉ t.created
  index : ∀ n s, (n, s) ∈ g.index →
    ∃ b ∈ g.built, n ∈ b.stmts ∧ s ∈ b.slots ∧ g.LiveAs s (·.stmt = some n)
  aliases : ∀ owner n, (owner, n) ∈ g.aliases → ∃ s, (n, s) ∈ g.index

theorem Wired.sublist {fewer : List CallRecord} (wired : g.Wired u calls)
    (sub : fewer.Sublist calls) : g.Wired u fewer :=
  { wired with
    records := fun r member => wired.records r (sub.subset member)
    apart := wired.apart.sublist sub }

/-- A kernel is built once. -/
theorem Wired.kernel_inj (wired : g.Wired u calls) {b c : BuiltKernel} (left : b ∈ g.built)
    (right : c ∈ g.built) (same : b.kernel = c.kernel) : b = c :=
  List.inj_on_of_nodup_map wired.once left right same

theorem Wired.grow (wired : g.Wired u calls) (grown : g.Grown h) : h.Wired u calls where
  sound := grown.sound
  once := grown.ext.built ▸ wired.once
  kernels := by
    intro b built
    exact (wired.kernels b (grown.ext.built ▸ built)).extend grown.ext
  records r member := (wired.records r member).extend grown.ext
  apart := wired.apart
  index := by
    intro n s listed
    obtain ⟨b, built, stmt, slot, alive⟩ := wired.index n s (grown.ext.index ▸ listed)
    exact ⟨b, grown.ext.built ▸ built, stmt, slot, grown.ext.liveAs alive⟩
  aliases := by
    intro owner n listed
    rw [grown.ext.index]
    exact wired.aliases owner n (grown.ext.aliases ▸ listed)

/-! ## Linking a call -/

/-- While a call is linked: what `base` had is there, and the nodes made so far, all of them from
`first` on and `first` among them, are live nodes of a linked call. -/
structure Linking (first : Slot) (base : PropertyGraph) (state : PropertyGraph × List Slot) :
    Prop where
  grown : base.Grown state.1
  later : first ≤ base.nodes.size
  owned : first ∈ state.2
  created : ∀ s ∈ state.2, first ≤ s ∧ state.1.LiveAs s fun n => n.kind.isLink = true

namespace Linking

variable {base : PropertyGraph} {first : Slot} {created : List Slot}

theorem addNode (linking : Linking first base (h, created)) (n : GraphNode)
    (bare : n.succs = [] ∧ n.preds = []) (present : n.removed = false)
    (kind : n.kind.isLink = true) :
    Linking first base ((h.addNode n).1, created ++ [h.nodes.size]) := by
  have grown := linking.grown.addNode n bare
  have step : h.Extends (h.addNode n).1 := (Extends.refl h).addNode n
  refine ⟨grown, linking.later, List.mem_append_left _ linking.owned, fun s member => ?_⟩
  rcases List.mem_append.mp member with old | new
  · exact ⟨(linking.created s old).1, step.liveAs (linking.created s old).2⟩
  · obtain rfl := List.mem_singleton.mp new
    exact ⟨Nat.le_trans linking.later linking.grown.ext.size_le, liveAs_addNode present kind⟩

theorem addEdge (linking : Linking first base (h, created)) {a b : Slot} (kind : EdgeKind)
    (source : h.Live a) (target : h.Live b) (other : kind ≠ .ret) :
    Linking first base (h.addEdge a b kind, created) := by
  have grown := linking.grown.addEdge kind source target fun ret => absurd ret other
  refine ⟨grown, linking.later, linking.owned, fun s member => ?_⟩
  exact ⟨(linking.created s member).1, (linking.created s member).2.addEdge⟩

theorem live_of_mem {state : PropertyGraph × List Slot} (linking : Linking first base state)
    {s : Slot} (member : s ∈ state.2) : state.1.Live s :=
  (linking.created s member).2.live

theorem linkArg {state : PropertyGraph × List Slot} (linking : Linking first base state)
    {site : Slot} (atSite : base.Live site) (caller callee : KernelId) (arg : NodeId × Nat) :
    Linking first base (linkArg caller callee site state arg) := by
  obtain ⟨h, created⟩ := state
  have actual := linking.addNode
    { kind := .actualIn, kernel := caller, stmt := some arg.1, param := some arg.2 }
    ⟨rfl, rfl⟩ rfl rfl
  have formal := actual.addNode { kind := .formalIn, kernel := callee, param := some arg.2 }
    ⟨rfl, rfl⟩ rfl rfl
  have passed := formal.addEdge .paramIn (formal.grown.ext.live atSite)
    (formal.live_of_mem (s := h.nodes.size) (by simp)) (by decide)
  have received := passed.addEdge .paramIn (passed.live_of_mem (s := h.nodes.size) (by simp))
    (passed.live_of_mem (List.mem_append_right _ (List.mem_singleton_self _))) (by decide)
  rw [List.append_assoc] at received
  exact received

theorem linkResult {state : PropertyGraph × List Slot} (linking : Linking first base state)
    {callee : BuiltKernel} {returnSite : Slot} (atExit : base.Live callee.exit)
    (atReturn : base.Live returnSite) (caller : KernelId) (call : NodeId) :
    Linking first base (linkResult caller callee call returnSite state) := by
  obtain ⟨h, created⟩ := state
  have formal := linking.addNode { kind := .formalOut, kernel := callee.kernel } ⟨rfl, rfl⟩ rfl rfl
  have actual := formal.addNode { kind := .actualOut, kernel := caller, stmt := some call }
    ⟨rfl, rfl⟩ rfl rfl
  have left := actual.addEdge .paramOut (actual.grown.ext.live atExit)
    (actual.live_of_mem (s := h.nodes.size) (by simp)) (by decide)
  have crossed := left.addEdge .paramOut (left.live_of_mem (s := h.nodes.size) (by simp))
    (left.live_of_mem (List.mem_append_right _ (List.mem_singleton_self _))) (by decide)
  have arrived := crossed.addEdge .paramOut
    (crossed.live_of_mem (List.mem_append_right _ (List.mem_singleton_self _)))
    (crossed.grown.ext.live atReturn) (by decide)
  rw [List.append_assoc] at arrived
  exact arrived

theorem linkArgs {state : PropertyGraph × List Slot} (linking : Linking first base state)
    {site : Slot} (atSite : base.Live site) (caller callee : KernelId) (args : List (NodeId × Nat)) :
    Linking first base (args.foldl (PropertyGraph.linkArg caller callee site) state) := by
  induction args generalizing state with
  | nil => exact linking
  | cons arg args ih =>
      rw [List.foldl_cons]
      exact ih (linking.linkArg atSite caller callee arg)

/-- The edges that leave the call site leave the return site as well. -/
theorem resume (after : List Edge) {returnSite : Slot}
    (linking : Linking first base (h, created)) (atReturn : base.Live returnSite)
    (alive : ∀ e ∈ after, base.Live e.other) (other : ∀ e ∈ after, e.kind ≠ .ret) :
    Linking first base
      (after.foldl (fun g e => g.addEdge returnSite e.other e.kind) h, created) := by
  induction after generalizing h with
  | nil => exact linking
  | cons e after ih =>
      have step := linking.addEdge e.kind (linking.grown.ext.live atReturn)
        (linking.grown.ext.live (alive e List.mem_cons_self)) (other e List.mem_cons_self)
      exact ih step (fun f member => alive f (List.mem_cons_of_mem _ member))
        (fun f member => other f (List.mem_cons_of_mem _ member))

end Linking

/-- The node that control comes back to after a call. -/
def returnNode (r : CallRecord) : GraphNode :=
  { kind := .returnSite, kernel := r.caller, stmt := some r.call }

/-- The graph with a return site and the two edges that lead through the callee. -/
def openCall (g : PropertyGraph) (r : CallRecord) (callee : BuiltKernel) : PropertyGraph :=
  ((g.addNode (returnNode r)).1.addEdge r.site callee.entry .call).addEdge callee.exit
    g.nodes.size .ret

/-- The graph and the nodes made for a call once all of them are there. -/
def linkState (g : PropertyGraph) (returns : Bool) (r : CallRecord) (callee : BuiltKernel) :
    PropertyGraph × List Slot :=
  let resumed := ((g.succsOf r.site).filter (·.kind != .call)).foldl
    (fun h e => h.addEdge g.nodes.size e.other e.kind) (g.openCall r callee)
  let state := r.args.zipIdx.foldl (linkArg r.caller callee.kernel r.site)
    (resumed, [g.nodes.size])
  if returns then linkResult r.caller callee r.call g.nodes.size state else state

theorem linkCall_eq (returns : Bool) (r : CallRecord) (callee : BuiltKernel) :
    g.linkCall returns r callee =
      ((g.linkState returns r callee).1.setTarget r.site (some callee.kernel),
        { r with
          linked := true
          returnSite := some g.nodes.size
          created := (g.linkState returns r callee).2 }) :=
  rfl

theorem openCall_returnSite (r : CallRecord) (callee : BuiltKernel) :
    (g.openCall r callee).LiveAs g.nodes.size (·.kind = .returnSite) := by
  have alive : (g.addNode (returnNode r)).1.LiveAs g.nodes.size (·.kind = .returnSite) :=
    liveAs_addNode rfl rfl
  exact alive.addEdge.addEdge

section LinkCall

variable {callee : BuiltKernel} (sound : g.Sound) (atSite : g.LiveAs r.site (·.kind = .callSite))
  (atEntry : g.Live callee.entry) (atExit : g.LiveAs callee.exit (·.kind = .exit))

include sound atSite atEntry atExit

theorem openCall_spec : g.Grown (g.openCall r callee) ∧
    ((g.openCall r callee).predsOf g.nodes.size).filter (·.kind == .ret) = [⟨callee.exit, .ret⟩] ∧
    ⟨callee.entry, .call⟩ ∈ (g.openCall r callee).succsOf r.site := by
  have made := (Grown.refl sound).addNode (returnNode r) ⟨rfl, rfl⟩
  have fresh : (g.addNode (returnNode r)).1.LiveAs g.nodes.size (·.kind = .returnSite) :=
    liveAs_addNode rfl rfl
  have site := made.ext.live atSite.live
  have entry := made.ext.live atEntry
  have called := made.addEdge .call site entry nofun
  have exit := called.ext.liveAs atExit
  have opened := called.addEdge .ret exit.live fresh.addEdge.live
    fun _ => ⟨exit, Nat.le_refl _⟩
  refine ⟨opened, ?_, ?_⟩
  · have blank : (g.addNode (returnNode r)).1.predsOf g.nodes.size = [] := by
      simp [predsOf, edgesAt, node?_addNode, returnNode]
    have apart : g.nodes.size ≠ callee.entry := Nat.ne_of_gt atEntry.lt_size
    have none : ((g.addNode (returnNode r)).1.addEdge r.site callee.entry .call).predsOf
        g.nodes.size = [] := by
      rw [predsOf_addEdge entry.lt_size, blank, if_neg apart, List.append_nil]
    rw [openCall, predsOf_addEdge fresh.addEdge.live.lt_size, none, if_pos rfl]
    rfl
  · rw [openCall, succsOf_addEdge exit.live.lt_size, succsOf_addEdge site.lt_size, if_pos rfl]
    simp

theorem linkState_linking (returns : Bool) :
    Linking g.nodes.size (g.openCall r callee) (g.linkState returns r callee) := by
  obtain ⟨opened, -, -⟩ := openCall_spec sound atSite atEntry atExit
  have atReturn := openCall_returnSite (g := g) r callee
  have start : Linking g.nodes.size (g.openCall r callee) (g.openCall r callee, [g.nodes.size]) := by
    refine ⟨.refl opened.sound, opened.ext.size_le, List.mem_singleton_self _, fun s member => ?_⟩
    obtain rfl := List.mem_singleton.mp member
    exact ⟨Nat.le_refl _, atReturn.imp fun n kind => by rw [kind]; rfl⟩
  -- a call site is no exit, so none of the edges that leave it is a return
  have resumed := start.resume ((g.succsOf r.site).filter (·.kind != .call)) atReturn.live
    (fun e member => opened.ext.live (sound.live_other_of_mem_succs (List.mem_filter.mp member).1))
    (by
      rintro ⟨b, kind⟩ member rfl
      obtain ⟨n, -, -, site, exit⟩ :=
        atSite.and (sound.returns r.site b (List.mem_filter.mp member).1)
      exact absurd (site.symm.trans exit) (by decide))
  have passed := resumed.linkArgs (opened.ext.live atSite.live) r.caller callee.kernel r.args.zipIdx
  unfold linkState
  split
  · exact passed.linkResult (opened.ext.live atExit.live) atReturn.live r.caller r.call
  · exact passed

theorem linkCall_grown (returns : Bool) : g.Grown (g.linkCall returns r callee).1 := by
  obtain ⟨opened, -, -⟩ := openCall_spec sound atSite atEntry atExit
  have linking := linkState_linking sound atSite atEntry atExit returns
  exact opened.trans (linking.grown.setTarget r.site (some callee.kernel))

/-- A record that was linked to a built kernel is joined to it. -/
theorem linkCall_joins (returns : Bool) (target : r.target = some callee.kernel) :
    (g.linkCall returns r callee).2.Joins (g.linkCall returns r callee).1 callee := by
  obtain ⟨opened, comesBack, calls⟩ := openCall_spec sound atSite atEntry atExit
  have atReturn := openCall_returnSite (g := g) r callee
  have linking := linkState_linking sound atSite atEntry atExit returns
  have later := (linking.grown.setTarget r.site (some callee.kernel)).ext
  rw [linkCall_eq]
  refine ⟨target, ⟨g.nodes.size, linking.owned, rfl, later.liveAs atReturn, ?_⟩,
    later.succsOf_subset r.site calls⟩
  exact (later.returnsIn_eq atReturn.live.lt_size).trans comesBack

end LinkCall

/-! ## Linking all calls -/

/-- A record may be added anywhere if no other one has any of its nodes. -/
theorem Wired.insert {done rest : List CallRecord} (wired : g.Wired u (done ++ rest))
    (stands : r.Stands g) (apart : ∀ q ∈ done ++ rest, ∀ s ∈ r.created, s ∉ q.created) :
    g.Wired u (done ++ r :: rest) := by
  have symmetric {p q : CallRecord} (disjoint : ∀ s ∈ p.created, s ∉ q.created) :
      ∀ s ∈ q.created, s ∉ p.created := fun s here there => disjoint s there here
  refine { wired with records := ?_, apart := ?_ }
  · intro q member
    rcases List.mem_cons.mp (List.perm_middle.mem_iff.mp member) with rfl | other
    · exact stands
    · exact wired.records q other
  · rw [List.pairwise_middle symmetric, List.pairwise_cons]
    exact ⟨apart, wired.apart⟩

theorem Wired.linkCall {done rest : List CallRecord} {callee : BuiltKernel}
    (wired : g.Wired u (done ++ r :: rest)) (built : callee ∈ g.built)
    (target : r.target = some callee.kernel) (returns : Bool) :
    (g.linkCall returns r callee).1.Wired u (done ++ (g.linkCall returns r callee).2 :: rest) := by
  have stands := wired.records r (List.mem_append_right _ List.mem_cons_self)
  have atEntry := (wired.kernels callee built).entry.2.live
  have atExit := (wired.kernels callee built).exit.2
  have linking := linkState_linking wired.sound stands.site atEntry atExit returns
  have grown := linkCall_grown wired.sound stands.site atEntry atExit returns
  have joins := linkCall_joins wired.sound stands.site atEntry atExit returns target
  have later := ((Extends.refl _).setTarget r.site (some callee.kernel) :
    (g.linkState returns r callee).1.Extends _)
  have fewer : (done ++ rest).Sublist (done ++ r :: rest) :=
    (List.Sublist.refl done).append (List.sublist_cons_self r rest)
  refine ((wired.grow grown).sublist fewer).insert ⟨?_, ?_, ?_, ?_⟩ ?_
  · exact (stands.extend grown.ext).caller
  · exact grown.ext.liveAs stands.site
  · intro s member
    exact later.liveAs (linking.created s member).2
  · intro _
    exact ⟨callee, grown.ext.built ▸ built, joins⟩
  · intro q other s member again
    have inside := ((wired.records q (fewer.subset other)).created s again).live.lt_size
    exact Nat.not_lt_of_le (linking.created s member).1 inside

/-- Link one record if its callee has been built. -/
def linkStep (u : SourceUnit) (state : PropertyGraph × List CallRecord) (r : CallRecord) :
    PropertyGraph × List CallRecord :=
  match if r.linked then none else r.target.bind state.1.builtKernel? with
  | none => (state.1, state.2 ++ [r])
  | some c =>
    let returns := ((u.kernel? c.kernel).map (·.result != "void")).getD false
    ((state.1.linkCall returns r c).1, state.2 ++ [(state.1.linkCall returns r c).2])

theorem linkCalls_eq (g : PropertyGraph) (u : SourceUnit) :
    g.linkCalls u = { (g.calls.foldl (linkStep u) (g, [])).1 with
      calls := (g.calls.foldl (linkStep u) (g, [])).2 } :=
  rfl

/-- Whoever calls a built kernel is linked. -/
def Settled (g : PropertyGraph) (calls : List CallRecord) : Prop :=
  ∀ r ∈ calls, ∀ k, r.target = some k → g.isBuilt k = true → r.linked = true

theorem mem_of_builtKernel? {k : KernelId} {b : BuiltKernel} (found : g.builtKernel? k = some b) :
    b ∈ g.built ∧ b.kernel = k :=
  ⟨List.mem_of_find?_eq_some found, by simpa using List.find?_some found⟩

theorem Extends.isBuilt_eq (ext : g.Extends h) (k : KernelId) : h.isBuilt k = g.isBuilt k := by
  rw [isBuilt, isBuilt, builtKernel?, builtKernel?, ext.built]

theorem Settled.append_singleton {done : List CallRecord} (settled : g.Settled done)
    (last : ∀ k, r.target = some k → g.isBuilt k = true → r.linked = true) :
    g.Settled (done ++ [r]) := by
  intro q member
  rcases List.mem_append.mp member with before | here
  · exact settled q before
  · obtain rfl := List.mem_singleton.mp here
    exact last

/-- One step leaves the graph in order and the records behind it settled. -/
theorem linkStep_spec {state : PropertyGraph × List CallRecord} {rest : List CallRecord}
    (wired : state.1.Wired u (state.2 ++ r :: rest)) (settled : state.1.Settled state.2) :
    (linkStep u state r).1.Wired u ((linkStep u state r).2 ++ rest) ∧
      (linkStep u state r).1.Settled (linkStep u state r).2 ∧
      state.1.Extends (linkStep u state r).1 := by
  obtain ⟨g, done⟩ := state
  unfold linkStep
  split
  case h_1 unlinkable =>
      refine ⟨by simpa using wired, settled.append_singleton ?_, .refl g⟩
      intro k target built
      cases linked : r.linked with
      | true => rfl
      | false =>
          rw [linked, target] at unlinkable
          rw [isBuilt, show g.builtKernel? k = none from unlinkable] at built
          cases built
  case h_2 c linkable =>
      have found : r.target.bind g.builtKernel? = some c := by
        cases linked : r.linked with
        | true => simp [linked] at linkable
        | false => simpa [linked] using linkable
      obtain ⟨k, target, atK⟩ := Option.bind_eq_some_iff.mp found
      obtain ⟨built, rfl⟩ := mem_of_builtKernel? atK
      have stands := wired.records r (List.mem_append_right _ List.mem_cons_self)
      have ext (returns : Bool) : g.Extends (g.linkCall returns r c).1 :=
        (linkCall_grown wired.sound stands.site (wired.kernels c built).entry.2.live
          (wired.kernels c built).exit.2 returns).ext
      refine ⟨?_, ?_, ext _⟩
      · rw [List.append_assoc]
        exact wired.linkCall built target _
      · refine Settled.append_singleton ?_ fun _ _ _ => rfl
        intro q member k target built
        exact settled q member k target ((ext _).isBuilt_eq k ▸ built)

theorem foldl_linkStep_spec (records : List CallRecord) (state : PropertyGraph × List CallRecord)
    (wired : state.1.Wired u (state.2 ++ records)) (settled : state.1.Settled state.2) :
    let last := records.foldl (linkStep u) state
    last.1.Wired u last.2 ∧ last.1.Settled last.2 ∧ state.1.Extends last.1 := by
  induction records generalizing state with
  | nil => exact ⟨by simpa using wired, settled, .refl state.1⟩
  | cons r records ih =>
      obtain ⟨wiredNext, settledNext, ext⟩ := linkStep_spec wired settled
      obtain ⟨wiredLast, settledLast, extLast⟩ := ih _ wiredNext settledNext
      exact ⟨wiredLast, settledLast, ext.trans extLast⟩

/-- Linking leaves the graph in order and every call of a built kernel linked. -/
theorem Wired.linkCalls (wired : g.Wired u g.calls) :
    (g.linkCalls u).Wired u (g.linkCalls u).calls ∧
      (g.linkCalls u).Settled (g.linkCalls u).calls ∧ g.Persists (g.linkCalls u) := by
  have start : g.Settled [] := by
    intro r member
    cases member
  obtain ⟨wiredLast, settledLast, ext⟩ := foldl_linkStep_spec g.calls (g, []) wired start
  rw [linkCalls_eq]
  have last := (Grown.refl wiredLast.sound).withCalls (g.calls.foldl (linkStep u) (g, [])).2
  exact ⟨wiredLast.grow last, settledLast, (ext.trans last.ext).persists⟩

end PropertyGraph

end Retarget
