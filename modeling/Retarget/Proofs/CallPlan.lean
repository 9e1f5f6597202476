/-
# Proofs.CallPlan -- the records of calls, whatever has been linked

Linking and unlinking come and go, but which calls are recorded does not: less what linking notes,
the records of a built kernel are those made when it was built (`Planned`).  In a unit whose
statements each make at most one call that can be linked (`SourceUnit.SingleCalls`) no two such
records share a call site (`Lone`).  Then no edge of one call is copied for another, and a node
names the kernel that its linked call invokes (`Aimed`).
-/
import Retarget.PropertyGraph.Query
import Retarget.Proofs.LayoutHistory

namespace Retarget

open Retarget.Source (Node NodeId)

set_option autoImplicit false
set_option linter.dupNamespace false

/-! ## Units -/

namespace SourceUnit

/-- No statement makes more than one call of a kernel with a body. -/
def SingleCalls (u : SourceUnit) : Prop :=
  ∀ k ∈ u.kernels, ∀ flow, u.flowGraph? k = some flow → ∀ n ∈ flow.statements,
    ((u.callsOf n).filter fun c => (u.callee? c).any (·.hasBody)).length ≤ 1

instance (u : SourceUnit) : Decidable u.SingleCalls :=
  decidable_of_iff (∀ k ∈ u.kernels, ∀ n ∈ (u.flowGraph? k).toList.flatMap FlowGraph.statements,
    ((u.callsOf n).filter fun c => (u.callee? c).any (·.hasBody)).length ≤ 1) <| by
    refine forall₂_congr fun k _ => ?_
    cases u.flowGraph? k <;> simp

/-- The target of a call can be built. -/
def callable (u : SourceUnit) (target : Option KernelId) : Bool :=
  (target.bind u.kernel?).any (·.hasBody)

variable {u : SourceUnit}

theorem kernel?_id {k : KernelFn} (listed : k ∈ u.kernels) : u.kernel? k.id = some k := by
  obtain ⟨i, here⟩ := List.mem_iff_getElem?.mp listed
  have place : (u.kernels.map (·.id))[i]? = some k.id := by rw [List.getElem?_map, here]; rfl
  have inside : i < u.kernels.length := (List.getElem?_eq_some_iff.mp here).1
  rw [u.numbered, List.getElem?_range inside] at place
  rw [kernel?, ← Option.some.inj place, here]

/-- Kernels with one number are the same. -/
theorem kernel_inj {k k' : KernelFn} (listed : k ∈ u.kernels)
    (listed' : k' ∈ u.kernels) (same : k.id = k'.id) : k = k' := by
  have here := kernel?_id listed
  rw [same, kernel?_id listed'] at here
  exact (Option.some.inj here).symm

theorem mem_of_callee? {c : Node} {k : KernelFn} (found : u.callee? c = some k) :
    k ∈ u.kernels := by
  unfold callee? at found
  split at found
  · cases found
  · exact List.mem_reverse.mp (List.mem_of_find?_eq_some found)

theorem callable_callee (u : SourceUnit) (c : Node) :
    u.callable ((u.callee? c).map (·.id)) = (u.callee? c).any (·.hasBody) := by
  cases found : u.callee? c with
  | none => rfl
  | some k =>
      rw [callable, Option.map_some, Option.bind_some, kernel?_id (mem_of_callee? found)]

end SourceUnit

/-- The record as it is before the call is linked. -/
def CallRecord.idle (r : CallRecord) : CallRecord :=
  { r with linked := false, returnSite := none, created := [] }

namespace PropertyGraph

variable {u : SourceUnit} {g h : PropertyGraph} {calls : List CallRecord} {r q : CallRecord}
  {b : BuiltKernel}

/-! ## Which calls are recorded -/

theorem linkStep_idle (state : PropertyGraph × List CallRecord) (r : CallRecord) :
    (linkStep u state r).2.map CallRecord.idle = state.2.map CallRecord.idle ++ [r.idle] := by
  obtain ⟨g, done⟩ := state
  rcases linkStep_cases u g done r with same | ⟨c, -, -, -, same⟩
  · simp [same]
  · rw [same, List.map_append]
    rfl

theorem foldl_linkStep_idle (records : List CallRecord) (state : PropertyGraph × List CallRecord) :
    (records.foldl (linkStep u) state).2.map CallRecord.idle
      = state.2.map CallRecord.idle ++ records.map CallRecord.idle := by
  induction records generalizing state with
  | nil => simp
  | cons r records ih => rw [List.foldl_cons, ih, linkStep_idle, List.append_assoc]; rfl

/-- Linking makes and drops no records. -/
theorem linkCalls_idle (g : PropertyGraph) (u : SourceUnit) :
    (g.linkCalls u).calls.map CallRecord.idle = g.calls.map CallRecord.idle := by
  rw [linkCalls_eq]
  simpa using foldl_linkStep_idle (u := u) g.calls (g, [])

/-- Forgetting a kernel drops the records of its own calls alone. -/
theorem filterMap_release_idle (k : KernelId) (calls : List CallRecord) :
    (calls.filterMap (release k)).map CallRecord.idle
      = (calls.map CallRecord.idle).filter (·.caller != k) := by
  induction calls with
  | nil => rfl
  | cons r calls ih =>
      have own : r.idle.caller = r.caller := rfl
      rw [List.filterMap_cons, List.map_cons, List.filter_cons, own, ← ih]
      unfold release
      by_cases mine : r.caller = k
      · simp [mine]
      · by_cases goes : touches k r = true
        · simp [mine, goes, CallRecord.idle]
        · simp [mine, goes]

theorem callsFrom_idle (g : PropertyGraph) (k : KernelId) :
    (g.callsFrom k).map CallRecord.idle = (g.calls.map CallRecord.idle).filter (·.caller == k) := by
  rw [callsFrom, List.filter_map]
  rfl

/-- The records of every built kernel are those made when it was built, less what linking notes. -/
def Planned (u : SourceUnit) (g : PropertyGraph) : Prop :=
  ∀ b ∈ g.built, ∀ k : KernelFn, k.id = b.kernel →
    (g.callsFrom b.kernel).map CallRecord.idle = recordsFor u k b.graph b.entry

theorem ne_of_not_isBuilt {k : KernelId} (absent : g.isBuilt k = false) (built : b ∈ g.built) :
    b.kernel ≠ k := by
  have none : g.built.find? (·.kernel == k) = none := by simpa [isBuilt, builtKernel?] using absent
  simpa using List.find?_eq_none.mp none b built

theorem mem_recordsFor_idle {k : KernelFn} {flow : FlowGraph} {first : Slot}
    (member : r ∈ recordsFor u k flow first) : r.caller = k.id ∧ r.idle = r := by
  obtain ⟨_, -, made⟩ := List.mem_flatMap.mp member
  obtain ⟨_, -, rfl⟩ := List.mem_map.mp made
  exact ⟨rfl, rfl⟩

theorem recordsFor_congr {k k' : KernelFn} (same : k'.id = k.id) (flow : FlowGraph) (first : Slot) :
    recordsFor u k' flow first = recordsFor u k flow first := by
  rw [recordsFor, same, recordsFor]

theorem Planned.forget (planned : g.Planned u) (wired : g.Wired u g.calls) (b : BuiltKernel) :
    (g.forget b).Planned u := by
  obtain ⟨-, calls, built⟩ := wired.forget_alike b
  intro c member k same
  rw [built, List.mem_filter, bne_iff_ne] at member
  rw [← planned c member.1 k same, callsFrom_idle, callsFrom_idle, calls, filterMap_release_idle,
    List.filter_filter]
  refine List.filter_congr fun r _ => ?_
  by_cases mine : r.caller = c.kernel <;> simp [mine, member.2]

theorem Planned.buildKernel (planned : g.Planned u) (wired : g.Wired u g.calls) {k : KernelFn}
    (absent : g.isBuilt k.id = false) : (g.buildKernel u k).value.Planned u := by
  cases found : u.flowGraph? k with
  | none =>
      rw [PropertyGraph.buildKernel, found]
      exact planned
  | some flow =>
      obtain ⟨built, calls⟩ := buildKernel_tables (g := g) found
      have fresh : (recordsFor u k flow g.nodes.size).map CallRecord.idle
          = recordsFor u k flow g.nodes.size :=
        (List.map_congr_left fun r member => (mem_recordsFor_idle member).2).trans (List.map_id _)
      intro b member k' same
      rw [callsFrom_idle, calls, List.map_append, List.filter_append, fresh]
      rw [built] at member
      rcases List.mem_append.mp member with old | new
      · have none : (recordsFor u k flow g.nodes.size).filter (·.caller == b.kernel) = [] := by
          refine List.filter_eq_nil_iff.mpr fun r listed => ?_
          simpa [(mem_recordsFor_idle listed).1] using Ne.symm (ne_of_not_isBuilt absent old)
        rw [none, List.append_nil, ← callsFrom_idle]
        exact planned b old k' same
      · obtain rfl := List.mem_singleton.mp new
        have mine : (g.kernelInfo u k flow).kernel = k.id := rfl
        have none : (g.calls.map CallRecord.idle).filter (·.caller == k.id) = [] := by
          refine List.filter_eq_nil_iff.mpr fun q listed => ?_
          obtain ⟨r, recorded, rfl⟩ := List.mem_map.mp listed
          obtain ⟨c, builtC, owner, -⟩ := (wired.records r recorded).caller
          have other : r.caller ≠ k.id := owner ▸ ne_of_not_isBuilt absent builtC
          simpa [CallRecord.idle] using other
        have all : (recordsFor u k flow g.nodes.size).filter (·.caller == k.id)
            = recordsFor u k flow g.nodes.size :=
          List.filter_eq_self.mpr fun r listed => by simp [(mem_recordsFor_idle listed).1]
        rw [mine, none, all, List.nil_append]
        exact (recordsFor_congr (same.trans mine) _ _).symm

theorem Wired.built_linkCalls (wired : g.Wired u g.calls) : (g.linkCalls u).built = g.built := by
  obtain ⟨-, -, ext⟩ := foldl_linkStep_spec g.calls (g, []) wired nofun
  rw [linkCalls_eq]
  exact ext.built

theorem Planned.linkCalls (planned : g.Planned u) (wired : g.Wired u g.calls) :
    (g.linkCalls u).Planned u := by
  intro b built k same
  rw [wired.built_linkCalls] at built
  rw [callsFrom_idle, linkCalls_idle, ← callsFrom_idle]
  exact planned b built k same

/-! ## One call at each site -/

/-- No two records of calls that can be linked share a call site. -/
def Lone (u : SourceUnit) (calls : List CallRecord) : Prop :=
  ∀ s, (calls.filter fun r => r.site == s && u.callable r.target).length ≤ 1

theorem Lone.eq (lone : Lone u calls) (member : r ∈ calls) (other : q ∈ calls)
    (site : q.site = r.site) (ofR : u.callable r.target = true)
    (ofQ : u.callable q.target = true) : r = q := by
  have single := lone r.site
  have inR : r ∈ calls.filter fun p => p.site == r.site && u.callable p.target :=
    List.mem_filter.mpr ⟨member, by simp [ofR]⟩
  have inQ : q ∈ calls.filter fun p => p.site == r.site && u.callable p.target :=
    List.mem_filter.mpr ⟨other, by simp [site, ofQ]⟩
  generalize (calls.filter fun p => p.site == r.site && u.callable p.target) = found at *
  match found, single with
  | [p], _ => rw [List.mem_singleton.mp inR, List.mem_singleton.mp inQ]

theorem Lone.congr {others : List CallRecord} (lone : Lone u calls)
    (same : others.map CallRecord.idle = calls.map CallRecord.idle) : Lone u others := by
  have count (records : List CallRecord) (s : Slot) :
      (records.filter fun r => r.site == s && u.callable r.target).length
        = ((records.map CallRecord.idle).filter fun r =>
            r.site == s && u.callable r.target).length := by
    rw [List.filter_map, List.length_map]
    rfl
  intro s
  rw [count, same, ← count]
  exact lone s

/-- Every row of a kernel has a slot of its own. -/
theorem nodup_sites (u : SourceUnit) (flow : FlowGraph) (first : Slot) :
    ((((slotsFrom flow first).drop 2).zip (rowsOf u flow)).map Prod.fst).Nodup := by
  rw [List.map_fst_zip (by simp [drop_slotsFrom, rowsOf]), drop_slotsFrom]
  exact List.nodup_range'

/-- The records of one kernel. -/
theorem recordsFor_lone (single : u.SingleCalls) {k : KernelFn}
    {flow : FlowGraph} (listed : k ∈ u.kernels) (found : u.flowGraph? k = some flow)
    (first : Slot) : Lone u (recordsFor u k flow first) := by
  intro s
  have none {row : Slot × NodeId × List Node} (other : row.1 ≠ s) :
      (recordsOf u k.id row.1 row.2.2).filter (fun r => r.site == s && u.callable r.target)
        = [] := by
    refine List.filter_eq_nil_iff.mpr fun r made => ?_
    obtain ⟨c, -, rfl⟩ := List.mem_map.mp made
    simp [other]
  rw [recordsFor, List.filter_flatMap]
  by_cases met : ∃ row ∈ ((slotsFrom flow first).drop 2).zip (rowsOf u flow), row.1 = s
  · obtain ⟨row, zipped, rfl⟩ := met
    have only : ∀ other ∈ ((slotsFrom flow first).drop 2).zip (rowsOf u flow), other ≠ row →
        other.1 ≠ row.1 := by
      intro other also different same
      exact different (List.inj_on_of_nodup_map (nodup_sites u flow first) also zipped same)
    rw [flatMap_eq_of_unique (.of_map _ (nodup_sites u flow first)) zipped
      fun other also different => none (only other also different)]
    obtain ⟨n, stmt, same⟩ := List.mem_map.mp (List.of_mem_zip zipped).2
    have few := single k listed flow found n stmt
    have shape : (recordsOf u k.id row.1 row.2.2).filter
        (fun r => r.site == row.1 && u.callable r.target)
        = recordsOf u k.id row.1 ((u.callsOf n).filter fun c => (u.callee? c).any (·.hasBody)) := by
      rw [← same, recordsOf, List.filter_map, recordsOf]
      congr 1
      refine List.filter_congr fun c _ => ?_
      simp [← u.callable_callee c]
    rw [shape, recordsOf, List.length_map]
    exact few
  · have all : (((slotsFrom flow first).drop 2).zip (rowsOf u flow)).flatMap (fun row =>
        (recordsOf u k.id row.1 row.2.2).filter fun r => r.site == s && u.callable r.target) = [] :=
      List.flatMap_eq_nil_iff.mpr fun row zipped => none fun same => met ⟨row, zipped, same⟩
    rw [all]
    exact Nat.zero_le 1

/-- The records of all kernels: each site belongs to one of them. -/
theorem Planned.lone (planned : g.Planned u) (wired : g.Wired u g.calls)
    (single : u.SingleCalls) : Lone u g.calls := by
  intro s
  by_cases met : ∃ r ∈ g.calls, r.site = s
  · obtain ⟨r, member, rfl⟩ := met
    obtain ⟨b, built, owner, site⟩ := (wired.records r member).caller
    obtain ⟨k, listed, describes⟩ := (wired.kernels b built).listed
    have mine : (g.calls.filter fun q => q.site == r.site && u.callable q.target)
        = (g.callsFrom b.kernel).filter fun q => q.site == r.site && u.callable q.target := by
      rw [callsFrom, List.filter_filter]
      refine List.filter_congr fun q other => ?_
      by_cases here : q.site = r.site
      · obtain ⟨c, builtC, ownerC, siteC⟩ := (wired.records q other).caller
        have same := wired.kernel_eq_of_slot built builtC site (here ▸ siteC)
        simp [here, ← ownerC, same]
      · simp [here]
    have planned := planned b built k describes.kernel.symm
    have lone := recordsFor_lone single listed describes.graph b.entry
    rw [mine]
    refine lone.congr ?_ r.site
    rw [planned]
    exact ((List.map_congr_left fun q made => (mem_recordsFor_idle made).2).trans
      (List.map_id _)).symm
  · have none : (g.calls.filter fun r => r.site == s && u.callable r.target) = [] := by
      refine List.filter_eq_nil_iff.mpr fun r member => ?_
      have other : r.site ≠ s := fun same => met ⟨r, member, same⟩
      simp [other]
    rw [none]
    exact Nat.zero_le 1

/-- A call of a built kernel can be linked. -/
theorem Wired.callable_of_built (wired : g.Wired u calls) (built : b ∈ g.built)
    (target : r.target = some b.kernel) : u.callable r.target = true := by
  obtain ⟨k, listed, describes⟩ := (wired.kernels b built).listed
  rw [SourceUnit.callable, target, Option.bind_some, describes.kernel, SourceUnit.kernel?_id listed,
    Option.any_some]
  exact describes.hasBody

theorem Wired.callable_of_linked (wired : g.Wired u calls) (member : r ∈ calls)
    (linked : r.linked = true) : u.callable r.target = true := by
  obtain ⟨c, built, joins⟩ := (wired.records r member).linked linked
  exact wired.callable_of_built built joins.target

/-- Where linked calls have sites of their own there are no strays. -/
theorem Lone.not_stray (lone : Lone u calls) (wired : g.Wired u calls) (laid : g.Laid u calls)
    (e : Arc) : ¬Stray calls e := by
  rintro ⟨r, first, q, second, s, t, i, atR, atQ, apart, site, -⟩
  have linked {p : CallRecord} (member : p ∈ calls) {x : Slot} (noted : p.returnSite = some x) :
      p.linked = true := by
    refine Bool.of_not_eq_false fun unlinked => ?_
    cases ((laid.records p member).unlinked unlinked).1.symm.trans noted
  have same := lone.eq first second site.symm
    (wired.callable_of_linked first (linked first atR))
    (wired.callable_of_linked second (linked second atQ))
  subst same
  exact apart (Option.some.inj (atR.symm.trans atQ))

/-! ## What a node names as its target -/

/-- The kernel that the call at a slot is said to invoke. -/
def aim (g : PropertyGraph) (s : Slot) : Option KernelId := (g.node? s).bind (·.target)

/-- A live node names the target of the linked call at its slot. -/
def Aimed (g : PropertyGraph) (calls : List CallRecord) : Prop :=
  ∀ s, g.Live s → ∀ t, g.aim s = some t ↔
    ∃ r ∈ calls, r.linked = true ∧ r.site = s ∧ r.target = some t

theorem aim_setTarget_of_ne {a s : Slot} (other : s ≠ a) (target : Option KernelId) :
    (g.setTarget a target).aim s = g.aim s := by
  rw [aim, node?_setTarget, aim]
  cases g.node? s <;> simp [other]

theorem aim_setTarget_self {a : Slot} (alive : g.Live a) (target : Option KernelId) :
    (g.setTarget a target).aim a = target := by
  obtain ⟨n, here, -⟩ := alive
  simp [aim, node?_setTarget, here]

theorem aim_setTarget_none (a s : Slot) :
    (g.setTarget a none).aim s = if s = a then none else g.aim s := by
  rw [aim, node?_setTarget]
  by_cases here : s = a
  · cases g.node? s <;> simp [here]
  · rw [if_neg here, aim]
    cases g.node? s <;> simp [here]

theorem Adds.aim_eq {fresh : List GraphNode} {arcs : List Arc} (adds : g.Adds h fresh arcs)
    (s : Slot) : h.aim s = (g.addNodes fresh).aim s := by
  have read (k : PropertyGraph) : k.aim s = ((k.node? s).map GraphNode.bare).bind (·.target) := by
    rw [aim]
    cases k.node? s <;> rfl
  rw [read, adds.nodes, ← read]

theorem Adds.aim_old {fresh : List GraphNode} {arcs : List Arc} (adds : g.Adds h fresh arcs)
    {s : Slot} (inside : s < g.nodes.size) : h.aim s = g.aim s := by
  rw [adds.aim_eq, aim, node?_addNodes_old inside, aim]

theorem Adds.aim_new {fresh : List GraphNode} {arcs : List Arc} (adds : g.Adds h fresh arcs)
    (plain : ∀ n ∈ fresh, n.target = none) (i : Nat) : h.aim (g.nodes.size + i) = none := by
  rw [adds.aim_eq, aim, node?_addNodes_new]
  cases listed : fresh[i]? with
  | none => rfl
  | some n => exact plain n (List.mem_of_getElem? listed)

theorem aim_removeNode (s t : Slot) : (g.removeNode s).aim t = g.aim t := by
  cases here : g.node? s with
  | none => rw [removeNode, here]
  | some n =>
      rw [aim, node?_removeNode_met here, aim]
      cases g.node? t with
      | none => rfl
      | some m => by_cases same : s = t <;> simp [same]

theorem aim_removeNodes (slots : List Slot) (t : Slot) : (g.removeNodes slots).aim t = g.aim t := by
  induction slots generalizing g with
  | nil => rfl
  | cons s slots ih =>
      have rest : (g.removeNodes (s :: slots)).aim t = ((g.removeNode s).removeNodes slots).aim t :=
        rfl
      rw [rest, ih, aim_removeNode]

section Link

variable {done rest : List CallRecord} {callee : BuiltKernel}

/-- Linking a call aims its site, and no other call at the site says otherwise. -/
theorem Aimed.linkCall (able : Linkable u g done r rest callee)
    (aimed : g.Aimed (done ++ r :: rest)) (lone : Lone u (done ++ r :: rest)) :
    (g.linkCall (u.returns callee.kernel) r callee).1.Aimed
      (done ++ (g.linkCall (u.returns callee.kernel) r callee).2 :: rest) := by
  have progress := linkState_progress able.atSite able.atExit (u.returns callee.kernel)
  have callable := able.wired.callable_of_built able.built able.target
  intro s alive t
  simp only [List.perm_middle.mem_iff, List.mem_cons]
  rw [linkCall_eq] at alive ⊢
  by_cases here : s = r.site
  · subst here
    rw [aim_setTarget_self (live_of_setTarget alive)]
    constructor
    · intro same
      exact ⟨_, Or.inl rfl, rfl, rfl, able.target.trans same⟩
    · rintro ⟨q, rfl | other, linked, site, target⟩
      · exact able.target.symm.trans target
      · have member : q ∈ done ++ r :: rest :=
          List.perm_middle.mem_iff.mpr (List.mem_cons_of_mem _ other)
        have same := lone.eq Linkable.member member site callable
          (able.wired.callable_of_linked member linked)
        exact absurd (able.unlinked.symm.trans (same ▸ linked)) Bool.false_ne_true
  · rw [aim_setTarget_of_ne here]
    rcases progress.adds.live_cases (live_of_setTarget alive) with old | ⟨i, -, rfl⟩
    · rw [progress.adds.aim_old old.lt_size, aimed s old t]
      simp only [List.perm_middle.mem_iff, List.mem_cons]
      constructor
      · rintro ⟨q, rfl | other, linked, site, target⟩
        · exact absurd site.symm here
        · exact ⟨q, Or.inr other, linked, site, target⟩
      · rintro ⟨q, rfl | other, linked, site, target⟩
        · exact absurd site.symm here
        · exact ⟨q, Or.inr other, linked, site, target⟩
    · rw [progress.adds.aim_new fun n member => (mem_linkNodes member).2.2.2.2]
      refine ⟨nofun, ?_⟩
      rintro ⟨q, rfl | other, -, site, -⟩
      · exact absurd site.symm here
      · have member : q ∈ done ++ r :: rest :=
          List.perm_middle.mem_iff.mpr (List.mem_cons_of_mem _ other)
        have inside := (able.wired.records q member).site.live.lt_size
        rw [site] at inside
        exact absurd inside (Nat.not_lt_of_le (Nat.le_add_right _ _))

theorem Aimed.foldl_linkStep (records : List CallRecord)
    (state : PropertyGraph × List CallRecord) (aimed : state.1.Aimed (state.2 ++ records))
    (lone : Lone u (state.2 ++ records)) (laid : state.1.Laid u (state.2 ++ records))
    (wired : state.1.Wired u (state.2 ++ records)) (settled : state.1.Settled state.2) :
    (records.foldl (PropertyGraph.linkStep u) state).1.Aimed
      (records.foldl (PropertyGraph.linkStep u) state).2 := by
  induction records generalizing state with
  | nil => simpa using aimed
  | cons r records ih =>
      obtain ⟨wiredNext, settledNext, -⟩ := linkStep_spec wired settled
      refine ih _ ?_ (lone.congr ?_) (laid.linkStep wired) wiredNext settledNext
      · obtain ⟨g, done⟩ := state
        rcases linkStep_cases u g done r with same | ⟨c, built, target, unlinked, same⟩
        · rw [same]
          simpa using aimed
        · rw [same, List.append_assoc]
          exact aimed.linkCall ⟨wired, laid, built, target, unlinked⟩ lone
      · rw [List.map_append, linkStep_idle, List.append_assoc, List.map_append]
        rfl

end Link

theorem Aimed.linkCalls (aimed : g.Aimed g.calls) (lone : Lone u g.calls)
    (laid : g.Laid u g.calls) (wired : g.Wired u g.calls) :
    (g.linkCalls u).Aimed (g.linkCalls u).calls := by
  have last := aimed.foldl_linkStep g.calls (g, []) lone laid wired nofun
  rw [linkCalls_eq]
  exact last

theorem Aimed.buildKernel (aimed : g.Aimed g.calls) (wired : g.Wired u g.calls) (k : KernelFn) :
    (g.buildKernel u k).value.Aimed (g.buildKernel u k).value.calls := by
  cases found : u.flowGraph? k with
  | none =>
      rw [PropertyGraph.buildKernel, found]
      exact aimed
  | some flow =>
      have adds := buildKernel_adds (g := g) found
      obtain ⟨-, calls⟩ := buildKernel_tables (g := g) found
      have plain : ∀ n ∈ kernelNodes k (rowsOf u flow), n.target = none := by
        intro n member
        rw [kernelNodes, List.mem_cons, List.mem_cons, List.mem_map] at member
        rcases member with rfl | rfl | ⟨row, -, rfl⟩ <;> rfl
      have unlinked {q : CallRecord} (new : q ∈ recordsFor u k flow g.nodes.size) :
          q.linked = false := (mem_recordsFor wired.sound new).2.2.2.1
      intro s alive t
      rw [calls]
      rcases adds.live_cases alive with old | ⟨i, -, rfl⟩
      · rw [adds.aim_old old.lt_size, aimed s old t]
        constructor
        · rintro ⟨q, member, rest⟩
          exact ⟨q, List.mem_append_left _ member, rest⟩
        · rintro ⟨q, member, linked, rest⟩
          rcases List.mem_append.mp member with before | new
          · exact ⟨q, before, linked, rest⟩
          · exact absurd ((unlinked new).symm.trans linked) Bool.false_ne_true
      · rw [adds.aim_new plain]
        refine ⟨fun aims => (Option.some_ne_none t aims.symm).elim, ?_⟩
        rintro ⟨q, member, linked, site, -⟩
        rcases List.mem_append.mp member with before | new
        · have inside := (wired.records q before).site.live.lt_size
          rw [site] at inside
          exact absurd inside (Nat.not_lt_of_le (Nat.le_add_right _ _))
        · exact absurd ((unlinked new).symm.trans linked) Bool.false_ne_true

/-- The call at this slot is unlinked when kernel `k` goes. -/
def cuts (k : KernelId) (s : Slot) (r : CallRecord) : Bool :=
  r.caller != k && r.target == some k && r.linked && r.site == s

theorem foldl_unlinkCall_aim (k : KernelId) (s : Slot) (records : List CallRecord)
    (state : PropertyGraph × List CallRecord) :
    (records.foldl (unlinkCall k) state).1.aim s
      = if records.any (cuts k s) then none else state.1.aim s := by
  induction records generalizing state with
  | nil => rfl
  | cons r records ih =>
      have step : (unlinkCall k state r).1.aim s
          = if cuts k s r then none else state.1.aim s := by
        obtain ⟨g, kept⟩ := state
        unfold unlinkCall cuts
        by_cases own : r.caller = k
        · simp [own, aim_removeNodes]
        · by_cases into : r.target = some k ∧ r.linked = true
          · simp only [own, into.1, into.2, beq_iff_eq, beq_self_eq_true, Bool.and_self, if_false,
              if_true, aim_setTarget_none, aim_removeNodes]
            by_cases here : r.site = s
            · simp [here, own]
            · simp [here, Ne.symm here]
          · have stays : (r.target == some k && r.linked) = false := by simpa using into
            simpa [own, stays] using fun target linked => absurd ⟨target, linked⟩ into
      rw [List.foldl_cons, ih, step, List.any_cons]
      by_cases cut : cuts k s r <;> simp [cut]

theorem Aimed.forget (aimed : g.Aimed g.calls) (lone : Lone u g.calls)
    (wired : g.Wired u g.calls) (built : b ∈ g.built) :
    (g.forget b).Aimed (g.forget b).calls := by
  obtain ⟨alike, calls, -⟩ := wired.forget_alike b
  intro s alive t
  have aims : (g.forget b).aim s = if g.calls.any (cuts b.kernel s) then none else g.aim s := by
    have last : (g.forget b).aim s = ((g.unlinked b.kernel).1.removeNodes b.slots).aim s := rfl
    rw [last, aim_removeNodes, unlinked, foldl_unlinkCall_aim]
  obtain ⟨before, there⟩ := wired.live_of_without (alike.live alive)
  -- the slot stays, so no call there is made by the kernel that goes
  have foreign {r : CallRecord} (member : r ∈ g.calls) (site : r.site = s) :
      r.caller ≠ b.kernel := by
    intro own
    obtain ⟨c, builtC, owner, ofC⟩ := (wired.records r member).caller
    obtain rfl : c = b := wired.kernel_inj builtC built (owner.trans own)
    exact there (List.mem_append_right _ (site ▸ ofC))
  have left : (∃ q ∈ (g.forget b).calls, q.linked = true ∧ q.site = s ∧ q.target = some t) ↔
      (∃ r ∈ g.calls, r.linked = true ∧ r.site = s ∧ r.target = some t) ∧ t ≠ b.kernel := by
    rw [calls]
    constructor
    · rintro ⟨q, kept, linked, site, target⟩
      obtain ⟨r, member, released⟩ := List.mem_filterMap.mp kept
      obtain ⟨-, ⟨stays, rfl⟩ | ⟨-, rfl⟩⟩ := release_cases released
      · refine ⟨⟨q, member, linked, site, target⟩, ?_⟩
        rintro rfl
        simp [touches, target, linked] at stays
      · cases linked
    · rintro ⟨⟨r, member, linked, site, target⟩, other⟩
      refine ⟨r, List.mem_filterMap.mpr ⟨r, member, ?_⟩, linked, site, target⟩
      simp [release, touches, foreign member site, target, other]
  rw [aims, left]
  cases cut : g.calls.any (cuts b.kernel s) with
  | true =>
      obtain ⟨p, member, cutting⟩ := List.any_eq_true.mp cut
      obtain ⟨⟨⟨-, into⟩, linkedP⟩, siteP⟩ : ((p.caller ≠ b.kernel ∧ p.target = some b.kernel) ∧
          p.linked = true) ∧ p.site = s := by simpa [cuts] using cutting
      rw [if_pos rfl]
      refine ⟨fun aims => (Option.some_ne_none t aims.symm).elim, ?_⟩
      rintro ⟨⟨r, recorded, linked, site, target⟩, other⟩
      have same := lone.eq member recorded (site.trans siteP.symm)
        (wired.callable_of_linked member linkedP)
        (wired.callable_of_linked recorded linked)
      subst same
      exact absurd (Option.some.inj (target.symm.trans into)) other
  | false =>
      rw [if_neg Bool.false_ne_true, aimed s before t]
      refine ⟨fun linked => ⟨linked, ?_⟩, And.left⟩
      rintro rfl
      obtain ⟨r, member, linked, site, target⟩ := linked
      have uncut := List.any_eq_false.mp cut r member
      simp [cuts, foreign member site, target, linked, site] at uncut

/-! ## Histories -/

/-- The records are those of the built kernels, and nodes are aimed by them. -/
structure Plain (u : SourceUnit) (g : PropertyGraph) : Prop where
  laid : g.Laid u g.calls
  planned : g.Planned u
  aimed : g.Aimed g.calls

theorem plain_invariant (single : u.SingleCalls) :
    Invariant u (Plain u) where
  forget _ b wired built plain :=
    ⟨plain.laid.forget wired built, plain.planned.forget wired b,
      plain.aimed.forget (plain.planned.lone wired single) wired built⟩
  build _ k wired _ absent plain :=
    ⟨plain.laid.buildKernel wired k, plain.planned.buildKernel wired absent,
      plain.aimed.buildKernel wired k⟩
  link _ wired plain :=
    ⟨plain.laid.linkCalls wired, plain.planned.linkCalls wired,
      plain.aimed.linkCalls (plain.planned.lone wired single) plain.laid wired⟩

theorem new_plain (u : SourceUnit) (cap : Int) : (new cap).Plain u where
  laid := new_laid u cap
  planned := nofun
  aimed := by
    rintro s ⟨n, here, -⟩
    cases here

/-- After any history on a unit with single calls. -/
theorem history_plain (single : u.SingleCalls) (cap : Int)
    (ops : List (GraphOp u)) : (history u cap ops).Plain u :=
  (plain_invariant single).history (new_plain u cap) ops

end PropertyGraph

end Retarget
