/-
# Proofs.Layout -- every node and every edge of the graph

A graph is laid out (`Laid`) when nothing is in it but what its tables say: the nodes of the
built kernels and of the linked calls, each at the slot its turn gave it, the edges of the kernels
(`ownArcs`) and those of the linked calls (`callArcs`).

One sort of edge is left over.  The return site of a call goes on where its call site goes on when
the call is linked.  If another call of the same statement has been linked before, the call site
also leads to the arguments of that call, and these edges are copied as well (`Stray`).  Nothing
else is ever copied that does not belong to a kernel (`Laid.resumed_split`).
-/
import Mathlib.Data.List.Pairwise
import Retarget.Proofs.CallShape
import Retarget.Proofs.Forgetting
import Retarget.Proofs.GraphHistory
import Retarget.Proofs.KernelWiring

namespace Retarget

open Retarget.Source (Node NodeId)

set_option autoImplicit false
set_option linter.dupNamespace false

/-- The edges of a built kernel. -/
def BuiltKernel.arcs (b : BuiltKernel) : List Arc :=
  PropertyGraph.kernelEdges b.graph (PropertyGraph.wiringOf b.graph b.entry)

namespace PropertyGraph

/-! ## The invariant -/

/-- The slot holds the node as it was made, up to target and edges. -/
def Holds (g : PropertyGraph) (s : Slot) (n : GraphNode) : Prop :=
  g.LiveAs s (· = ({ n with id := s }).fixed)

/-- The edges of the kernels. -/
def ownArcs (g : PropertyGraph) : List Arc := g.built.flatMap BuiltKernel.arcs

/-- The edges of a call; one that is not linked has none. -/
def callArcs (g : PropertyGraph) (u : SourceUnit) (r : CallRecord) : List Arc :=
  match r.returnSite, r.target.bind g.builtKernel? with
  | some s, some c => linkArcs r.site c.entry c.exit (s + ·) (g.ownArcs.filter (·.1 == r.site))
      r.args.length (u.returns c.kernel)
  | _, _ => []

end PropertyGraph

/-- The nodes of the kernel are where their turn put them. -/
structure BuiltKernel.Laid (u : SourceUnit) (g : PropertyGraph) (b : BuiltKernel) : Prop where
  slots : b.slots = PropertyGraph.slotsFrom b.graph b.entry
  exit : b.exit = b.entry + 1
  nodes : ∀ k : KernelFn, k.id = b.kernel → ∀ i n,
    (PropertyGraph.kernelNodes k (PropertyGraph.rowsOf u b.graph))[i]? = some n →
      g.Holds (b.entry + i) n

/-- The nodes of the call are those from slot `s` on, and nothing else is noted. -/
structure CallRecord.Spans (u : SourceUnit) (g : PropertyGraph) (r : CallRecord) (t : KernelId)
    (s : Slot) : Prop where
  target : r.target = some t
  returnSite : r.returnSite = some s
  created : r.created = List.range' s (PropertyGraph.linkNodes r t (u.returns t)).length
  nodes : ∀ i n, (PropertyGraph.linkNodes r t (u.returns t))[i]? = some n → g.Holds (s + i) n

/-- A linked call has its nodes, any other none. -/
structure CallRecord.Laid (u : SourceUnit) (g : PropertyGraph) (r : CallRecord) : Prop where
  linked : r.linked = true → ∃ t s, r.Spans u g t s
  unlinked : r.linked = false → r.returnSite = none ∧ r.created = []

namespace PropertyGraph

/-- The edge leads from the return site of one call to an argument of another call of the same
statement. -/
def Stray (calls : List CallRecord) (e : Arc) : Prop :=
  ∃ r ∈ calls, ∃ q ∈ calls, ∃ s t i, r.returnSite = some s ∧ q.returnSite = some t ∧ s ≠ t ∧
    r.site = q.site ∧ i < q.args.length ∧ e = (s, t + (2 * i + 1), .paramIn)

/-- Nodes and edges are those of the kernels and of the given calls, strays apart. -/
structure Laid (u : SourceUnit) (g : PropertyGraph) (calls : List CallRecord) : Prop where
  kernels : ∀ b ∈ g.built, b.Laid u g
  records : ∀ r ∈ calls, r.Laid u g
  covers : ∀ s, g.Live s → (∃ b ∈ g.built, s ∈ b.slots) ∨ ∃ r ∈ calls, s ∈ r.created
  drawn : ∃ strays, g.Accounts (g.ownArcs ++ calls.flatMap (g.callArcs u) ++ strays) ∧
    ∀ e ∈ strays, Stray calls e

end PropertyGraph

variable {u : SourceUnit} {g h : PropertyGraph} {calls : List CallRecord} {r : CallRecord}
  {b : BuiltKernel}

/-- Edges of a kernel run between its own slots and are of the local kinds. -/
theorem BuiltKernel.Laid.mem_arcs (laid : b.Laid u g) {e : Arc} (member : e ∈ b.arcs) :
    e.1 ∈ b.slots ∧ e.2.1 ∈ b.slots ∧ e.2.2.isLocal = true := by
  rw [laid.slots]
  exact PropertyGraph.kernelEdges_all (PropertyGraph.wiringOf_all b.graph b.entry) member

/-- Only linked calls have a return site. -/
theorem CallRecord.Laid.spans (laid : r.Laid u g) {s : Slot} (noted : r.returnSite = some s) :
    ∃ t, r.Spans u g t s := by
  cases linked : r.linked with
  | false => cases (laid.unlinked linked).1.symm.trans noted
  | true =>
      obtain ⟨t, s', spans⟩ := laid.linked linked
      obtain rfl : s = s' := Option.some.inj (noted.symm.trans spans.returnSite)
      exact ⟨t, spans⟩

/-- The `i`-th node of a linked call is one of those noted. -/
theorem CallRecord.Spans.mem_created {t : KernelId} {s : Slot} (spans : r.Spans u g t s) {i : Nat}
    (inside : i < (PropertyGraph.linkNodes r t (u.returns t)).length) : s + i ∈ r.created := by
  rw [spans.created]
  exact List.mem_range'_1.mpr ⟨Nat.le_add_right _ _, Nat.add_lt_add_left inside _⟩

/-- The return site and the nodes of the arguments are noted. -/
theorem CallRecord.Spans.mem_args {t : KernelId} {s : Slot} (spans : r.Spans u g t s) {i : Nat}
    (inside : i ≤ 2 * r.args.length) : s + i ∈ r.created := by
  refine spans.mem_created ?_
  rw [PropertyGraph.linkNodes_length]
  split <;> omega

theorem CallRecord.Spans.mem_result {t : KernelId} {s : Slot} (spans : r.Spans u g t s)
    (gives : u.returns t = true) {i : Nat} (inside : i ≤ 2 * r.args.length + 2) :
    s + i ∈ r.created := by
  refine spans.mem_created ?_
  rw [PropertyGraph.linkNodes_length, gives, if_pos rfl]
  omega

theorem CallRecord.Spans.returnSite_mem {t : KernelId} {s : Slot} (spans : r.Spans u g t s) :
    s ∈ r.created :=
  spans.mem_args (Nat.zero_le _)

theorem PropertyGraph.kernelNodes_length (u : SourceUnit) (k : KernelFn) (flow : FlowGraph) :
    (kernelNodes k (rowsOf u flow)).length = flow.statements.length + 2 := by
  simp [kernelNodes, rowsOf]

theorem BuiltKernel.Laid.mem_slots (laid : b.Laid u g) {k : KernelFn} {i : Nat} {n : GraphNode}
    (listed : (PropertyGraph.kernelNodes k (PropertyGraph.rowsOf u b.graph))[i]? = some n) :
    b.entry + i ∈ b.slots := by
  have inside := (List.getElem?_eq_some_iff.mp listed).1
  rw [PropertyGraph.kernelNodes_length] at inside
  rw [laid.slots]
  exact List.mem_range'_1.mpr ⟨Nat.le_add_right _ _, Nat.add_lt_add_left inside _⟩

/-- A kernel stays laid out if its slots keep their nodes. -/
theorem BuiltKernel.Laid.keep (laid : b.Laid u g)
    (keeps : ∀ s ∈ b.slots, ∀ n, g.Holds s n → h.Holds s n) : b.Laid u h :=
  ⟨laid.slots, laid.exit, fun k same i n listed =>
    keeps _ (laid.mem_slots listed) n (laid.nodes k same i n listed)⟩

/-- A call stays laid out if its slots keep their nodes. -/
theorem CallRecord.Laid.keep (laid : r.Laid u g)
    (keeps : ∀ s ∈ r.created, ∀ n, g.Holds s n → h.Holds s n) : r.Laid u h where
  linked := by
    intro linked
    obtain ⟨t, s, spans⟩ := laid.linked linked
    refine ⟨t, s, spans.target, spans.returnSite, spans.created, fun i n listed => ?_⟩
    exact keeps _ (spans.mem_created (List.getElem?_eq_some_iff.mp listed).1) n
      (spans.nodes i n listed)
  unlinked := laid.unlinked

namespace PropertyGraph

/-! ## Edges of kernels and calls -/

theorem Laid.mem_ownArcs (laid : g.Laid u calls) {e : Arc} (member : e ∈ g.ownArcs) :
    ∃ b ∈ g.built, e ∈ b.arcs ∧ e.1 ∈ b.slots ∧ e.2.1 ∈ b.slots ∧ e.2.2.isLocal = true := by
  obtain ⟨b, built, inner⟩ := List.mem_flatMap.mp member
  exact ⟨b, built, inner, (laid.kernels b built).mem_arcs inner⟩

theorem callArcs_of_unlinked (none : r.returnSite = none) : g.callArcs u r = [] := by
  rw [callArcs, none]

/-- A linked call and the kernel it is joined to. -/
theorem Wired.linked_call (wired : g.Wired u calls) (laid : g.Laid u calls) (member : r ∈ calls)
    (linked : r.linked = true) :
    ∃ c ∈ g.built, ∃ s, r.Spans u g c.kernel s ∧ g.callArcs u r
      = linkArcs r.site c.entry c.exit (s + ·) (g.ownArcs.filter (·.1 == r.site)) r.args.length
          (u.returns c.kernel) := by
  obtain ⟨c, built, joins⟩ := (wired.records r member).linked linked
  obtain ⟨t, s, spans⟩ := (laid.records r member).linked linked
  obtain rfl : c.kernel = t := Option.some.inj (joins.target.symm.trans spans.target)
  refine ⟨c, built, s, spans, ?_⟩
  rw [callArcs, spans.returnSite, spans.target, Option.bind_some, wired.builtKernel?_eq built]

/-- Where an edge of a linked call starts: at the site, at the exit of the callee, or at a node
made for the call. -/
theorem mem_callArcs_source {c : BuiltKernel} {s : Slot} {after : List Arc} {e : Arc}
    (spans : r.Spans u g c.kernel s)
    (member : e ∈ linkArcs r.site c.entry c.exit (s + ·) after r.args.length (u.returns c.kernel)) :
    e = (r.site, c.entry, .call) ∨ (∃ i < r.args.length, e = (r.site, s + (2 * i + 1), .paramIn)) ∨
      e.1 = c.exit ∨ e.1 ∈ r.created := by
  rcases mem_linkArcs.mp member with rfl | rfl | ⟨a, -, rfl⟩ | ⟨i, low, rfl | rfl⟩ | ⟨gives, result⟩
  · exact Or.inl rfl
  · exact Or.inr (Or.inr (Or.inl rfl))
  · exact Or.inr (Or.inr (Or.inr (spans.mem_args (Nat.zero_le _))))
  · exact Or.inr (Or.inl ⟨i, low, rfl⟩)
  · exact Or.inr (Or.inr (Or.inr (spans.mem_args (by omega))))
  · simp only [resultArcs, List.mem_cons, List.not_mem_nil, or_false] at result
    rcases result with rfl | rfl | rfl
    · exact Or.inr (Or.inr (Or.inl rfl))
    · exact Or.inr (Or.inr (Or.inr (spans.mem_result gives (by omega))))
    · exact Or.inr (Or.inr (Or.inr (spans.mem_result gives (Nat.le_refl _))))

/-- Where an edge of a linked call leads: to the entry of the callee, to a node made for the call,
or from such a node to where the call site goes on. -/
theorem mem_callArcs_target {c : BuiltKernel} {s : Slot} {after : List Arc} {e : Arc}
    (spans : r.Spans u g c.kernel s)
    (member : e ∈ linkArcs r.site c.entry c.exit (s + ·) after r.args.length (u.returns c.kernel)) :
    e = (r.site, c.entry, .call) ∨ e.2.1 ∈ r.created ∨
      (e.1 ∈ r.created ∧ ∃ a ∈ after, e.2.1 = a.2.1) := by
  rcases mem_linkArcs.mp member with rfl | rfl | ⟨a, inner, rfl⟩ | ⟨i, low, rfl | rfl⟩ |
    ⟨gives, result⟩
  · exact Or.inl rfl
  · exact Or.inr (Or.inl (spans.mem_args (Nat.zero_le _)))
  · exact Or.inr (Or.inr ⟨spans.mem_args (Nat.zero_le _), a, inner, rfl⟩)
  · exact Or.inr (Or.inl (spans.mem_args (by omega)))
  · exact Or.inr (Or.inl (spans.mem_args (by omega)))
  · simp only [resultArcs, List.mem_cons, List.not_mem_nil, or_false] at result
    rcases result with rfl | rfl | rfl
    · exact Or.inr (Or.inl (spans.mem_result gives (by omega)))
    · exact Or.inr (Or.inl (spans.mem_result gives (Nat.le_refl _)))
    · exact Or.inr (Or.inl (spans.mem_args (Nat.zero_le _)))

theorem Wired.site_not_created (wired : g.Wired u calls) {q : CallRecord} (member : r ∈ calls)
    (other : q ∈ calls) : r.site ∉ q.created := by
  intro created
  obtain ⟨b, built, -, own⟩ := (wired.records r member).caller
  exact wired.link_not_own built own ((wired.records q other).created r.site created)

theorem Wired.site_ne_exit (wired : g.Wired u calls) (member : r ∈ calls) (built : b ∈ g.built) :
    r.site ≠ b.exit := by
  intro same
  obtain ⟨n, -, -, site, exit⟩ :=
    (wired.records r member).site.and (same ▸ (wired.kernels b built).exit.2)
  cases site.symm.trans exit

/-- The edge leads from a call site to an argument of a linked call there. -/
def Passes (calls : List CallRecord) (site : Slot) (e : Arc) : Prop :=
  ∃ q ∈ calls, ∃ t i, q.returnSite = some t ∧ q.site = site ∧ i < q.args.length ∧
    e = (site, t + (2 * i + 1), .paramIn)

/-- From a call site a linked call leads to its callee and its arguments alone. -/
theorem Wired.mem_callArcs_site (wired : g.Wired u calls) (laid : g.Laid u calls) {q : CallRecord}
    (member : r ∈ calls) (other : q ∈ calls) {e : Arc} (drawn : e ∈ g.callArcs u q)
    (source : e.1 = r.site) : e.2.2 = .call ∨ Passes calls r.site e := by
  cases linked : q.linked with
  | false =>
      rw [callArcs_of_unlinked ((laid.records q other).unlinked linked).1] at drawn
      cases drawn
  | true =>
      obtain ⟨c, built, t, spans, arcs⟩ := wired.linked_call laid other linked
      rw [arcs] at drawn
      rcases mem_callArcs_source spans drawn with rfl | ⟨i, low, rfl⟩ | exit | created
      · exact Or.inl rfl
      · exact Or.inr ⟨q, other, t, i, spans.returnSite, source, low, by rw [← source]⟩
      · exact absurd (source.symm.trans exit) (wired.site_ne_exit member built)
      · exact absurd (source ▸ created) (wired.site_not_created member other)

theorem Accounts.resumed_perm {arcs : List Arc} (accounts : g.Accounts arcs) (s : Slot) :
    (g.resumed s).Perm (arcs.filter fun e => e.2.2 != .call && e.1 == s) := by
  have leaving := ((accounts.succsOf_perm s).filter (·.kind != .call)).map
    fun e => (s, e.other, e.kind)
  have listed : ((outOf arcs s).filter (·.kind != .call)).map (fun e => (s, e.other, e.kind))
      = arcs.filter fun e => e.2.2 != .call && e.1 == s := by
    rw [outOf, List.filter_map, List.map_map, List.filter_filter]
    refine (List.map_congr_left fun e member => ?_).trans (List.map_id _)
    have shows : e.2.2 ≠ .call ∧ e.1 = s := by simpa using (List.mem_filter.mp member).2
    simp [← shows.2]
  rw [← listed]
  exact leaving

/-- What the return site of a call takes over are the edges of the kernel that leave the call
site, and those to the arguments of calls linked before. -/
theorem Wired.resumed_split (wired : g.Wired u calls) (laid : g.Laid u calls) (member : r ∈ calls) :
    ∃ extra, (g.resumed r.site).Perm (g.ownArcs.filter (·.1 == r.site) ++ extra) ∧
      ∀ e ∈ extra, Passes calls r.site e := by
  obtain ⟨strays, accounts, shapes⟩ := laid.drawn
  refine ⟨(calls.flatMap (g.callArcs u) ++ strays).filter fun e => e.2.2 != .call && e.1 == r.site,
    ?_, ?_⟩
  · refine (accounts.resumed_perm r.site).trans (List.Perm.of_eq ?_)
    rw [List.append_assoc, List.filter_append]
    congr 1
    refine List.filter_congr fun e own => ?_
    obtain ⟨-, -, -, -, -, isLocal⟩ := laid.mem_ownArcs own
    cases kind : e.2.2 <;> simp_all [EdgeKind.isLocal]
  · intro e extra
    obtain ⟨listed, shows⟩ := List.mem_filter.mp extra
    rw [Bool.and_eq_true, bne_iff_ne, beq_iff_eq] at shows
    rcases List.mem_append.mp listed with drawn | stray
    · obtain ⟨q, other, inner⟩ := List.mem_flatMap.mp drawn
      exact (wired.mem_callArcs_site laid member other inner shows.2).resolve_left shows.1
    · -- a stray starts at a return site, which is no call site
      obtain ⟨q, other, -, -, s, t, i, noted, -, -, -, -, rfl⟩ := shapes e stray
      obtain ⟨c, spans⟩ := (laid.records q other).spans noted
      exact absurd (shows.2 ▸ spans.returnSite_mem) (wired.site_not_created member other)

/-! ## Edges of the local kinds -/

/-- The edges of the kernels that leave a slot. -/
def ownEdges (g : PropertyGraph) (s : Slot) : List Edge := outOf g.ownArcs s

theorem outOf_filter_kind (arcs : List Arc) (p : EdgeKind → Bool) (s : Slot) :
    (outOf arcs s).filter (fun e => p e.kind) = outOf (arcs.filter fun e => p e.2.2) s := by
  simp only [outOf, List.filter_map, List.filter_filter]
  congr 1
  refine List.filter_congr fun e _ => Bool.and_comm ..

/-- What a call makes of the local kinds leaves its return site, and goes where the edges of the
kernel that leave the call site go. -/
theorem Wired.callArcs_local (wired : g.Wired u calls) (laid : g.Laid u calls) (member : r ∈ calls)
    (s : Slot) :
    (outOf (g.callArcs u r) s).filter (·.kind.isLocal)
      = if r.returnSite = some s then g.ownEdges r.site else [] := by
  cases linked : r.linked with
  | false =>
      have none := ((laid.records r member).unlinked linked).1
      rw [callArcs_of_unlinked none, none, if_neg nofun]
      rfl
  | true =>
      obtain ⟨c, -, t, spans, arcs⟩ := wired.linked_call laid member linked
      have locals : ∀ e ∈ g.ownArcs.filter (·.1 == r.site), e.2.2.isLocal = true := fun e own => by
        obtain ⟨-, -, -, -, -, isLocal⟩ := laid.mem_ownArcs (List.mem_filter.mp own).1
        exact isLocal
      rw [arcs, outOf_filter_kind, linkArcs_filter_local locals, spans.returnSite]
      by_cases here : t = s
      · subst here
        simp [outOf, ownEdges, List.filter_map, Function.comp_def]
      · rw [if_neg (by simpa using here)]
        refine outOf_eq_nil fun e inner => ?_
        obtain ⟨a, -, rfl⟩ := List.mem_map.mp inner
        exact here

/-- Along the local kinds a slot leads where its kernel says, and a return site where its call
site leads. -/
theorem Wired.local_succs (wired : g.Wired u calls) (laid : g.Laid u calls) (s : Slot) :
    ((g.succsOf s).filter (·.kind.isLocal)).Perm (g.ownEdges s ++
      calls.flatMap fun r => if r.returnSite = some s then g.ownEdges r.site else []) := by
  obtain ⟨strays, accounts, shapes⟩ := laid.drawn
  have own : (outOf g.ownArcs s).filter (·.kind.isLocal) = g.ownEdges s := by
    refine List.filter_eq_self.mpr fun e leaves => ?_
    obtain ⟨-, -, -, -, -, isLocal⟩ := laid.mem_ownArcs (mem_outOf.mp leaves)
    exact isLocal
  have called : (outOf (calls.flatMap (g.callArcs u)) s).filter (·.kind.isLocal)
      = calls.flatMap fun r => if r.returnSite = some s then g.ownEdges r.site else [] := by
    rw [outOf_flatMap, List.filter_flatMap]
    exact List.flatMap_congr fun r member => wired.callArcs_local laid member s
  have stray : (outOf strays s).filter (·.kind.isLocal) = [] := by
    refine List.filter_eq_nil_iff.mpr fun e leaves => ?_
    obtain ⟨_, -, _, -, _, _, _, -, -, -, -, -, same⟩ := shapes _ (mem_outOf.mp leaves)
    have kind : e.kind = .paramIn := congrArg (fun a : Arc => a.2.2) same
    rw [kind]
    exact Bool.false_ne_true
  refine ((accounts.succsOf_perm s).filter _).trans (List.Perm.of_eq ?_)
  rw [outOf_append, outOf_append, List.filter_append, List.filter_append, own, called, stray,
    List.append_nil]

/-- From a slot of a kernel the local kinds lead where the kernel says. -/
theorem Wired.local_succs_own (wired : g.Wired u calls) (laid : g.Laid u calls) (built : b ∈ g.built)
    {s : Slot} (own : s ∈ b.slots) :
    ((g.succsOf s).filter (·.kind.isLocal)).Perm (g.ownEdges s) := by
  have none : (calls.flatMap fun r => if r.returnSite = some s then g.ownEdges r.site else []) = [] := by
    refine List.flatMap_eq_nil_iff.mpr fun r member => if_neg fun noted => ?_
    obtain ⟨_, spans⟩ := (laid.records r member).spans noted
    exact wired.link_not_own built own ((wired.records r member).created s spans.returnSite_mem)
  have edges := wired.local_succs laid s
  rwa [none, List.append_nil] at edges

/-! ## Linking -/

theorem callArcs_congr (same : h.built = g.built) (u : SourceUnit) : h.callArcs u = g.callArcs u := by
  funext q
  have lookup : h.builtKernel? = g.builtKernel? := by
    funext k
    rw [builtKernel?, builtKernel?, same]
  rw [callArcs, callArcs, ownArcs, ownArcs, same, lookup]

theorem Stray.mono {others : List CallRecord} {e : Arc} (stray : Stray calls e)
    (kept : ∀ r ∈ calls, ∀ s, r.returnSite = some s → r ∈ others) : Stray others e := by
  obtain ⟨r, first, q, second, s, t, i, atR, atQ, rest⟩ := stray
  exact ⟨r, kept r first s atR, q, kept q second t atQ, s, t, i, atR, atQ, rest⟩

theorem live_of_setTarget {a s : Slot} {target : Option KernelId}
    (alive : (g.setTarget a target).Live s) : g.Live s := by
  obtain ⟨m, there, present⟩ := alive
  rw [node?_setTarget, Option.map_eq_some_iff] at there
  obtain ⟨n, here, rfl⟩ := there
  refine ⟨n, here, ?_⟩
  split at present <;> exact present

section LinkCall

variable {done rest : List CallRecord} {callee : BuiltKernel}

/-- The call is one of the records, not linked, and its callee is built. -/
structure Linkable (u : SourceUnit) (g : PropertyGraph) (done : List CallRecord) (r : CallRecord)
    (rest : List CallRecord) (callee : BuiltKernel) : Prop where
  wired : g.Wired u (done ++ r :: rest)
  laid : g.Laid u (done ++ r :: rest)
  built : callee ∈ g.built
  target : r.target = some callee.kernel
  unlinked : r.linked = false

namespace Linkable

variable (able : Linkable u g done r rest callee)

include able

omit able in
theorem member : r ∈ done ++ r :: rest := List.mem_append_right _ List.mem_cons_self

theorem atSite : r.site < g.nodes.size :=
  (able.wired.records r member).site.live.lt_size

theorem atExit : callee.exit < g.nodes.size :=
  (able.wired.kernels callee able.built).exit.2.live.lt_size

theorem extends_ : g.Extends (g.linkCall (u.returns callee.kernel) r callee).1 :=
  (linkCall_grown able.wired.sound (able.wired.records r member).site
    (able.wired.kernels callee able.built).entry.2.live
    (able.wired.kernels callee able.built).exit.2 (u.returns callee.kernel)).ext

theorem spans : (g.linkCall (u.returns callee.kernel) r callee).2.Spans u
    (g.linkCall (u.returns callee.kernel) r callee).1 callee.kernel g.nodes.size := by
  have progress := linkState_progress able.atSite able.atExit (u.returns callee.kernel)
  refine ⟨able.target, rfl, progress.created, fun i n listed => ?_⟩
  refine ((Extends.refl _).setTarget r.site (some callee.kernel)).liveAs ?_
  exact progress.adds.liveAs_new listed (mem_linkNodes (List.mem_of_getElem? listed)).2.1 rfl

/-- The edges after linking: those that were there, those of the call, and strays. -/
theorem drawn : ∃ strays,
    (g.linkCall (u.returns callee.kernel) r callee).1.Accounts
      (g.ownArcs ++ (done ++ (g.linkCall (u.returns callee.kernel) r callee).2 :: rest).flatMap
        (g.callArcs u) ++ strays) ∧
    ∀ e ∈ strays, Stray (done ++ (g.linkCall (u.returns callee.kernel) r callee).2 :: rest) e := by
  obtain ⟨strays, accounts, shapes⟩ := able.laid.drawn
  obtain ⟨extra, split, passes⟩ := able.wired.resumed_split able.laid member
  have progress := linkState_progress able.atSite able.atExit (u.returns callee.kernel)
  have silent := (able.laid.records r member).unlinked able.unlinked
  have own : g.callArcs u (g.linkCall (u.returns callee.kernel) r callee).2
      = linkArcs r.site callee.entry callee.exit (g.nodes.size + ·)
        (g.ownArcs.filter (·.1 == r.site)) r.args.length (u.returns callee.kernel) := by
    have found := able.wired.builtKernel?_eq able.built
    simp only [linkCall_eq, callArcs, able.target, Option.bind_some, found]
  have others {q : CallRecord} (listed : q ∈ done ++ r :: rest) {t : Slot}
      (noted : q.returnSite = some t) :
      q ∈ done ++ (g.linkCall (u.returns callee.kernel) r callee).2 :: rest := by
    rcases List.mem_cons.mp (List.perm_middle.mem_iff.mp listed) with rfl | other
    · cases silent.1.symm.trans noted
    · exact List.perm_middle.mem_iff.mpr (List.mem_cons_of_mem _ other)
  refine ⟨strays ++ extra.map fun e => (g.nodes.size + 0, e.2), fun e => ?_, fun e listed => ?_⟩
  · have before := accounts e
    have added := progress.adds.edges e
    have copied : List.Perm _ (g.callArcs u (g.linkCall (u.returns callee.kernel) r callee).2 ++
        extra.map fun e => (g.nodes.size + 0, e.2)) :=
      own ▸ (linkArcs_perm r.site callee.entry callee.exit (g.nodes.size + ·) r.args.length
        (u.returns callee.kernel) split).trans (linkArcs_append_perm ..)
    have same : (g.linkCall (u.returns callee.kernel) r callee).1.edgeCount e
        = (g.linkState (u.returns callee.kernel) r callee).1.edgeCount e := edgeCount_setTarget ..
    rw [same, added, copied.count_eq e, before]
    simp only [List.flatMap_append, List.flatMap_cons, List.count_append,
      callArcs_of_unlinked silent.1, List.count_nil]
    omega
  · rcases List.mem_append.mp listed with old | new
    · exact (shapes e old).mono fun q listed t noted => others listed noted
    · obtain ⟨a, inner, rfl⟩ := List.mem_map.mp new
      obtain ⟨q, other, t, i, noted, site, low, rfl⟩ := passes a inner
      obtain ⟨c, spans⟩ := (able.laid.records q other).spans noted
      have inside := ((able.wired.records q other).created t spans.returnSite_mem).live.lt_size
      exact ⟨_, List.mem_append_right _ List.mem_cons_self, q, others other noted, g.nodes.size, t, i,
        rfl, noted, Nat.ne_of_gt inside, site.symm, low, rfl⟩

end Linkable

/-- Linking a call keeps the graph laid out. -/
theorem Laid.linkCall (able : Linkable u g done r rest callee) :
    (g.linkCall (u.returns callee.kernel) r callee).1.Laid u
      (done ++ (g.linkCall (u.returns callee.kernel) r callee).2 :: rest) where
  kernels b member := (able.laid.kernels b (able.extends_.built ▸ member)).keep
    fun _ _ _ => able.extends_.liveAs
  records q listed := by
    rcases List.mem_cons.mp (List.perm_middle.mem_iff.mp listed) with rfl | other
    · exact ⟨fun _ => ⟨_, _, able.spans⟩, nofun⟩
    · refine (able.laid.records q ?_).keep fun _ _ _ => able.extends_.liveAs
      exact List.perm_middle.mem_iff.mpr (List.mem_cons_of_mem _ other)
  covers s alive := by
    have progress := linkState_progress able.atSite able.atExit (u.returns callee.kernel)
    rcases progress.adds.live_cases (live_of_setTarget alive) with old | ⟨i, inside, rfl⟩
    · rcases able.laid.covers s old with ⟨b, member, own⟩ | ⟨q, listed, created⟩
      · exact Or.inl ⟨b, able.extends_.built ▸ member, own⟩
      · rcases List.mem_cons.mp (List.perm_middle.mem_iff.mp listed) with rfl | other
        · rw [((able.laid.records q Linkable.member).unlinked able.unlinked).2] at created
          cases created
        · exact Or.inr ⟨q, List.perm_middle.mem_iff.mpr (List.mem_cons_of_mem _ other), created⟩
    · exact Or.inr ⟨_, List.mem_append_right _ List.mem_cons_self, able.spans.mem_created inside⟩
  drawn := by
    rw [callArcs_congr able.extends_.built, ownArcs, able.extends_.built]
    exact able.drawn

end LinkCall

/-- A step leaves the record as it is or links it to a built callee. -/
theorem linkStep_cases (u : SourceUnit) (g : PropertyGraph) (done : List CallRecord)
    (r : CallRecord) :
    linkStep u (g, done) r = (g, done ++ [r]) ∨
      ∃ c ∈ g.built, r.target = some c.kernel ∧ r.linked = false ∧ linkStep u (g, done) r
        = ((g.linkCall (u.returns c.kernel) r c).1,
          done ++ [(g.linkCall (u.returns c.kernel) r c).2]) := by
  unfold PropertyGraph.linkStep
  split
  case h_1 => exact Or.inl rfl
  case h_2 c linkable =>
      obtain ⟨unlinked, found⟩ : r.linked = false ∧ r.target.bind g.builtKernel? = some c := by
        cases linked : r.linked with
        | true => simp [linked] at linkable
        | false => exact ⟨rfl, by simpa [linked] using linkable⟩
      obtain ⟨k, target, atK⟩ := Option.bind_eq_some_iff.mp found
      obtain ⟨built, rfl⟩ := mem_of_builtKernel? atK
      exact Or.inr ⟨c, built, target, unlinked, rfl⟩

theorem Laid.linkStep {state : PropertyGraph × List CallRecord} {rest : List CallRecord}
    (laid : state.1.Laid u (state.2 ++ r :: rest))
    (wired : state.1.Wired u (state.2 ++ r :: rest)) :
    (linkStep u state r).1.Laid u ((linkStep u state r).2 ++ rest) := by
  obtain ⟨g, done⟩ := state
  rcases linkStep_cases u g done r with same | ⟨c, built, target, unlinked, same⟩
  · rw [same]
    simpa using laid
  · rw [same, List.append_assoc]
    exact Laid.linkCall ⟨wired, laid, built, target, unlinked⟩

theorem Laid.foldl_linkStep (records : List CallRecord) (state : PropertyGraph × List CallRecord)
    (laid : state.1.Laid u (state.2 ++ records)) (wired : state.1.Wired u (state.2 ++ records))
    (settled : state.1.Settled state.2) :
    (records.foldl (PropertyGraph.linkStep u) state).1.Laid u
      (records.foldl (PropertyGraph.linkStep u) state).2 := by
  induction records generalizing state with
  | nil => simpa using laid
  | cons r records ih =>
      obtain ⟨wiredNext, settledNext, -⟩ := linkStep_spec wired settled
      exact ih _ (laid.linkStep wired) wiredNext settledNext

/-- Linking keeps the graph laid out. -/
theorem Laid.linkCalls (laid : g.Laid u g.calls) (wired : g.Wired u g.calls) :
    (g.linkCalls u).Laid u (g.linkCalls u).calls := by
  have last := laid.foldl_linkStep g.calls (g, []) wired nofun
  rw [linkCalls_eq]
  exact ⟨fun b built => (last.kernels b built).keep fun _ _ _ holds => holds,
    fun r member => (last.records r member).keep fun _ _ _ holds => holds, last.covers, last.drawn⟩

/-! ## Building -/

section Build

variable {k : KernelFn} {flow : FlowGraph}

theorem wireKernel_adds (g : PropertyGraph) (u : SourceUnit) (k : KernelFn) (flow : FlowGraph) :
    g.Adds (g.wireKernel u k flow) (kernelNodes k (rowsOf u flow))
      (kernelEdges flow (wiringOf flow g.nodes.size)) := by
  have made : g.Adds (g.addNodes (kernelNodes k (rowsOf u flow))) (kernelNodes k (rowsOf u flow)) [] :=
    .addNodes fun n member => (mem_kernelNodes member).2.2.2
  refine made.addEdges fun e member => ?_
  have own := (kernelEdges_all (wiringOf_all flow g.nodes.size) member).1
  rw [kernelNodes_length]
  exact (List.mem_range'_1.mp own).2

theorem returnSite_of_mem_recordsFor {first : Slot} (member : r ∈ recordsFor u k flow first) :
    r.returnSite = none := by
  obtain ⟨_, -, made⟩ := List.mem_flatMap.mp member
  obtain ⟨_, -, rfl⟩ := List.mem_map.mp made
  rfl

/-- A kernel at the end of the arena changes nothing about the calls. -/
theorem Wired.callArcs_append (wired : g.Wired u calls) (laid : g.Laid u calls) (member : r ∈ calls)
    {info : BuiltKernel} (later : ∀ e ∈ info.arcs, g.nodes.size ≤ e.1)
    (same : h.built = g.built ++ [info]) : h.callArcs u r = g.callArcs u r := by
  cases linked : r.linked with
  | false =>
      have none := ((laid.records r member).unlinked linked).1
      rw [callArcs_of_unlinked none, callArcs_of_unlinked none]
  | true =>
      obtain ⟨c, built, s, spans, arcs⟩ := wired.linked_call laid member linked
      have found : h.builtKernel? c.kernel = some c := by
        have before : g.built.find? (·.kernel == c.kernel) = some c := wired.builtKernel?_eq built
        rw [builtKernel?, same, List.find?_append, before, Option.some_or]
      have new : info.arcs.filter (·.1 == r.site) = [] := by
        refine List.filter_eq_nil_iff.mpr fun e inner => ?_
        have inside := (wired.records r member).site.live.lt_size
        simpa using Nat.ne_of_gt (Nat.lt_of_lt_of_le inside (later e inner))
      have own : h.ownArcs.filter (·.1 == r.site) = g.ownArcs.filter (·.1 == r.site) := by
        rw [ownArcs, same, List.flatMap_append, List.filter_append, List.flatMap_singleton, new,
          List.append_nil, ownArcs]
      rw [arcs, callArcs, spans.returnSite, spans.target, Option.bind_some, found, own]

/-- The edges of a new kernel come to the others. -/
theorem Wired.drawn_append (wired : g.Wired u calls) (laid : g.Laid u calls) {info : BuiltKernel}
    {records : List CallRecord} {fresh : List GraphNode} (adds : g.Adds h fresh info.arcs)
    (later : ∀ e ∈ info.arcs, g.nodes.size ≤ e.1) (same : h.built = g.built ++ [info])
    (silent : ∀ r ∈ records, r.returnSite = none) :
    ∃ strays, h.Accounts (h.ownArcs ++ (calls ++ records).flatMap (h.callArcs u) ++ strays) ∧
      ∀ e ∈ strays, Stray (calls ++ records) e := by
  obtain ⟨strays, accounts, shapes⟩ := laid.drawn
  have old : calls.flatMap (h.callArcs u) = calls.flatMap (g.callArcs u) :=
    List.flatMap_congr fun r member => wired.callArcs_append laid member later same
  have new : records.flatMap (h.callArcs u) = [] :=
    List.flatMap_eq_nil_iff.mpr fun r member => callArcs_of_unlinked (silent r member)
  have own : h.ownArcs = g.ownArcs ++ info.arcs := by
    rw [ownArcs, same, List.flatMap_append, List.flatMap_singleton, ownArcs]
  refine ⟨strays, fun e => ?_, fun e stray => (shapes e stray).mono fun r listed _ _ =>
    List.mem_append_left _ listed⟩
  rw [adds.edges, accounts e, own, List.flatMap_append, old, new]
  simp only [List.count_append, List.count_nil]
  omega

theorem kernelNodes_congr {k' : KernelFn} (same : k'.id = k.id) (rows : List (NodeId × List Node)) :
    kernelNodes k' rows = kernelNodes k rows := by
  rw [kernelNodes, same, kernelNodes]

theorem buildKernel_adds (found : u.flowGraph? k = some flow) :
    g.Adds (g.buildKernel u k).value (kernelNodes k (rowsOf u flow)) (g.kernelInfo u k flow).arcs := by
  have adds := wireKernel_adds g u k flow
  rw [buildKernel_eq found]
  exact ⟨adds.size, adds.nodes, adds.edges⟩

theorem built_addEdges (edges : List Arc) : (g.addEdges edges).built = g.built := by
  induction edges generalizing g with
  | nil => rfl
  | cons e edges ih => exact ih

theorem buildKernel_tables (found : u.flowGraph? k = some flow) :
    (g.buildKernel u k).value.built = g.built ++ [g.kernelInfo u k flow] ∧
      (g.buildKernel u k).value.calls = g.calls ++ recordsFor u k flow g.nodes.size := by
  have built : (g.wireKernel u k flow).built = g.built := built_addEdges _
  have calls : (g.wireKernel u k flow).calls = g.calls := calls_addEdges _
  rw [buildKernel_eq found, ← built, ← calls]
  exact ⟨rfl, rfl⟩

/-- The nodes and edges of a new kernel are laid out beside the others. -/
theorem Laid.buildKernel (laid : g.Laid u g.calls) (wired : g.Wired u g.calls) (k : KernelFn) :
    (g.buildKernel u k).value.Laid u (g.buildKernel u k).value.calls := by
  cases found : u.flowGraph? k with
  | none =>
      rw [PropertyGraph.buildKernel, found]
      exact laid
  | some flow =>
      have adds := buildKernel_adds (g := g) found
      obtain ⟨built, calls⟩ := buildKernel_tables (g := g) found
      have later : ∀ e ∈ (g.kernelInfo u k flow).arcs, g.nodes.size ≤ e.1 := fun e inner =>
        (List.mem_range'_1.mp (kernelEdges_all (wiringOf_all flow g.nodes.size) inner).1).1
      have info : (g.kernelInfo u k flow).Laid u (g.buildKernel u k).value := by
        refine ⟨rfl, rfl, fun k' same i n listed => ?_⟩
        have listed' : (kernelNodes k (rowsOf u flow))[i]? = some n :=
          kernelNodes_congr same _ ▸ listed
        exact adds.liveAs_new listed' (mem_kernelNodes (List.mem_of_getElem? listed')).2.2.1 rfl
      refine ⟨fun b member => ?_, fun r member => ?_, fun s alive => ?_, ?_⟩
      · rw [built] at member
        rcases List.mem_append.mp member with old | new
        · exact (laid.kernels b old).keep fun _ _ _ => adds.liveAs_old
        · obtain rfl := List.mem_singleton.mp new
          exact info
      · rw [calls] at member
        rcases List.mem_append.mp member with old | new
        · exact (laid.records r old).keep fun _ _ _ => adds.liveAs_old
        · obtain ⟨-, -, -, unlinked, created⟩ := mem_recordsFor wired.sound new
          refine ⟨fun linked => absurd (unlinked.symm.trans linked) Bool.false_ne_true, fun _ => ?_⟩
          exact ⟨returnSite_of_mem_recordsFor new, created⟩
      · rw [built, calls]
        rcases adds.live_cases alive with old | ⟨i, inside, rfl⟩
        · rcases laid.covers s old with ⟨b, member, own⟩ | ⟨r, listed, created⟩
          · exact Or.inl ⟨b, List.mem_append_left _ member, own⟩
          · exact Or.inr ⟨r, List.mem_append_left _ listed, created⟩
        · refine Or.inl ⟨_, List.mem_append_right _ (List.mem_singleton_self _), ?_⟩
          rw [kernelNodes_length] at inside
          exact List.mem_range'_1.mpr ⟨Nat.le_add_right _ _, Nat.add_lt_add_left inside _⟩
      · rw [calls]
        exact wired.drawn_append laid adds later built fun r => returnSite_of_mem_recordsFor

end Build

end PropertyGraph

end Retarget
