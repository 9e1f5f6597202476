/-
# Proofs.Forgetting -- a kernel is taken out of the graph

Before the nodes of a kernel are removed, the calls it makes are forgotten and the calls into it
are taken apart. Each step empties the slots of one record; other records have none of them, and
kernels have no node of such a kind. When the kernel's own nodes go, no record is left that sits
in it or is joined to it (`Wired.foldl_unlinkCall`), and names of its statements are dropped from
both tables, so the rest of the graph stands as before (`Wired.forget`).
-/
import Retarget.Proofs.CallWiring

namespace Retarget

open Retarget.Source (NodeId)

set_option autoImplicit false
set_option linter.dupNamespace false

variable {u : SourceUnit} {g : PropertyGraph} {calls : List CallRecord} {r : CallRecord}
  {b : BuiltKernel} {slots : List Slot}

theorem BuiltKernel.Stands.without (stands : b.Stands u g) (sound : g.Sound)
    (kept : ∀ s ∈ b.slots, s ∉ slots) : b.Stands u (g.without slots) where
  listed := stands.listed
  own s member := (stands.own s member).without sound (kept s member)
  entry := ⟨stands.entry.1, stands.entry.2.without sound (kept b.entry stands.entry.1)⟩
  exit := ⟨stands.exit.1, stands.exit.2.without sound (kept b.exit stands.exit.1)⟩

/-- A call stays joined if neither its own nodes nor those of its two kernels go. -/
theorem CallRecord.Joins.without (joins : r.Joins g b) (sound : g.Sound) (site : r.site ∉ slots)
    (created : ∀ s ∈ r.created, s ∉ slots) (entry : b.entry ∉ slots) (exit : b.exit ∉ slots) :
    r.Joins (g.without slots) b where
  target := joins.target
  returnSite := by
    obtain ⟨s, owned, noted, alive, returns⟩ := joins.returnSite
    refine ⟨s, owned, noted, alive.without sound (created s owned), ?_⟩
    rw [PropertyGraph.predsOf_without sound, if_neg (created s owned), List.filter_comm, returns]
    simp [exit]
  calls := by
    rw [PropertyGraph.succsOf_without sound, if_neg site]
    exact List.mem_filter.mpr ⟨joins.calls, by simpa using entry⟩

/-- The record neither sits in kernel `k` nor is linked to it. -/
def CallRecord.Foreign (k : KernelId) (r : CallRecord) : Prop :=
  r.caller ≠ k ∧ (r.linked = true → r.target ≠ some k)

namespace PropertyGraph

/-- Emptying slots leaves the graph in order if nothing that stays has a node there. -/
theorem Wired.purge (wired : g.Wired u calls) {built : List BuiltKernel}
    {index : List (NodeId × Slot)} {aliases : List (NodeId × NodeId)}
    (fewer : built.Sublist g.built) (kept : ∀ b ∈ built, ∀ s ∈ b.slots, s ∉ slots)
    (needed : ∀ r ∈ calls, ∀ b ∈ g.built,
      b.kernel = r.caller ∨ (r.linked = true ∧ r.target = some b.kernel) → b ∈ built)
    (apart : ∀ r ∈ calls, ∀ s ∈ r.created, s ∉ slots)
    (names : ∀ n s, (n, s) ∈ index → (n, s) ∈ g.index ∧ ∀ b ∈ g.built, n ∈ b.stmts → b ∈ built)
    (others : ∀ owner n, (owner, n) ∈ aliases →
      (owner, n) ∈ g.aliases ∧ ∀ s, (n, s) ∈ g.index → (n, s) ∈ index) :
    Wired u { g.without slots with built := built, index := index, aliases := aliases } calls where
  sound :=
    let sound := wired.sound.without slots
    ⟨sound.numbered, sound.mirrored, sound.cleared, sound.returns⟩
  once := wired.once.sublist (fewer.map _)
  kernels := by
    intro b member
    have stands := (wired.kernels b (fewer.subset member)).without wired.sound (kept b member)
    exact ⟨stands.listed, stands.own, stands.entry, stands.exit⟩
  records := by
    intro r member
    have stands := wired.records r member
    obtain ⟨b, builtB, owner, site⟩ := stands.caller
    have staysB : b ∈ built := needed r member b builtB (Or.inl owner)
    refine ⟨⟨b, staysB, owner, site⟩, ?_, ?_, ?_⟩
    · exact stands.site.without wired.sound (kept b staysB r.site site)
    · intro s created
      exact (stands.created s created).without wired.sound (apart r member s created)
    · intro linked
      obtain ⟨c, builtC, joins⟩ := stands.linked linked
      have staysC : c ∈ built := needed r member c builtC (Or.inr ⟨linked, joins.target⟩)
      have standsC := wired.kernels c builtC
      have after := joins.without wired.sound (kept b staysB r.site site) (apart r member)
        (kept c staysC c.entry standsC.entry.1) (kept c staysC c.exit standsC.exit.1)
      exact ⟨c, staysC, after.target, after.returnSite, after.calls⟩
  apart := wired.apart
  index := by
    intro n s listed
    obtain ⟨old, stays⟩ := names n s listed
    obtain ⟨b, builtB, stmt, slot, alive⟩ := wired.index n s old
    have staysB : b ∈ built := stays b builtB stmt
    exact ⟨b, staysB, stmt, slot, alive.without wired.sound (kept b staysB s slot)⟩
  aliases := by
    intro owner n listed
    obtain ⟨old, stays⟩ := others owner n listed
    obtain ⟨s, named⟩ := wired.aliases owner n old
    exact ⟨s, stays s named⟩

/-! ## Calls taken apart -/

/-- A node made for a call is no node of a kernel. -/
theorem Wired.link_not_own (wired : g.Wired u calls) (built : b ∈ g.built) {s : Slot}
    (own : s ∈ b.slots) (link : g.LiveAs s fun n => n.kind.isLink = true) : False := by
  obtain ⟨n, -, -, isLink, -, notLink⟩ := link.and ((wired.kernels b built).own s own)
  exact Bool.false_ne_true (notLink.symm.trans isLink)

/-- The nodes made for one call go without harm to anything but its record. -/
theorem Wired.dropCreated {kept rest : List CallRecord} (wired : g.Wired u (kept ++ r :: rest)) :
    (g.without r.created).Wired u (kept ++ rest) := by
  have fewer : (kept ++ rest).Sublist (kept ++ r :: rest) :=
    (List.Sublist.refl kept).append (List.sublist_cons_self r rest)
  have stands := wired.records r (List.mem_append_right _ List.mem_cons_self)
  refine (wired.sublist fewer).purge (.refl _) ?_ ?_ ?_ ?_ ?_
  · intro b built s own created
    exact wired.link_not_own built own (stands.created s created)
  · intro q _ b built _
    exact built
  · intro q member s ofQ ofR
    have others := wired.apart
    rw [List.pairwise_append, List.pairwise_cons] at others
    rcases List.mem_append.mp member with before | after
    · exact others.2.2 q before r List.mem_cons_self s ofQ ofR
    · exact others.2.1.1 q after s ofR ofQ
  · intro n s listed
    exact ⟨listed, fun b built _ => built⟩
  · intro owner n listed
    exact ⟨listed, fun s named => named⟩

/-- One step of taking calls apart: the graph stays in order, and the record is dropped or has
nothing more to do with the kernel. -/
theorem Wired.unlinkCall {k : KernelId} {state : PropertyGraph × List CallRecord}
    {rest : List CallRecord} (wired : state.1.Wired u (state.2 ++ r :: rest))
    (foreign : ∀ q ∈ state.2, q.Foreign k) :
    (unlinkCall k state r).1.Wired u ((unlinkCall k state r).2 ++ rest) ∧
      (∀ q ∈ (unlinkCall k state r).2, q.Foreign k) ∧
      state.1.Persists (unlinkCall k state r).1 ∧
      (unlinkCall k state r).1.built = state.1.built := by
  obtain ⟨g, kept⟩ := state
  have addForeign {q : CallRecord} (last : q.Foreign k) : ∀ p ∈ kept ++ [q], p.Foreign k := by
    intro p member
    rcases List.mem_append.mp member with before | here
    · exact foreign p before
    · obtain rfl := List.mem_singleton.mp here
      exact last
  have dropped : g.removeNodes r.created = g.without r.created := removeNodes_eq wired.sound _
  unfold PropertyGraph.unlinkCall
  simp only [dropped]
  split
  case isTrue own =>
      exact ⟨wired.dropCreated, foreign, .without g r.created, rfl⟩
  case isFalse notOwn =>
    have other : r.caller ≠ k := by simpa using notOwn
    split
    case isTrue into =>
        have cleared := (Grown.refl wired.dropCreated.sound).setTarget r.site none
        have stands := wired.records r (List.mem_append_right _ List.mem_cons_self)
        obtain ⟨b, built, owner, site⟩ := stands.caller
        have stays : r.site ∉ r.created := fun member =>
          wired.link_not_own built site (stands.created r.site member)
        refine ⟨?_, addForeign ⟨other, nofun⟩, (Persists.without g _).trans cleared.ext.persists, rfl⟩
        rw [List.append_assoc]
        refine (wired.dropCreated.grow cleared).insert ⟨⟨b, built, owner, site⟩, ?_, ?_, ?_⟩ ?_
        · exact cleared.ext.liveAs (stands.site.without wired.sound stays)
        · intro s member
          cases member
        · nofun
        · intro q _ s member
          cases member
    case isFalse notInto =>
        refine ⟨by simpa using wired, addForeign ⟨other, fun linked target => ?_⟩, .refl g, rfl⟩
        simp [linked, target] at notInto

theorem Wired.foldl_unlinkCall {k : KernelId} (records : List CallRecord)
    (state : PropertyGraph × List CallRecord) (wired : state.1.Wired u (state.2 ++ records))
    (foreign : ∀ q ∈ state.2, q.Foreign k) :
    let last := records.foldl (PropertyGraph.unlinkCall k) state
    last.1.Wired u last.2 ∧ (∀ q ∈ last.2, q.Foreign k) ∧ state.1.Persists last.1 ∧
      last.1.built = state.1.built := by
  induction records generalizing state with
  | nil => exact ⟨by simpa using wired, foreign, .refl state.1, rfl⟩
  | cons r records ih =>
      obtain ⟨wiredNext, foreignNext, persists, same⟩ := wired.unlinkCall foreign
      obtain ⟨wiredLast, foreignLast, persistsLast, sameLast⟩ := ih _ wiredNext foreignNext
      exact ⟨wiredLast, foreignLast, persists.trans persistsLast, sameLast.trans same⟩

/-! ## The kernel itself -/

/-- Two kernels have no node in common. -/
theorem Wired.kernel_eq_of_slot (wired : g.Wired u calls) {b c : BuiltKernel}
    (builtB : b ∈ g.built) (builtC : c ∈ g.built) {s : Slot} (ofB : s ∈ b.slots)
    (ofC : s ∈ c.slots) : c.kernel = b.kernel := by
  obtain ⟨n, -, -, inB, inC⟩ :=
    ((wired.kernels b builtB).own s ofB).and ((wired.kernels c builtC).own s ofC)
  exact inC.1.symm.trans inB.1

/-- With all calls out of the way, a kernel's nodes and the names of its statements may go. -/
theorem Wired.dropKernel (wired : g.Wired u calls) (built : b ∈ g.built)
    (foreign : ∀ r ∈ calls, r.Foreign b.kernel) :
    Wired u { g.without b.slots with
      built := g.built.filter (·.kernel != b.kernel)
      index := g.index.filter fun (n, _) => !b.stmts.contains n
      aliases := g.aliases.filter fun (_, n) => !b.stmts.contains n } calls := by
  have stays {c : BuiltKernel} (member : c ∈ g.built) (other : c.kernel ≠ b.kernel) :
      c ∈ g.built.filter (·.kernel != b.kernel) :=
    List.mem_filter.mpr ⟨member, by simpa using other⟩
  refine wired.purge List.filter_sublist ?_ ?_ ?_ ?_ ?_
  · intro c member s ofC ofB
    obtain ⟨builtC, other⟩ := List.mem_filter.mp member
    exact absurd (wired.kernel_eq_of_slot built builtC ofB ofC) (by simpa using other)
  · rintro r member c builtC (owner | ⟨linked, target⟩)
    · exact stays builtC (owner ▸ (foreign r member).1)
    · refine stays builtC fun same => ?_
      exact (foreign r member).2 linked (same ▸ target)
  · intro r member s created ofB
    exact wired.link_not_own built ofB ((wired.records r member).created s created)
  · intro n s listed
    obtain ⟨old, other⟩ := List.mem_filter.mp listed
    refine ⟨old, fun c builtC stmt => stays builtC fun same => ?_⟩
    obtain rfl : c = b := wired.kernel_inj builtC built same
    simp [stmt] at other
  · intro owner n listed
    obtain ⟨old, other⟩ := List.mem_filter.mp listed
    exact ⟨old, fun s named => List.mem_filter.mpr ⟨named, other⟩⟩

/-- The graph and the records when all calls of kernel `k` have been taken apart. -/
def unlinked (g : PropertyGraph) (k : KernelId) : PropertyGraph × List CallRecord :=
  g.calls.foldl (PropertyGraph.unlinkCall k) (g, [])

theorem forget_eq (g : PropertyGraph) (b : BuiltKernel) :
    let state := g.unlinked b.kernel
    let left := state.1.removeNodes b.slots
    g.forget b = { left with
      calls := state.2
      index := left.index.filter fun (n, _) => !b.stmts.contains n
      aliases := left.aliases.filter fun (_, n) => !b.stmts.contains n
      built := left.built.filter (·.kernel != b.kernel) } :=
  rfl

/-- Forgetting a kernel leaves the rest of the graph in order. -/
theorem Wired.forget (wired : g.Wired u g.calls) (built : b ∈ g.built) :
    (g.forget b).Wired u (g.forget b).calls ∧ g.Persists (g.forget b) ∧
      (g.forget b).isBuilt b.kernel = false := by
  obtain ⟨wiredLast, foreign, persists, same⟩ :=
    Wired.foldl_unlinkCall (k := b.kernel) g.calls (g, []) wired nofun
  have dropped := wiredLast.dropKernel (same ▸ built) foreign
  rw [forget_eq, unlinked, removeNodes_eq wiredLast.sound]
  refine ⟨dropped.grow ((Grown.refl dropped.sound).withCalls _), ?_, ?_⟩
  · have left := persists.trans (Persists.without _ b.slots)
    exact ⟨left.cap, left.nodes⟩
  · simp [isBuilt, builtKernel?, List.find?_filter]

end PropertyGraph

end Retarget
