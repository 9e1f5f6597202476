/-
# Proofs.LayoutHistory -- the layout of every graph that a history leads to

Forgetting a kernel is done call by call and node by node.  Taken together it empties the slots of
the kernel and of every call made by it or linked to it (`gone`), and nothing else changes but
targets (`Wired.forget_alike`).  An edge goes exactly if it belongs to the kernel or to one of
these calls, so what is left is laid out for the records that are left (`Laid.forget`).

A property that forgetting, building and linking keep holds after every history
(`Invariant.history`); so every graph that a history leads to is laid out (`history_laid`).
-/
import Retarget.Proofs.Layout

namespace Retarget

set_option autoImplicit false
set_option linter.dupNamespace false

/-- The node without its target. -/
def GraphNode.aimless (n : GraphNode) : GraphNode := { n with target := none }

namespace PropertyGraph

variable {u : SourceUnit} {g h : PropertyGraph} {calls : List CallRecord} {r : CallRecord}
  {b : BuiltKernel}

/-! ## What forgetting removes -/

/-- The same nodes with the same edges; only targets may differ. -/
def Alike (g h : PropertyGraph) : Prop :=
  ∀ s, (g.node? s).map GraphNode.aimless = (h.node? s).map GraphNode.aimless

namespace Alike

theorem refl (g : PropertyGraph) : g.Alike g := fun _ => rfl

theorem trans {k : PropertyGraph} (first : g.Alike h) (second : h.Alike k) : g.Alike k :=
  fun s => (first s).trans (second s)

theorem setTarget (alike : g.Alike h) (a : Slot) (target : Option KernelId) :
    (g.setTarget a target).Alike h := by
  intro s
  rw [← alike s, node?_setTarget, Option.map_map]
  cases g.node? s with
  | none => rfl
  | some n => by_cases here : s = a <;> simp [here, GraphNode.aimless]

theorem without (alike : g.Alike h) (slots : List Slot) :
    (g.without slots).Alike (h.without slots) := by
  have swap : GraphNode.aimless ∘ (·.without slots) = (·.without slots) ∘ GraphNode.aimless := by
    funext n
    by_cases emptied : n.id ∈ slots <;> simp [GraphNode.without, GraphNode.aimless, emptied]
  intro s
  rw [node?_without, node?_without, Option.map_map, Option.map_map, swap, ← Option.map_map,
    ← Option.map_map, alike s]

variable (alike : g.Alike h)

include alike

theorem symm : h.Alike g := fun s => (alike s).symm

theorem liveAs {s : Slot} {P : GraphNode → Prop} (alive : g.LiveAs s P) : h.LiveAs s P := by
  obtain ⟨n, here, present, shows⟩ := alive
  have same := alike s
  rw [here] at same
  obtain ⟨m, there, equal⟩ := Option.map_eq_some_iff.mp same.symm
  have fixed : m.aimless.fixed = n.aimless.fixed := congrArg GraphNode.fixed equal
  have kept : m.aimless.removed = n.aimless.removed := congrArg GraphNode.removed equal
  exact ⟨m, there, kept.trans present, (show m.fixed = n.fixed from fixed) ▸ shows⟩

theorem live {s : Slot} (alive : g.Live s) : h.Live s := by
  obtain ⟨n, here, present⟩ := alive
  exact (alike.liveAs ⟨n, here, present, trivial⟩ : h.LiveAs s fun _ => True).live

theorem accounts {arcs : List Arc} (accounts : g.Accounts arcs) : h.Accounts arcs := by
  have same (s : Slot) : h.succsOf s = g.succsOf s := by
    have side (k : PropertyGraph) : k.succsOf s
        = (((k.node? s).map GraphNode.aimless).map (·.succs)).getD [] := by
      rw [Option.map_map]
      rfl
    rw [side h, side g, alike s]
  intro e
  rw [← accounts e, edgeCount, edgeCount, same]

end Alike

theorem without_nil (g : PropertyGraph) : g.without [] = g := by
  have same : g.nodes.map (·.without []) = g.nodes := by simp
  rw [without, same]

theorem without_append (g : PropertyGraph) (slots others : List Slot) :
    (g.without slots).without others = g.without (slots ++ others) := by
  have each (n : GraphNode) : (n.without slots).without others = n.without (slots ++ others) := by
    induction slots generalizing n with
    | nil => rw [GraphNode.without_nil, List.nil_append]
    | cons s slots ih => rw [← GraphNode.without_cons, ih, GraphNode.without_cons, List.cons_append]
  simp only [without, Array.map_map, Function.comp_def, each]

/-- The call is made by kernel `k` or linked to it. -/
def touches (k : KernelId) (r : CallRecord) : Bool :=
  r.caller == k || (r.target == some k && r.linked)

/-- The nodes of a call that go when kernel `k` goes. -/
def doomed (k : KernelId) (r : CallRecord) : List Slot := if touches k r then r.created else []

/-- What is left of the record of a call when kernel `k` goes. -/
def release (k : KernelId) (r : CallRecord) : Option CallRecord :=
  if r.caller == k then none
  else if touches k r then some { r with linked := false, returnSite := none, created := [] }
  else some r

theorem unlinkCall_alike {k : KernelId} {state : PropertyGraph × List CallRecord}
    (sound : state.1.Sound) (r : CallRecord) :
    (unlinkCall k state r).1.Alike (state.1.without (doomed k r)) ∧
      (unlinkCall k state r).2 = state.2 ++ (release k r).toList := by
  obtain ⟨g, kept⟩ := state
  have dropped : g.removeNodes r.created = g.without r.created := removeNodes_eq sound _
  unfold unlinkCall doomed release touches
  simp only [dropped]
  cases own : r.caller == k with
  | true => simp [Alike.refl]
  | false =>
      cases into : r.target == some k && r.linked with
      | true => simpa using (Alike.refl (g.without r.created)).setTarget r.site none
      | false => simp [without_nil, Alike.refl]

theorem Wired.foldl_unlinkCall_alike {k : KernelId} (records : List CallRecord)
    (state : PropertyGraph × List CallRecord) (wired : state.1.Wired u (state.2 ++ records))
    (foreign : ∀ q ∈ state.2, q.Foreign k) :
    (records.foldl (PropertyGraph.unlinkCall k) state).1.Alike
        (state.1.without (records.flatMap (doomed k))) ∧
      (records.foldl (PropertyGraph.unlinkCall k) state).2
        = state.2 ++ records.filterMap (release k) := by
  induction records generalizing state with
  | nil => simp [without_nil, Alike.refl]
  | cons r records ih =>
      obtain ⟨wiredNext, foreignNext, -, -⟩ := wired.unlinkCall foreign
      obtain ⟨first, left⟩ := unlinkCall_alike (k := k) wired.sound r
      obtain ⟨last, leftLast⟩ := ih _ wiredNext foreignNext
      constructor
      · have whole := last.trans (first.without (records.flatMap (doomed k)))
        rwa [without_append] at whole
      · rw [List.foldl_cons, leftLast, left, List.append_assoc, List.filterMap_cons]
        cases release k r <;> rfl

/-- All slots that are emptied when a kernel goes. -/
def gone (g : PropertyGraph) (b : BuiltKernel) : List Slot :=
  g.calls.flatMap (doomed b.kernel) ++ b.slots

/-- Forgetting a kernel empties its slots and those of its calls and changes nothing else. -/
theorem Wired.forget_alike (wired : g.Wired u g.calls) (b : BuiltKernel) :
    (g.forget b).Alike (g.without (g.gone b)) ∧
      (g.forget b).calls = g.calls.filterMap (release b.kernel) ∧
      (g.forget b).built = g.built.filter (·.kernel != b.kernel) := by
  obtain ⟨wiredLast, -, -, built⟩ :=
    Wired.foldl_unlinkCall (k := b.kernel) g.calls (g, []) wired nofun
  obtain ⟨alike, calls⟩ :=
    Wired.foldl_unlinkCall_alike (k := b.kernel) g.calls (g, []) wired nofun
  have last := alike.without b.slots
  rw [without_append] at last
  rw [forget_eq, unlinked, removeNodes_eq wiredLast.sound]
  refine ⟨last, by simpa using calls, ?_⟩
  rw [← built]
  rfl

/-! ## What is left is laid out -/

theorem flatMap_filter {α β : Type} (xs : List α) (p : α → Bool) (f : α → List β) :
    (xs.filter p).flatMap f = xs.flatMap fun x => if p x then f x else [] := by
  induction xs with
  | nil => rfl
  | cons x xs ih => by_cases kept : p x <;> simp [kept, ih]

theorem flatMap_filterMap {α β γ : Type} (xs : List α) (p : α → Option β) (f : β → List γ) :
    (xs.filterMap p).flatMap f = xs.flatMap fun x => (p x).toList.flatMap f := by
  rw [List.filterMap_eq_flatMap_toList, List.flatMap_assoc]

/-- No two records have a node in common. -/
theorem Wired.eq_of_created {q : CallRecord} {s : Slot} (wired : g.Wired u calls)
    (member : r ∈ calls) (other : q ∈ calls) (ofR : s ∈ r.created) (ofQ : s ∈ q.created) :
    r = q := by
  have : Std.Symm fun r t : CallRecord => ∀ s ∈ r.created, s ∉ t.created :=
    ⟨fun _ _ disjoint s here there => disjoint s there here⟩
  by_contra different
  exact wired.apart.forall member other different s ofR ofQ

section Left

variable (wired : g.Wired u g.calls) (laid : g.Laid u g.calls) (built : b ∈ g.built)

include wired built

theorem Wired.own_not_gone {c : BuiltKernel} (member : c ∈ g.built) (other : c.kernel ≠ b.kernel)
    {s : Slot} (own : s ∈ c.slots) : s ∉ g.gone b := by
  intro listed
  rcases List.mem_append.mp listed with ofCall | ofKernel
  · obtain ⟨r, recorded, inner⟩ := List.mem_flatMap.mp ofCall
    unfold doomed at inner
    split at inner
    · exact wired.link_not_own member own ((wired.records r recorded).created s inner)
    · cases inner
  · exact other (wired.kernel_eq_of_slot built member ofKernel own)

theorem Wired.created_not_gone (member : r ∈ g.calls) (stays : touches b.kernel r = false)
    {s : Slot} (created : s ∈ r.created) : s ∉ g.gone b := by
  intro listed
  rcases List.mem_append.mp listed with ofCall | ofKernel
  · obtain ⟨q, recorded, inner⟩ := List.mem_flatMap.mp ofCall
    unfold doomed at inner
    split at inner
    case isTrue goes =>
      obtain rfl := wired.eq_of_created member recorded created inner
      exact Bool.false_ne_true (stays.symm.trans goes)
    case isFalse => cases inner
  · exact wired.link_not_own built ofKernel ((wired.records r member).created s created)

omit wired built in
/-- Every record that is left is an old one that had nothing to do with the kernel, or is not
linked. -/
theorem release_cases {k : KernelId} {q : CallRecord} (left : release k r = some q) :
    r.caller ≠ k ∧ ((touches k r = false ∧ q = r) ∨
      (touches k r = true ∧ q = { r with linked := false, returnSite := none, created := [] })) := by
  unfold release at left
  split at left
  · cases left
  · rename_i other
    refine ⟨by simpa using other, ?_⟩
    split at left
    · rename_i goes
      exact Or.inr ⟨goes, (Option.some.inj left).symm⟩
    · rename_i stays
      exact Or.inl ⟨by simpa using stays, (Option.some.inj left).symm⟩

omit wired built in
/-- A call that still has a node had nothing to do with the kernel. -/
theorem release_of_created (member : r ∈ g.calls) {s : Slot} (created : s ∈ r.created)
    (there : s ∉ g.gone b) : release b.kernel r = some r := by
  have untouched : touches b.kernel r = false := by
    refine Bool.eq_false_iff.mpr fun goes => there ?_
    exact List.mem_append_left _ (List.mem_flatMap.mpr ⟨r, member, by rwa [doomed, if_pos goes]⟩)
  have other : r.caller ≠ b.kernel := by
    intro own
    simp [touches, own] at untouched
  simp [release, untouched, other]

/-- The kernel of the call site stays if the call does. -/
theorem Wired.caller_stays (member : r ∈ g.calls) (other : r.caller ≠ b.kernel) :
    r.site ∉ g.gone b := by
  obtain ⟨c, builtC, owner, site⟩ := (wired.records r member).caller
  exact wired.own_not_gone built builtC (owner ▸ other) site

include laid

/-- Edges of other kernels stay, those of the kernel go. -/
theorem Laid.ownArcs_filter :
    g.ownArcs.filter (fun e => e.1 ∉ g.gone b ∧ e.2.1 ∉ g.gone b)
      = (g.built.filter (·.kernel != b.kernel)).flatMap BuiltKernel.arcs := by
  rw [ownArcs, List.filter_flatMap, flatMap_filter]
  refine List.flatMap_congr fun c member => ?_
  by_cases same : c.kernel = b.kernel
  · obtain rfl : c = b := wired.kernel_inj member built same
    have none : c.arcs.filter (fun e => e.1 ∉ g.gone c ∧ e.2.1 ∉ g.gone c) = [] := by
      refine List.filter_eq_nil_iff.mpr fun e inner => ?_
      have own := ((laid.kernels c member).mem_arcs inner).1
      simp [gone, own]
    simpa using none
  · have all : c.arcs.filter (fun e => e.1 ∉ g.gone b ∧ e.2.1 ∉ g.gone b) = c.arcs := by
      refine List.filter_eq_self.mpr fun e inner => ?_
      obtain ⟨source, target, -⟩ := (laid.kernels c member).mem_arcs inner
      simp [wired.own_not_gone built member same source, wired.own_not_gone built member same target]
    simpa [same] using all

/-- Edges out of a call site that stays stay. -/
theorem Laid.ownArcs_filter_site (member : r ∈ g.calls) (other : r.caller ≠ b.kernel) :
    ((g.built.filter (·.kernel != b.kernel)).flatMap BuiltKernel.arcs).filter (·.1 == r.site)
      = g.ownArcs.filter (·.1 == r.site) := by
  rw [← laid.ownArcs_filter wired built, List.filter_filter]
  refine List.filter_congr fun e own => ?_
  obtain ⟨c, builtC, -, source, target, -⟩ := laid.mem_ownArcs own
  obtain ⟨d, builtD, owner, site⟩ := (wired.records r member).caller
  by_cases here : e.1 = r.site
  · have otherC : c.kernel ≠ b.kernel := by
      rw [← wired.kernel_eq_of_slot builtC builtD source (here ▸ site), owner]
      exact other
    simp [wired.own_not_gone built builtC otherC source, wired.own_not_gone built builtC otherC target]
  · simp [here]

/-- When a call goes, each of its edges loses an end. -/
theorem Laid.callArcs_gone (member : r ∈ g.calls) (goes : touches b.kernel r = true) {e : Arc}
    (drawn : e ∈ g.callArcs u r) : e.1 ∈ g.gone b ∨ e.2.1 ∈ g.gone b := by
  have created {s : Slot} (own : s ∈ r.created) : s ∈ g.gone b :=
    List.mem_append_left _ (List.mem_flatMap.mpr ⟨r, member, by rwa [doomed, if_pos goes]⟩)
  cases linked : r.linked with
  | false =>
      rw [callArcs_of_unlinked ((laid.records r member).unlinked linked).1] at drawn
      cases drawn
  | true =>
      obtain ⟨c, builtC, s, spans, arcs⟩ := wired.linked_call laid member linked
      rw [arcs] at drawn
      rcases mem_callArcs_target spans drawn with rfl | target | ⟨source, -⟩
      · -- the call edge runs between two kernels, and one of them is the one that goes
        obtain ⟨d, builtD, owner, site⟩ := (wired.records r member).caller
        by_cases own : r.caller = b.kernel
        · obtain rfl : d = b := wired.kernel_inj builtD built (owner.trans own)
          exact Or.inl (List.mem_append_right _ site)
        · have into : r.target = some b.kernel := by simpa [touches, own, linked] using goes
          obtain rfl : c = b := wired.kernel_inj builtC built
            (Option.some.inj (spans.target.symm.trans into))
          exact Or.inr (List.mem_append_right _ (wired.kernels c builtC).entry.1)
      · exact Or.inr (created target)
      · exact Or.inl (created source)

/-- A call that stays keeps both ends of its edges. -/
theorem Laid.callArcs_kept (member : r ∈ g.calls) (stays : touches b.kernel r = false) {e : Arc}
    (drawn : e ∈ g.callArcs u r) : e.1 ∉ g.gone b ∧ e.2.1 ∉ g.gone b := by
  cases linked : r.linked with
  | false =>
      rw [callArcs_of_unlinked ((laid.records r member).unlinked linked).1] at drawn
      cases drawn
  | true =>
      obtain ⟨c, builtC, s, spans, arcs⟩ := wired.linked_call laid member linked
      obtain ⟨other, target⟩ : r.caller ≠ b.kernel ∧ r.target ≠ some b.kernel := by
        simpa [touches, linked] using stays
      have otherC : c.kernel ≠ b.kernel := fun same => target (same ▸ spans.target)
      have site := wired.caller_stays built member other
      have standsC := wired.kernels c builtC
      have created {s : Slot} := wired.created_not_gone built member stays (s := s)
      rw [arcs] at drawn
      constructor
      · rcases mem_callArcs_source spans drawn with rfl | ⟨i, -, rfl⟩ | exit | own
        · exact site
        · exact site
        · rw [exit]
          exact wired.own_not_gone built builtC otherC standsC.exit.1
        · exact created own
      · rcases mem_callArcs_target spans drawn with rfl | own | ⟨-, a, onward, same⟩
        · exact wired.own_not_gone built builtC otherC standsC.entry.1
        · exact created own
        · obtain ⟨own, source⟩ := List.mem_filter.mp onward
          obtain ⟨d, builtD, -, sourceD, targetD, -⟩ := laid.mem_ownArcs own
          have siteD : r.site ∈ d.slots := by
            rw [← show a.1 = r.site by simpa using source]
            exact sourceD
          have otherD : d.kernel ≠ b.kernel := by
            rintro sameD
            obtain ⟨caller, builtCaller, owner, ofCaller⟩ := (wired.records r member).caller
            refine other (owner.symm.trans ?_)
            rw [wired.kernel_eq_of_slot builtD builtCaller siteD ofCaller, sameD]
          rw [same]
          exact wired.own_not_gone built builtD otherD targetD

/-- Edges of a call that stays stay, all others go. -/
theorem Laid.callArcs_filter (same : h.built = g.built.filter (·.kernel != b.kernel))
    (member : r ∈ g.calls) :
    (g.callArcs u r).filter (fun e => e.1 ∉ g.gone b ∧ e.2.1 ∉ g.gone b)
      = (release b.kernel r).toList.flatMap (h.callArcs u) := by
  cases goes : touches b.kernel r with
  | true =>
      have none : (g.callArcs u r).filter (fun e => e.1 ∉ g.gone b ∧ e.2.1 ∉ g.gone b) = [] := by
        refine List.filter_eq_nil_iff.mpr fun e drawn => ?_
        have lost := laid.callArcs_gone wired built member goes drawn
        simpa using fun here => lost.resolve_left here
      have silent : (release b.kernel r).toList.flatMap (h.callArcs u) = [] := by
        refine List.flatMap_eq_nil_iff.mpr fun q left => ?_
        obtain ⟨-, ⟨stays, -⟩ | ⟨-, rfl⟩⟩ := release_cases (Option.mem_toList.mp left)
        · cases stays.symm.trans goes
        · exact callArcs_of_unlinked rfl
      rw [none, silent]
  | false =>
      have all : (g.callArcs u r).filter (fun e => e.1 ∉ g.gone b ∧ e.2.1 ∉ g.gone b)
          = g.callArcs u r := by
        refine List.filter_eq_self.mpr fun e drawn => ?_
        simpa using laid.callArcs_kept wired built member goes drawn
      have other : r.caller ≠ b.kernel := by
        intro own
        simp [touches, own] at goes
      have left : release b.kernel r = some r := by simp [release, other, goes]
      rw [all, left, Option.toList_some, List.flatMap_singleton]
      cases linked : r.linked with
      | false =>
          have none := ((laid.records r member).unlinked linked).1
          rw [callArcs_of_unlinked none, callArcs_of_unlinked none]
      | true =>
          obtain ⟨c, builtC, s, spans, arcs⟩ := wired.linked_call laid member linked
          have otherC : c.kernel ≠ b.kernel := by
            intro into
            simp [touches, linked, spans.target, into] at goes
          have found : h.builtKernel? c.kernel = some c := by
            rw [← wired.builtKernel?_eq builtC, builtKernel?, builtKernel?, same, List.find?_filter]
            congr 1
            funext d
            by_cases equal : d.kernel = c.kernel <;> simp [equal, otherC]
          have own : h.ownArcs.filter (·.1 == r.site) = g.ownArcs.filter (·.1 == r.site) := by
            rw [ownArcs, same]
            exact laid.ownArcs_filter_site wired built member other
          rw [arcs, callArcs, spans.returnSite, spans.target, Option.bind_some, found, own]

/-- The edges that are left are those of the kernels and calls that are left, strays apart. -/
theorem Laid.drawn_forget (same : h.built = g.built.filter (·.kernel != b.kernel))
    (alike : h.Alike (g.without (g.gone b))) :
    ∃ strays, h.Accounts (h.ownArcs ++
        (g.calls.filterMap (release b.kernel)).flatMap (h.callArcs u) ++ strays) ∧
      ∀ e ∈ strays, Stray (g.calls.filterMap (release b.kernel)) e := by
  obtain ⟨strays, accounts, shapes⟩ := laid.drawn
  have left := alike.symm.accounts (accounts.without wired.sound (g.gone b))
  have own : h.ownArcs = g.ownArcs.filter fun e => e.1 ∉ g.gone b ∧ e.2.1 ∉ g.gone b := by
    rw [laid.ownArcs_filter wired built, ownArcs, same]
  have called : (g.calls.filterMap (release b.kernel)).flatMap (h.callArcs u)
      = (g.calls.flatMap (g.callArcs u)).filter fun e => e.1 ∉ g.gone b ∧ e.2.1 ∉ g.gone b := by
    rw [flatMap_filterMap, List.filter_flatMap]
    exact List.flatMap_congr fun r member => (laid.callArcs_filter wired built same member).symm
  refine ⟨strays.filter fun e => e.1 ∉ g.gone b ∧ e.2.1 ∉ g.gone b, ?_, fun e listed => ?_⟩
  · rw [own, called, ← List.filter_append, ← List.filter_append]
    exact left
  · obtain ⟨stray, kept⟩ := List.mem_filter.mp listed
    obtain ⟨r, first, q, second, s, t, i, atR, atQ, apart, site, low, rfl⟩ := shapes e stray
    obtain ⟨source, target⟩ : s ∉ g.gone b ∧ t + (2 * i + 1) ∉ g.gone b := by simpa using kept
    obtain ⟨_, spansR⟩ := (laid.records r first).spans atR
    obtain ⟨_, spansQ⟩ := (laid.records q second).spans atQ
    -- both calls still have their nodes, so neither had to do with the kernel
    have keptR := release_of_created first spansR.returnSite_mem source
    have keptQ := release_of_created second (spansQ.mem_args (by omega)) target
    exact ⟨r, List.mem_filterMap.mpr ⟨r, first, keptR⟩, q,
      List.mem_filterMap.mpr ⟨q, second, keptQ⟩, s, t, i, atR, atQ, apart, site, low, rfl⟩

omit laid built in
theorem Wired.live_of_without {slots : List Slot} {s : Slot} (alive : (g.without slots).Live s) :
    g.Live s ∧ s ∉ slots := by
  obtain ⟨m, there, present⟩ := alive
  rw [node?_without, Option.map_eq_some_iff] at there
  obtain ⟨n, here, rfl⟩ := there
  have id : n.id = s := wired.sound.numbered s n here
  by_cases emptied : n.id ∈ slots
  · simp [GraphNode.without, emptied] at present
  · refine ⟨⟨n, here, ?_⟩, id ▸ emptied⟩
    simpa [GraphNode.without, emptied] using present

/-- Forgetting a kernel keeps the graph laid out. -/
theorem Laid.forget : (g.forget b).Laid u (g.forget b).calls := by
  obtain ⟨alike, calls, same⟩ := wired.forget_alike b
  have keeps {s : Slot} (there : s ∉ g.gone b) (n : GraphNode) (holds : g.Holds s n) :
      (g.forget b).Holds s n := alike.symm.liveAs (LiveAs.without holds wired.sound there)
  rw [calls]
  refine ⟨fun c member => ?_, fun q member => ?_, fun s alive => ?_,
    laid.drawn_forget wired built same alike⟩
  · rw [same, List.mem_filter, bne_iff_ne] at member
    exact (laid.kernels c member.1).keep fun s own n =>
      keeps (wired.own_not_gone built member.1 member.2 own) n
  · obtain ⟨r, recorded, left⟩ := List.mem_filterMap.mp member
    obtain ⟨-, ⟨stays, rfl⟩ | ⟨-, rfl⟩⟩ := release_cases left
    · exact (laid.records q recorded).keep fun s created n =>
        keeps (wired.created_not_gone built recorded stays created) n
    · exact ⟨nofun, fun _ => ⟨rfl, rfl⟩⟩
  · obtain ⟨before, there⟩ := wired.live_of_without (alike.live alive)
    rcases laid.covers s before with ⟨c, member, own⟩ | ⟨r, recorded, created⟩
    · refine Or.inl ⟨c, ?_, own⟩
      rw [same, List.mem_filter, bne_iff_ne]
      refine ⟨member, fun equal => there ?_⟩
      obtain rfl : c = b := wired.kernel_inj member built equal
      exact List.mem_append_right _ own
    · have kept := release_of_created recorded created there
      exact Or.inr ⟨r, List.mem_filterMap.mpr ⟨r, recorded, kept⟩, created⟩

end Left

/-! ## Histories -/

theorem history_ordered (u : SourceUnit) (cap : Int) (ops : List (GraphOp u)) :
    (history u cap ops).Ordered u :=
  ((new_ordered u cap).foldl_apply ops).1

/-- Forgetting, building and linking keep the property. -/
structure Invariant (u : SourceUnit) (P : PropertyGraph → Prop) : Prop where
  forget : ∀ g b, g.Wired u g.calls → b ∈ g.built → P g → P (g.forget b)
  build : ∀ g k, g.Wired u g.calls → k ∈ u.kernels → g.isBuilt k.id = false → P g →
    P (g.buildKernel u k).value
  link : ∀ g, g.Wired u g.calls → P g → P (g.linkCalls u)

namespace Invariant

variable {P : PropertyGraph → Prop} (inv : Invariant u P)

include inv

theorem build_step (ordered : g.Ordered u) (holds : P g) {k : KernelFn} (listed : k ∈ u.kernels) :
    P (g.build u k).value := by
  unfold PropertyGraph.build
  split
  · exact holds
  · split
    · exact holds
    · have absent : g.isBuilt k.id = false := by simpa using ‹¬g.isBuilt k.id = true›
      exact inv.link _ (ordered.wired.buildKernel listed absent).1
        (inv.build g k ordered.wired listed absent holds)

theorem buildUnit_step (ordered : g.Ordered u) (holds : P g) : P (g.buildUnit u).value := by
  have built : (u.kernels.foldl (fun acc k => acc.bind fun g => g.build u k)
      (⟨g, []⟩ : Logged PropertyGraph)).value.Ordered u ∧
      P (u.kernels.foldl (fun acc k => acc.bind fun g => g.build u k)
        (⟨g, []⟩ : Logged PropertyGraph)).value := by
    apply List.foldlRecOn
      (motive := fun acc : Logged PropertyGraph => acc.value.Ordered u ∧ P acc.value)
    · exact ⟨ordered, holds⟩
    · intro acc before k listed
      exact ⟨(before.1.build listed).1, inv.build_step before.1 before.2 listed⟩
  exact inv.link _ built.1.wired built.2

theorem invalidate_step (ordered : g.Ordered u) (holds : P g) {k : KernelFn}
    (listed : k ∈ u.kernels) : P (g.invalidate u k).value := by
  unfold PropertyGraph.invalidate
  split
  · exact holds
  · rename_i b found
    obtain ⟨built, same⟩ := mem_of_builtKernel? found
    obtain ⟨wiredLeft, -, absent⟩ := ordered.wired.forget built
    rw [same] at absent
    exact inv.link _ (wiredLeft.buildKernel listed absent).1
      (inv.build _ k wiredLeft listed absent (inv.forget g b ordered.wired built holds))

theorem foldl_apply (ordered : g.Ordered u) (holds : P g) (ops : List (GraphOp u)) :
    P (ops.foldl apply g) := by
  induction ops generalizing g with
  | nil => exact holds
  | cons op ops ih =>
      refine ih (ordered.apply op).1 ?_
      cases op with
      | build k listed => exact inv.build_step ordered holds listed
      | buildUnit => exact inv.buildUnit_step ordered holds
      | invalidate k listed => exact inv.invalidate_step ordered holds listed

/-- What the three steps keep holds after every history. -/
theorem history {cap : Int} (start : P (new cap)) (ops : List (GraphOp u)) :
    P (history u cap ops) :=
  inv.foldl_apply (new_ordered u cap) start ops

end Invariant

theorem laid_invariant (u : SourceUnit) : Invariant u fun g => g.Laid u g.calls where
  forget _ _ wired built laid := laid.forget wired built
  build _ k wired _ _ laid := laid.buildKernel wired k
  link _ wired laid := laid.linkCalls wired

theorem new_laid (u : SourceUnit) (cap : Int) : (new cap).Laid u (new cap).calls where
  kernels := nofun
  records := nofun
  covers := by
    rintro s ⟨n, here, -⟩
    cases here
  drawn := ⟨[], fun _ => rfl, nofun⟩

/-- After any history the graph is laid out. -/
theorem history_laid (u : SourceUnit) (cap : Int) (ops : List (GraphOp u)) :
    (PropertyGraph.history u cap ops).Laid u (PropertyGraph.history u cap ops).calls :=
  (laid_invariant u).history (new_laid u cap) ops

end PropertyGraph

end Retarget
