/-
# Proofs.TraceGround -- what traces walk over

A trace goes from statement to statement by what is known of single ones: the definitions that
reach them, their variables and their calls.  After any history (`Charted`) the records of calls are
those of the calls that the statements of built kernels make, no more and no fewer
(`Charted.record_of_call`, `Charted.call_of_record`), and the node of a statement lists its calls
(`Charted.listedCalls_eq`).

What a trace has followed and found only grows (`Tracing.Grows`); so a walk over a list knows at its
end of every element what was settled right after it (`Tracing.foldl_settles`).
-/
import Retarget.Proofs.CallPlan
import Retarget.Proofs.StatementIndex
import Retarget.PropertyGraph.Trace

namespace Retarget

open Retarget.Source (Node NodeId)

set_option autoImplicit false
set_option linter.dupNamespace false

/-! ## Growing traces -/

namespace Tracing

/-- Nothing that has been followed or found is forgotten. -/
structure Grows (t t' : Tracing) : Prop where
  seen : t.seen ⊆ t'.seen
  steps : t.steps ⊆ t'.steps

theorem Grows.refl (t : Tracing) : t.Grows t := ⟨List.Subset.refl _, List.Subset.refl _⟩

theorem Grows.trans {t t' t'' : Tracing} (first : t.Grows t') (second : t'.Grows t'') :
    t.Grows t'' :=
  ⟨List.Subset.trans first.seen second.seen, List.Subset.trans first.steps second.steps⟩

theorem grows_mark (t : Tracing) (s : NodeId) (v : String) : t.Grows (t.mark s v) :=
  ⟨List.subset_cons_self _ _, List.Subset.refl _⟩

theorem grows_add (t : Tracing) (s : TraceStep) : t.Grows (t.add s) :=
  ⟨List.Subset.refl _, List.subset_append_left _ _⟩

theorem mem_seen_mark {t : Tracing} {s : NodeId} {v : String} {q : NodeId × String} :
    q ∈ (t.mark s v).seen ↔ q = (s, v) ∨ q ∈ t.seen := List.mem_cons

theorem mem_steps_add {t : Tracing} {s step : TraceStep} :
    step ∈ (t.add s).steps ↔ step ∈ t.steps ∨ step = s := by
  rw [add, List.mem_append, List.mem_singleton]

theorem mem_add (t : Tracing) (s : TraceStep) : s ∈ (t.add s).steps := mem_steps_add.mpr (Or.inr rfl)

/-- A walk keeps `P`, and what it settles about an element stays settled. -/
theorem foldl_settles {α : Type} {f : Tracing → α → Tracing} {P : Tracing → Prop}
    {Q : α → Tracing → Prop} {l : List α}
    (stays : ∀ a t t', t.Grows t' → Q a t → Q a t')
    (step : ∀ a ∈ l, ∀ t, P t → t.Grows (f t a) ∧ P (f t a) ∧ Q a (f t a))
    {t : Tracing} (start : P t) :
    t.Grows (l.foldl f t) ∧ P (l.foldl f t) ∧
      ∀ a ∈ l, Q a (l.foldl f t) := by
  induction l generalizing t with
  | nil => exact ⟨.refl t, start, nofun⟩
  | cons a rest ih =>
      obtain ⟨grows, holds, settled⟩ := step a List.mem_cons_self t start
      obtain ⟨later, last, others⟩ := ih (fun b member => step b (List.mem_cons_of_mem _ member)) holds
      refine ⟨grows.trans later, last, fun b member => ?_⟩
      rcases List.mem_cons.mp member with rfl | among
      · exact stays _ _ _ later settled
      · exact others b among

end Tracing

/-! ## Calls of statements -/

theorem SourceUnit.mem_nodes_of_callsOf {u : SourceUnit} {d : NodeId} {c : Node}
    (makes : c ∈ u.callsOf d) : c ∈ u.nodes := by
  unfold callsOf at makes
  cases found : u.node? d with
  | none => simp [found] at makes
  | some n =>
      rw [found, Option.map_some, Option.getD_some, Kernel.Scope.calls, List.mem_filter] at makes
      obtain ⟨t, tree, below⟩ := List.mem_flatMap.mp (mem_of_node? found).1
      exact mem_nodes_of_tree tree
        (Node.preorder_trans (Node.visit_subset_preorder _ n makes.1) below)

/-- The record notes call `c`, which statement `d` of kernel `b` makes. -/
structure CallRecord.Notes (u : SourceUnit) (g : PropertyGraph) (r : CallRecord) (b : BuiltKernel)
    (d : NodeId) (c : Node) : Prop where
  caller : r.caller = b.kernel
  call : r.call = c.id
  args : r.args = SourceUnit.callArgs c
  target : r.target = (u.callee? c).map (·.id)
  site : (g.node? r.site).bind (·.stmt) = some d

namespace PropertyGraph

variable {u : SourceUnit} {g : PropertyGraph} {b : BuiltKernel} {r : CallRecord}

/-- What traces rely upon. -/
structure Charted (u : SourceUnit) (g : PropertyGraph) : Prop where
  numbered : u.Numbered
  wired : g.Wired u g.calls
  laid : g.Laid u g.calls
  indexed : g.Indexed
  planned : g.Planned u

theorem planned_invariant (u : SourceUnit) : Invariant u (Planned u) where
  forget _ b wired _ planned := planned.forget wired b
  build _ _ wired _ absent planned := planned.buildKernel wired absent
  link _ wired planned := planned.linkCalls wired

theorem history_charted {u : SourceUnit} (numbered : u.Numbered) (cap : Int) (ops : List (GraphOp u)) :
    (history u cap ops).Charted u where
  numbered := numbered
  wired := (history_ordered u cap ops).wired
  laid := history_laid u cap ops
  indexed := history_indexed numbered cap ops
  planned := (planned_invariant u).history nofun ops

theorem mem_recordsFor_iff {k : KernelFn} {flow : FlowGraph} {first : Slot} :
    r ∈ recordsFor u k flow first ↔ ∃ i d c, flow.statements[i]? = some d ∧ c ∈ u.callsOf d ∧
      r = { site := first + (i + 2), call := c.id, args := SourceUnit.callArgs c, caller := k.id,
            target := (u.callee? c).map (·.id) } := by
  rw [recordsFor, List.mem_flatMap]
  constructor
  · rintro ⟨⟨s, d, calls⟩, zipped, made⟩
    obtain ⟨c, listed, rfl⟩ := List.mem_map.mp made
    obtain ⟨i, here⟩ := List.mem_iff_getElem?.mp zipped
    obtain ⟨slot, row⟩ := List.getElem?_zip_eq_some.mp here
    obtain ⟨stands, rfl⟩ : flow.statements[i]? = some d ∧ u.callsOf d = calls := by
      simpa [rowsOf] using row
    obtain rfl : s = first + (i + 2) := getElem?_drop_slotsFrom slot
    exact ⟨i, d, c, stands, listed, rfl⟩
  · rintro ⟨i, d, c, stands, listed, rfl⟩
    have inside := (List.getElem?_eq_some_iff.mp stands).1
    have row : (rowsOf u flow)[i]? = some (d, u.callsOf d) := by simp [rowsOf, stands]
    have slot : ((slotsFrom flow first).drop 2)[i]? = some (first + (i + 2)) := by
      rw [drop_slotsFrom, List.getElem?_range' inside]
      exact congrArg some (by omega)
    refine ⟨(first + (i + 2), d, u.callsOf d), ?_, List.mem_map.mpr ⟨c, listed, rfl⟩⟩
    exact List.mem_of_getElem? (List.getElem?_zip_eq_some.mpr ⟨slot, row⟩)

theorem Wired.canonical_canonical {calls : List CallRecord} (wired : g.Wired u calls) (s : NodeId) :
    g.canonical (g.canonical s) = g.canonical s := by
  rcases canonical_cases (rfl : g.canonical s = g.canonical s) with own | named
  · rw [← own, ← own]
  · obtain ⟨slot, entry⟩ := wired.exists_lookup_of_alias named
    exact canonical_of_indexed (Option.isSome_of_eq_some entry)

namespace Charted

variable (charted : g.Charted u) (built : b ∈ g.built)

include charted built

theorem canonical_eq {s : NodeId} (stands : s ∈ b.stmts) : g.canonical s = s :=
  canonical_of_indexed (charted.indexed.lookup built stands)

theorem infoOf?_eq {s : NodeId} (stands : s ∈ b.stmts) : g.infoOf? s = some b :=
  charted.wired.infoOf?_eq charted.numbered built stands (charted.indexed.lookup built stands)

/-- The node of the `i`-th statement names it and lists its calls. -/
theorem node_of_statement {i : Nat} {d : NodeId} (stands : b.graph.statements[i]? = some d) :
    g.LiveAs (b.entry + (i + 2)) fun n => n.stmt = some d ∧ n.calls = (u.callsOf d).map Node.id := by
  obtain ⟨k, -, describes⟩ := (charted.wired.kernels b built).listed
  have row : (rowsOf u b.graph)[i]? = some (d, u.callsOf d) := by simp [rowsOf, stands]
  have listed : (kernelNodes k (rowsOf u b.graph))[i + 2]? = some
      { kind := if (u.callsOf d).isEmpty then .statement else .callSite, kernel := k.id,
        stmt := some d, calls := (u.callsOf d).map Node.id } := by
    simp [kernelNodes, row]
  refine ((charted.laid.kernels b built).nodes k describes.kernel.symm _ _ listed).imp ?_
  rintro n rfl
  exact ⟨rfl, rfl⟩

/-- Every call of a statement is recorded. -/
theorem record_of_call {d : NodeId} {c : Node} (stands : d ∈ b.stmts) (makes : c ∈ u.callsOf d) :
    ∃ r ∈ g.calls, r.Notes u g b d c := by
  obtain ⟨k, -, describes⟩ := (charted.wired.kernels b built).listed
  obtain ⟨i, here⟩ := List.mem_iff_getElem?.mp (describes.stmts ▸ stands)
  have planned := charted.planned b built k describes.kernel.symm
  obtain ⟨q, listed, rfl⟩ : ∃ q ∈ recordsFor u k b.graph b.entry, q = _ :=
    ⟨_, mem_recordsFor_iff.mpr ⟨i, d, c, here, makes, rfl⟩, rfl⟩
  rw [← planned] at listed
  obtain ⟨r, own, idle⟩ := List.mem_map.mp listed
  obtain ⟨n, atSite, -, named, -⟩ := charted.node_of_statement built here
  have site : r.site = b.entry + (i + 2) := congrArg CallRecord.site idle
  refine ⟨r, (List.mem_filter.mp own).1, ?_, congrArg CallRecord.call idle,
    congrArg CallRecord.args idle, congrArg CallRecord.target idle, ?_⟩
  · exact (congrArg CallRecord.caller idle).trans describes.kernel.symm
  · rw [site, atSite]
    exact named

omit built in
/-- What is known of a statement is that of the built kernel its node stands in. -/
theorem stands_of_infoOf? {s : NodeId} (info : g.infoOf? s = some b) :
    b ∈ g.built ∧ g.canonical s ∈ b.stmts := by
  obtain ⟨slot, found, n, -, known⟩ : ∃ slot, g.slotOf? s = some slot ∧
      ∃ n, g.node? slot = some n ∧ g.builtKernel? n.kernel = some b := by
    simpa [infoOf?, Option.bind_eq_some_iff] using info
  have entry : (g.index.lookup (g.canonical s)).isSome = true := Option.isSome_of_eq_some found
  obtain ⟨front, back, split, -⟩ := List.lookup_eq_some_iff.mp found
  obtain ⟨c, builtC, stands, -⟩ := charted.wired.index (g.canonical s) slot (by simp [split])
  have same := charted.wired.infoOf?_canonical charted.numbered charted.indexed builtC stands rfl
  obtain rfl := Option.some.inj (info.symm.trans same)
  exact ⟨builtC, stands⟩

omit built in
/-- Every record is that of a call of a statement. -/
theorem call_of_record (recorded : r ∈ g.calls) :
    ∃ b ∈ g.built, ∃ d ∈ b.stmts, ∃ c ∈ u.callsOf d, r.Notes u g b d c := by
  obtain ⟨b, built, caller, -⟩ := (charted.wired.records r recorded).caller
  obtain ⟨k, -, describes⟩ := (charted.wired.kernels b built).listed
  have own : r ∈ g.callsFrom b.kernel := List.mem_filter.mpr ⟨recorded, by simp [caller]⟩
  have listed := List.mem_map_of_mem (f := CallRecord.idle) own
  rw [charted.planned b built k describes.kernel.symm, mem_recordsFor_iff] at listed
  obtain ⟨i, d, c, here, makes, idle⟩ := listed
  obtain ⟨n, atSite, -, named, -⟩ := charted.node_of_statement built here
  have site : r.site = b.entry + (i + 2) := congrArg CallRecord.site idle
  refine ⟨b, built, d, describes.stmts ▸ List.mem_of_getElem? here, c, makes, caller.symm,
    congrArg CallRecord.call idle, congrArg CallRecord.args idle, congrArg CallRecord.target idle, ?_⟩
  rw [site, atSite]
  exact named

/-- The node that a statement of a built kernel leads to lists its calls. -/
theorem listedCalls_eq {d : NodeId} (stands : d ∈ b.stmts) :
    ((g.slotOf? d).bind g.node?).map (·.calls) = some ((u.callsOf d).map Node.id) := by
  obtain ⟨s, slot⟩ := Option.isSome_iff_exists.mp (charted.indexed.lookup built stands)
  obtain ⟨front, back, split, -⟩ := List.lookup_eq_some_iff.mp slot
  obtain ⟨c, builtC, -, own, n, here, present, named⟩ := charted.wired.index d s (by simp [split])
  rw [slotOf?, charted.canonical_eq built stands, slot, Option.bind_some, here, Option.map_some]
  obtain ⟨k, -, describes⟩ := (charted.wired.kernels c builtC).listed
  have laid := charted.laid.kernels c builtC
  obtain ⟨i, rfl, inside⟩ := mem_slotsFrom (u := u) (k := k) (laid.slots ▸ own)
  have atSlot := laid.nodes k describes.kernel.symm i _ (List.getElem?_eq_getElem inside)
  rcases i with _ | _ | i
  -- the entry and the exit of the kernel stand for no statement
  iterate 2
    · obtain ⟨m, there, -, made⟩ := atSlot
      obtain rfl : n = m := Option.some.inj (here.symm.trans there)
      cases named.symm.trans (congrArg GraphNode.stmt made)
  · have within : i < c.graph.statements.length := by
      simpa [kernelNodes, rowsOf] using inside
    obtain ⟨m, there, -, other, calls⟩ :=
      charted.node_of_statement builtC (List.getElem?_eq_getElem within)
    obtain rfl : n = m := Option.some.inj (here.symm.trans there)
    obtain rfl := Option.some.inj (other.symm.trans named)
    exact congrArg some calls

end Charted

end PropertyGraph

end Retarget
