/-
# Proofs.ReachingDefinitions -- definitions that reach a node, and reads that do

Both analyses of a kernel are separable: a node ends every fact about what it writes; the first
one records the node's writes, the second those of its reads that it does not overwrite itself
(`reachingDefs_separable`, `reachingUses_separable`).  So the facts before a node are the facts
that paths bring there.  `reachingDefinitions_exact` says it for definitions: those reported
reach the node along a path without another write, whatever the cap on the passes was, and when
the passes converged none is missing.
-/
import Retarget.Flow.Dependence
import Retarget.Proofs.Dataflow
import Retarget.PropertyGraph.Query

namespace Retarget

open Retarget.Source (NodeId)

set_option autoImplicit false
set_option linter.dupNamespace false

/-! ## The two analyses treat every fact on its own -/

theorem mem_writeAll {n : NodeId} {vs : List String} {facts : Facts} {f : Fact} :
    f ∈ vs.foldl (fun st v => ⟨v, some n⟩ :: Facts.without st v) facts ↔
      (f.origin = some n ∧ f.var ∈ vs) ∨ (f ∈ facts ∧ f.var ∉ vs) := by
  induction vs generalizing facts with
  | nil => simp
  | cons v vs ih =>
      have written : f = ⟨v, some n⟩ ↔ f.var = v ∧ f.origin = some n := by
        cases f
        simp
      simp only [List.foldl_cons, ih, List.mem_cons, Facts.mem_without, written]
      grind

theorem mem_readAll {n : NodeId} {vs : List String} {facts : Facts} {f : Fact} :
    f ∈ vs.foldl (fun st v => Facts.join st [⟨v, some n⟩]) facts ↔
      f ∈ facts ∨ (f.origin = some n ∧ f.var ∈ vs) := by
  induction vs generalizing facts with
  | nil => simp
  | cons v vs ih =>
      have read : f = ⟨v, some n⟩ ↔ f.var = v ∧ f.origin = some n := by
        cases f
        simp
      simp only [List.foldl_cons, ih, Facts.mem_join, List.mem_cons, List.not_mem_nil, or_false,
        read]
      grind

theorem mem_dropAll {vs : List String} {facts : Facts} {f : Fact} :
    f ∈ vs.foldl Facts.without facts ↔ f ∈ facts ∧ f.var ∉ vs := by
  induction vs generalizing facts with
  | nil => simp
  | cons v vs ih =>
      simp only [List.foldl_cons, ih, Facts.mem_without, List.mem_cons]
      grind

theorem reachingDefs_separable (access : Access) (params : List String) :
    (reachingDefs access params).Separable access (fun n v => v ∈ access.defs n) :=
  ⟨fun _ _ _ => mem_writeAll⟩

theorem reachingUses_separable (access : Access) :
    (reachingUses access).Separable access
      (fun n v => v ∈ access.uses n ∧ v ∉ access.defs n) := by
  refine ⟨fun n facts f => ?_⟩
  have both : f ∈ (reachingUses access).transfer n facts ↔
      (f ∈ facts ∨ (f.origin = some n ∧ f.var ∈ access.uses n)) ∧ f.var ∉ access.defs n := by
    rw [← mem_readAll]
    exact mem_dropAll
  rw [both]
  grind

theorem mem_reachingDefs_onEntry {access : Access} {params : List String} {f : Fact} :
    f ∈ (reachingDefs access params).onEntry ↔ f.origin = none ∧ f.var ∈ params := by
  obtain ⟨v, origin⟩ := f
  simp only [reachingDefs, Facts.mem_join, List.not_mem_nil, false_or, List.mem_map,
    Fact.mk.injEq]
  constructor
  · rintro ⟨p, listed, rfl, rfl⟩
    exact ⟨rfl, listed⟩
  · rintro ⟨rfl, listed⟩
    exact ⟨v, listed, rfl, rfl⟩

/-! ## Arrival in terms of nodes -/

section Arrival

variable {access : Access} {params : List String} {g : FlowGraph} {p : Point} {s d : NodeId}
variable {v : String}

/-- A fact with a node as its origin arrives right before `s` if the node makes it and a path
without a write of the variable leads from there to `s`. -/
theorem arrives_some_iff {a : ForwardAnalysis} {makes : NodeId → String → Prop}
    (fresh : (⟨v, some d⟩ : Fact) ∉ a.onEntry) (distinct : g.statements.Nodup)
    (here : g.At p s) :
    a.Arrives access makes g ⟨v, some d⟩ p ↔ makes d v ∧ g.Reaches access v d s := by
  constructor
  · rintro (⟨known, -⟩ | ⟨e, q, ns, origin, makesIt, atE, path, clear⟩)
    · exact absurd known fresh
    · obtain rfl : d = e := Option.some.inj origin
      exact ⟨makesIt, q, ns, p, atE, path, here, clear⟩
  · rintro ⟨makesIt, q, ns, r, atD, path, there, clear⟩
    obtain rfl := there.unique distinct here
    exact Or.inr ⟨d, q, ns, rfl, makesIt, atD, path, clear⟩

theorem arrives_none_iff (distinct : g.statements.Nodup) (here : g.At p s) :
    (reachingDefs access params).Arrives access (fun n w => w ∈ access.defs n) g ⟨v, none⟩ p ↔
      v ∈ params ∧ g.EntryReaches access v s := by
  constructor
  · rintro (⟨known, ns, path, clear⟩ | ⟨e, -, -, origin, -⟩)
    · exact ⟨(mem_reachingDefs_onEntry.mp known).2, ns, p, path, here, clear⟩
    · cases origin
  · rintro ⟨listed, ns, q, path, there, clear⟩
    obtain rfl := there.unique distinct here
    exact Or.inl ⟨mem_reachingDefs_onEntry.mpr ⟨rfl, listed⟩, ns, path, clear⟩

end Arrival

/-! ## Reported and reaching definitions -/

section Reported

variable {g : FlowGraph} {access : Access} {params : List String} {cap : Nat} {s d : NodeId}
variable {v : String}

theorem mem_originsOf {facts : Facts} :
    d ∈ originsOf g facts v ↔ d ∈ g.statements ∧ (⟨v, some d⟩ : Fact) ∈ facts := by
  simp [originsOf]

theorem factsBefore_eq (distinct : g.statements.Nodup) {p : Point} (here : g.At p s) :
    (analyzeFlow g access params cap).factsBefore s =
      (reachingDefs access params).factsAt g ((reachingDefs access params).solve g cap).outs p := by
  simp only [FlowFacts.factsBefore, analyzeFlow,
    ForwardAnalysis.lookup_before (a := reachingDefs access params) distinct here, Option.getD_some]

theorem factsBefore_absent (absent : s ∉ g.statements) :
    (analyzeFlow g access params cap).factsBefore s = [] := by
  simp only [FlowFacts.factsBefore, analyzeFlow,
    ForwardAnalysis.lookup_before_absent (a := reachingDefs access params) absent, Option.getD_none]

theorem fresh_origin : (⟨v, some d⟩ : Fact) ∉ (reachingDefs access params).onEntry := by
  simp [mem_reachingDefs_onEntry]

/-- A fact found before a node was brought there by a path. -/
theorem at_of_mem_factsBefore {f : Fact}
    (found : f ∈ (analyzeFlow g access params cap).factsBefore s) : ∃ p, g.At p s := by
  by_contra nowhere
  rw [factsBefore_absent fun stands => nowhere (FlowGraph.mem_statements.mp stands)] at found
  cases found

theorem mem_factsBefore_arrives (distinct : g.statements.Nodup) {p : Point} (here : g.At p s)
    {f : Fact} (found : f ∈ (analyzeFlow g access params cap).factsBefore s) :
    (reachingDefs access params).Arrives access (fun n w => w ∈ access.defs n) g f p := by
  rw [factsBefore_eq distinct here] at found
  have inside : p.offset ≤ (g.nodes p.block).length :=
    Nat.le_of_lt (List.getElem?_eq_some_iff.mp here).1
  exact (reachingDefs_separable access params).arrives_of_mem_factsAt cap inside found

theorem arrives_mem_factsBefore (distinct : g.statements.Nodup)
    (converged : (analyzeFlow g access params cap).converged = true) {p : Point}
    (here : g.At p s) {f : Fact}
    (arrives : (reachingDefs access params).Arrives access (fun n w => w ∈ access.defs n) g f p) :
    f ∈ (analyzeFlow g access params cap).factsBefore s := by
  rw [factsBefore_eq distinct here]
  exact (reachingDefs_separable access params).mem_factsAt_of_arrives
    (ForwardAnalysis.settled_of_converged converged) arrives

theorem reaches_of_mem_originsOf (distinct : g.statements.Nodup)
    (listed : d ∈ originsOf g ((analyzeFlow g access params cap).factsBefore s) v) :
    d ∈ g.statements ∧ v ∈ access.defs d ∧ g.Reaches access v d s := by
  obtain ⟨stands, found⟩ := mem_originsOf.mp listed
  obtain ⟨p, here⟩ := at_of_mem_factsBefore found
  have arrives := mem_factsBefore_arrives distinct here found
  exact ⟨stands, (arrives_some_iff fresh_origin distinct here).mp arrives⟩

theorem mem_originsOf_of_reaches (distinct : g.statements.Nodup)
    (converged : (analyzeFlow g access params cap).converged = true)
    (defines : v ∈ access.defs d) (reaches : g.Reaches access v d s) :
    d ∈ originsOf g ((analyzeFlow g access params cap).factsBefore s) v := by
  obtain ⟨p, ns, q, atD, path, here, clear⟩ := reaches
  refine mem_originsOf.mpr ⟨FlowGraph.mem_statements.mpr ⟨p, atD⟩, ?_⟩
  refine arrives_mem_factsBefore distinct converged here ?_
  exact (arrives_some_iff fresh_origin distinct here).mpr
    ⟨defines, p, ns, q, atD, path, here, clear⟩

theorem entryReaches_of_isIncoming (distinct : g.statements.Nodup)
    (incoming : (analyzeFlow g access params cap).isIncoming s v = true) :
    v ∈ params ∧ g.EntryReaches access v s := by
  have found : (⟨v, none⟩ : Fact) ∈ (analyzeFlow g access params cap).factsBefore s := by
    simpa [FlowFacts.isIncoming] using incoming
  obtain ⟨p, here⟩ := at_of_mem_factsBefore found
  exact (arrives_none_iff distinct here).mp (mem_factsBefore_arrives distinct here found)

theorem isIncoming_of_entryReaches (distinct : g.statements.Nodup)
    (converged : (analyzeFlow g access params cap).converged = true) (listed : v ∈ params)
    (reaches : g.EntryReaches access v s) :
    (analyzeFlow g access params cap).isIncoming s v = true := by
  obtain ⟨ns, p, path, here, clear⟩ := reaches
  have found : (⟨v, none⟩ : Fact) ∈ (analyzeFlow g access params cap).factsBefore s :=
    arrives_mem_factsBefore distinct converged here
      ((arrives_none_iff distinct here).mpr ⟨listed, ns, p, path, here, clear⟩)
  simpa [FlowFacts.isIncoming] using found

end Reported

/-- The definitions and incoming parameters reported before a node are brought there by paths
without another write, whatever the cap; once the passes have converged the report is complete,
and so is what the property graph answers for any statement the node stands for. -/
theorem reachingDefinitions_exact (g : FlowGraph) (access : Access) (params : List String)
    (cap : Nat) (distinct : g.statements.Nodup) (s : NodeId) (v : String) :
    let facts := analyzeFlow g access params cap
    (∀ d ∈ originsOf g (facts.factsBefore s) v,
      d ∈ g.statements ∧ v ∈ access.defs d ∧ g.Reaches access v d s) ∧
    (facts.isIncoming s v = true → v ∈ params ∧ g.EntryReaches access v s) ∧
    (facts.converged = true →
      (∀ d, v ∈ access.defs d → g.Reaches access v d s →
        d ∈ originsOf g (facts.factsBefore s) v) ∧
      (v ∈ params → g.EntryReaches access v s → facts.isIncoming s v = true) ∧
      ∀ (pg : PropertyGraph) (k : BuiltKernel) (t : NodeId), pg.infoOf? t = some k →
        k.graph = g → k.facts = facts → pg.canonical t = s →
          ∀ d, d ∈ pg.definitions t v ↔ v ∈ access.defs d ∧ g.Reaches access v d s) := by
  intro facts
  refine ⟨fun d listed => reaches_of_mem_originsOf distinct listed,
    entryReaches_of_isIncoming distinct, fun converged => ?_⟩
  have complete : ∀ d, v ∈ access.defs d → g.Reaches access v d s →
      d ∈ originsOf g (facts.factsBefore s) v :=
    fun d defines reaches => mem_originsOf_of_reaches distinct converged defines reaches
  refine ⟨complete, isIncoming_of_entryReaches distinct converged, ?_⟩
  intro pg k t known sameGraph sameFacts stands d
  have answer : pg.definitions t v = originsOf g (facts.factsBefore s) v := by
    simp only [PropertyGraph.definitions, known, sameGraph, sameFacts, stands]
  rw [answer]
  exact ⟨fun listed => (reaches_of_mem_originsOf distinct listed).2,
    fun ⟨defines, reaches⟩ => complete d defines reaches⟩

/-- Node 1 sets a variable, node 2 tests it and node 3 steps it in a loop. -/
def countingLoop : FlowGraph where
  blocks := [
    ⟨.body, [1], [(1, .always)], none⟩,
    ⟨.forLoop, [2], [(2, .taken), (3, .skipped)], none⟩,
    ⟨.forBody, [3], [(1, .always)], none⟩,
    ⟨.exit, [], [], none⟩]

def countingAccess : Access where
  defs n := if n = 2 then [] else ["x"]
  uses n := if n = 1 then [] else ["x"]

/-- In the loop the step's own definition comes round to it again, and that of the entry never
gets there. -/
theorem reachingDefinitions_exact_loop :
    countingLoop.statements.Nodup ∧
    originsOf countingLoop ((analyzeFlow countingLoop countingAccess ["x"] 5).factsBefore 3) "x"
      = [1, 3] ∧
    countingLoop.Reaches countingAccess "x" 3 3 ∧
    ¬ countingLoop.EntryReaches countingAccess "x" 3 := by
  have distinct : countingLoop.statements.Nodup := by decide
  have reported : originsOf countingLoop
      ((analyzeFlow countingLoop countingAccess ["x"] 5).factsBefore 3) "x" = [1, 3] := by decide
  obtain ⟨sound, -, complete⟩ :=
    reachingDefinitions_exact countingLoop countingAccess ["x"] 5 distinct 3 "x"
  have round := (sound 3 (by rw [reported]; decide)).2.2
  refine ⟨distinct, reported, round, fun reaches => ?_⟩
  have incoming := (complete (by decide)).2.1 (by decide) reaches
  revert incoming
  decide

end Retarget
