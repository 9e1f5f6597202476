/-
# Proofs.DataDependence -- the recorded data dependences are the ones paths make

A flow dependence is a write that reaches a read, an output dependence a write that reaches a
write, an anti dependence a read that reaches a write of another node (`DataDep.Holds`); reaching
means a path without a write of the variable in between.  With one pass more than there are
blocks both analyses converge, so exactly these dependences are found (`mem_dataDeps_iff`), each
once (`dataDeps_nodup`).  The table then holds each in the records of both ends and nowhere else,
once where the ends coincide (`dataDependences_exact`).
-/
import Retarget.Proofs.DefUse
import Retarget.Proofs.Grouping
import Retarget.Proofs.ReachingDefinitions

namespace Retarget

open Retarget.Source (NodeId)

set_option autoImplicit false
set_option linter.dupNamespace false

/-! ## Records -/

namespace DepTable

theorem record_update (t : DepTable) (n m : NodeId) (change : DepRecord → DepRecord) :
    (t.update n change).record m = if m = n then change (t.record m) else t.record m := by
  induction t with
  | nil =>
      by_cases same : m = n
      · subst same
        simp [update, record]
      · simp [update, record, List.lookup_cons, beq_false_of_ne same, same]
  | cons row t ih =>
      obtain ⟨l, r⟩ := row
      rw [update]
      by_cases first : l = n
      · subst first
        by_cases same : m = l
        · subst same
          simp [record]
        · simp [record, List.lookup_cons, beq_false_of_ne same, same]
      · rw [if_neg (by simpa using first)]
        by_cases same : m = l
        · subst same
          simp [record, first]
        · simpa [record, List.lookup_cons, beq_false_of_ne same] using ih

/-- A dependence is entered at its ends, once where they coincide, and nowhere else. -/
theorem record_enter (t : DepTable) (a b m : NodeId) (change : DepRecord → DepRecord) :
    (t.enter a b change).record m
      = if m = a ∨ m = b then change (t.record m) else t.record m := by
  unfold enter
  by_cases loop : b = a
  · subst loop
    simp [record_update]
  · rw [if_neg (by simpa using loop), record_update, record_update]
    by_cases atSource : m = a
    · subst atSource
      simp [Ne.symm loop]
    · simp [atSource]

theorem foldl_addData_data (deps : List DataDep) (t : DepTable) (m : NodeId) :
    ((deps.foldl addData t).record m).data
      = (t.record m).data ++ deps.filter fun d => m = d.source ∨ m = d.sink := by
  induction deps generalizing t with
  | nil => simp
  | cons d deps ih =>
      rw [List.foldl_cons, ih, addData, record_enter, List.filter_cons]
      by_cases touches : m = d.source ∨ m = d.sink <;> simp [touches]

theorem foldl_addControl_data (deps : List ControlDep) (t : DepTable) (m : NodeId) :
    ((deps.foldl addControl t).record m).data = (t.record m).data := by
  induction deps generalizing t with
  | nil => rfl
  | cons d deps ih =>
      rw [List.foldl_cons, ih, addControl, record_enter]
      split <;> rfl

end DepTable

/-! ## Dependences in terms of paths -/

/-- What a data dependence says about paths. -/
def DataDep.Holds (g : FlowGraph) (access : Access) (d : DataDep) : Prop :=
  match d.kind with
  | .flow => d.var ∈ access.uses d.sink ∧ d.var ∈ access.defs d.source ∧
      g.Reaches access d.var d.source d.sink
  | .output => d.var ∈ access.defs d.sink ∧ d.var ∈ access.defs d.source ∧
      g.Reaches access d.var d.source d.sink
  | .anti => d.source ≠ d.sink ∧ d.var ∈ access.uses d.source ∧ d.var ∉ access.defs d.source ∧
      d.var ∈ access.defs d.sink ∧ g.Reaches access d.var d.source d.sink

theorem DataDep.Holds.reaches {g : FlowGraph} {access : Access} {d : DataDep}
    (holds : d.Holds g access) : g.Reaches access d.var d.source d.sink := by
  unfold DataDep.Holds at holds
  split at holds
  · exact holds.2.2
  · exact holds.2.2
  · exact holds.2.2.2.2

theorem FlowGraph.Reaches.mem_statements {g : FlowGraph} {access : Access} {v : String}
    {d s : NodeId} (reaches : g.Reaches access v d s) : d ∈ g.statements ∧ s ∈ g.statements := by
  obtain ⟨p, ns, q, atD, path, atS, clear⟩ := reaches
  exact ⟨FlowGraph.mem_statements.mpr ⟨p, atD⟩, FlowGraph.mem_statements.mpr ⟨q, atS⟩⟩

section Found

variable {g : FlowGraph} {access : Access} {params : List String} {cap : Nat}

theorem mem_depsInto {defs uses : Facts} {n : NodeId} {d : DataDep} :
    d ∈ depsInto g access defs uses n ↔ d.sink = n ∧
      match d.kind with
      | .flow => d.var ∈ access.uses n ∧ d.source ∈ originsOf g defs d.var
      | .output => d.var ∈ access.defs n ∧ d.source ∈ originsOf g defs d.var
      | .anti => d.var ∈ access.defs n ∧ d.source ∈ originsOf g uses d.var ∧ d.source ≠ n := by
  obtain ⟨source, sink, v, kind⟩ := d
  simp only [depsInto, List.mem_append, List.mem_flatMap, List.mem_map, List.mem_filter,
    DataDep.mk.injEq, bne_iff_ne, ne_eq]
  cases kind <;> grind

/-- The definitions before a node, as a settled analysis finds them. -/
theorem mem_originsOf_defs (distinct : g.statements.Nodup) (enough : g.size + 1 ≤ cap)
    {d s : NodeId} {v : String} :
    d ∈ originsOf g ((analyzeFlow g access params cap).factsBefore s) v ↔
      v ∈ access.defs d ∧ g.Reaches access v d s := by
  have converged : (analyzeFlow g access params cap).converged = true :=
    (reachingDefs_separable access params).solve_converged enough
  constructor
  · intro listed
    exact (reaches_of_mem_originsOf distinct listed).2
  · rintro ⟨defines, reaches⟩
    exact mem_originsOf_of_reaches distinct converged defines reaches

/-- The reads found before each node. -/
def usesBefore (g : FlowGraph) (access : Access) (cap : Nat) : List (NodeId × Facts) :=
  (reachingUses access).before g ((reachingUses access).solve g cap).outs

theorem mem_originsOf_uses (distinct : g.statements.Nodup) (enough : g.size + 1 ≤ cap)
    {r s : NodeId} {v : String} (stands : s ∈ g.statements) :
    r ∈ originsOf g (((usesBefore g access cap).lookup s).getD []) v ↔
      v ∈ access.uses r ∧ v ∉ access.defs r ∧ g.Reaches access v r s := by
  have separable := reachingUses_separable access
  have fresh : (⟨v, some r⟩ : Fact) ∉ (reachingUses access).onEntry := List.not_mem_nil
  have settled : (reachingUses access).Settled g ((reachingUses access).solve g cap).outs :=
    ForwardAnalysis.settled_of_converged (separable.solve_converged enough)
  obtain ⟨p, here⟩ := FlowGraph.mem_statements.mp stands
  have inside : p.offset ≤ (g.nodes p.block).length :=
    Nat.le_of_lt (List.getElem?_eq_some_iff.mp here).1
  have arrival : (reachingUses access).Arrives access
        (fun n w => w ∈ access.uses n ∧ w ∉ access.defs n) g ⟨v, some r⟩ p ↔
      (v ∈ access.uses r ∧ v ∉ access.defs r) ∧ g.Reaches access v r s :=
    arrives_some_iff fresh distinct here
  rw [mem_originsOf, usesBefore, ForwardAnalysis.lookup_before distinct here, Option.getD_some,
    ← and_assoc]
  constructor
  · rintro ⟨-, found⟩
    exact arrival.mp (separable.arrives_of_mem_factsAt cap inside found)
  · rintro ⟨made, reaches⟩
    exact ⟨reaches.mem_statements.1,
      separable.mem_factsAt_of_arrives settled (arrival.mpr ⟨made, reaches⟩)⟩

/-- The list of all data dependences found in a graph, in the order they are entered. -/
def foundDeps (g : FlowGraph) (access : Access) (params : List String) (cap : Nat) :
    List DataDep :=
  dataDeps g access (analyzeFlow g access params cap).defsBefore (usesBefore g access cap)

theorem mem_dataDeps_iff (distinct : g.statements.Nodup) (enough : g.size + 1 ≤ cap)
    {d : DataDep} : d ∈ foundDeps g access params cap ↔ d.Holds g access := by
  have atSink : ∀ n ∈ g.statements, d ∈ depsInto g access
        ((analyzeFlow g access params cap).factsBefore n)
        (((usesBefore g access cap).lookup n).getD []) n ↔ d.sink = n ∧ d.Holds g access := by
    intro n stands
    rw [mem_depsInto]
    apply and_congr_right
    rintro rfl
    unfold DataDep.Holds
    cases d.kind with
    | flow => simp only [mem_originsOf_defs distinct enough]
    | output => simp only [mem_originsOf_defs distinct enough]
    | anti =>
        simp only [mem_originsOf_uses distinct enough stands, ne_eq]
        grind
  simp only [foundDeps, dataDeps, List.mem_flatMap]
  constructor
  · rintro ⟨n, stands, found⟩
    exact ((atSink n stands).mp found).2
  · intro holds
    have stands := holds.reaches.mem_statements.2
    exact ⟨d.sink, stands, (atSink _ stands).mpr ⟨rfl, holds⟩⟩

/-! ## Each dependence once -/

theorem originsOf_nodup (distinct : g.statements.Nodup) (facts : Facts) (v : String) :
    (originsOf g facts v).Nodup := distinct.filter _

theorem depsInto_nodup (distinct : g.statements.Nodup) (once : access.Distinct)
    (defs uses : Facts) (n : NodeId) : (depsInto g access defs uses n).Nodup := by
  have mapped : ∀ {ds : List NodeId} (v : String) (kind : DepKind), ds.Nodup →
      (ds.map fun d => (⟨d, n, v, kind⟩ : DataDep)).Nodup := by
    intro ds v kind each
    refine each.map ?_
    intro d d' same
    exact congrArg DataDep.source same
  unfold depsInto
  refine List.nodup_append.mpr ⟨?_, ?_, ?_⟩
  · refine nodup_flatMap_of_key DataDep.var (once.uses n) ?_ ?_
    · intro v _
      exact mapped v .flow (originsOf_nodup distinct defs v)
    · intro v _ d listed
      obtain ⟨_, _, rfl⟩ := List.mem_map.mp listed
      rfl
  · refine nodup_flatMap_of_key DataDep.var (once.defs n) ?_ ?_
    · intro v _
      refine List.nodup_append.mpr ⟨?_, ?_, ?_⟩
      · exact mapped v .anti ((originsOf_nodup distinct uses v).filter _)
      · exact mapped v .output (originsOf_nodup distinct defs v)
      · intro d left d' right same
        obtain ⟨_, _, rfl⟩ := List.mem_map.mp left
        obtain ⟨_, _, rfl⟩ := List.mem_map.mp right
        cases congrArg DataDep.kind same
    · intro v _ d listed
      rcases List.mem_append.mp listed with listed | listed <;>
        obtain ⟨_, _, rfl⟩ := List.mem_map.mp listed <;> rfl
  · -- A flow dependence is of another kind than what a write brings.
    intro d left d' right same
    subst same
    simp only [List.mem_flatMap, List.mem_append, List.mem_map] at left right
    grind

theorem dataDeps_nodup (distinct : g.statements.Nodup) (once : access.Distinct) :
    (foundDeps g access params cap).Nodup := by
  refine nodup_flatMap_of_key DataDep.sink distinct ?_ ?_
  · intro n _
    exact depsInto_nodup distinct once _ _ n
  · intro n _ d listed
    exact (mem_depsInto.mp listed).1

end Found

theorem record_data (g : FlowGraph) (access : Access) (params : List String) (cap : Nat)
    (n : NodeId) : ((analyzeFlow g access params cap).deps.record n).data
      = (foundDeps g access params cap).filter fun d => n = d.source ∨ n = d.sink := by
  simp only [analyzeFlow, DepTable.foldl_addControl_data, DepTable.foldl_addData_data]
  rfl

/-- With one pass more than there are blocks, the recorded data dependences are exactly those
that paths make.  Each is in the records of its source and of its sink, once each and once in
all where they coincide, and nowhere else; so over all nodes the records a node is the source
of name every dependence once. -/
theorem dataDependences_exact (u : SourceUnit) (g : FlowGraph) (params : List String) (cap : Nat)
    (distinct : g.statements.Nodup) (enough : g.size + 1 ≤ cap) :
    let access := u.accessTo g.statements
    let deps := (analyzeFlow g access params cap).deps
    (∀ d : DataDep, (∃ n, d ∈ (deps.record n).data) ↔ d.Holds g access) ∧
    (∀ d : DataDep, d.Holds g access → ∀ n,
      (deps.record n).data.count d = if n = d.source ∨ n = d.sink then 1 else 0) ∧
    ∀ d : DataDep, d.Holds g access →
      (g.statements.flatMap fun n => (deps.record n).data.filter (·.source == n)).count d = 1 := by
  intro access deps
  have once : (foundDeps g access params cap).Nodup :=
    dataDeps_nodup distinct (u.accessTo_distinct g.statements)
  have found : ∀ d, d ∈ foundDeps g access params cap ↔ d.Holds g access :=
    fun d => mem_dataDeps_iff distinct enough
  have listed : ∀ n d, d ∈ (deps.record n).data ↔
      d.Holds g access ∧ (n = d.source ∨ n = d.sink) := by
    intro n d
    rw [record_data, List.mem_filter, found]
    simp
  refine ⟨fun d => ?_, fun d holds n => ?_, fun d holds => ?_⟩
  · constructor
    · rintro ⟨n, member⟩
      exact ((listed n d).mp member).1
    · intro holds
      exact ⟨d.source, (listed _ d).mpr ⟨holds, Or.inl rfl⟩⟩
  · have single : (deps.record n).data.Nodup := by
      rw [record_data]
      exact once.filter _
    split
    · rename_i touches
      exact List.count_eq_one_of_mem single ((listed n d).mpr ⟨holds, touches⟩)
    · rename_i apart
      exact List.count_eq_zero.mpr fun member => apart ((listed n d).mp member).2
  · refine List.count_eq_one_of_mem ?_ ?_
    · refine nodup_flatMap_of_key DataDep.source distinct ?_ ?_
      · intro n _
        rw [record_data]
        exact (once.filter _).filter _
      · intro n _ d' member
        exact beq_iff_eq.mp (List.mem_filter.mp member).2
    · refine List.mem_flatMap.mpr ⟨d.source, holds.reaches.mem_statements.1, ?_⟩
      exact List.mem_filter.mpr ⟨(listed _ d).mpr ⟨holds, Or.inl rfl⟩, by simp⟩

/-- The body of a kernel that sets a variable and steps it in a loop. -/
def countingBody : Source.Node :=
  let x := fun id => Source.Node.name ⟨id, 0, 0⟩ "x"
  .block ⟨0, 0, 0⟩ [
    .assign ⟨1, 0, 0⟩ .define [x 4] [.name ⟨5, 0, 0⟩ "n"],
    .forStmt ⟨6, 0, 0⟩ none (some (x 2)) none (.block ⟨7, 0, 0⟩ [.step ⟨3, 0, 0⟩ false (x 8)])]

def countingUnit : SourceUnit where
  file := "count"
  lines := default
  scope := {}
  kernels := [
    { id := 0
      name := "count"
      params := [⟨"n", "int", 0⟩]
      result := "void"
      start := 0
      stop := 0
      body := some countingBody
      fallOff := .ret ⟨9, 0, 0⟩ []
      vars := [] }]

/-- The step in the loop depends on itself, and its record says so once. -/
theorem dataDependences_exact_loop :
    countingLoop.statements.Nodup ∧ countingLoop.size + 1 ≤ 5 ∧
    let access := countingUnit.accessTo countingLoop.statements
    (⟨3, 3, "x", .flow⟩ : DataDep).Holds countingLoop access ∧
    ((analyzeFlow countingLoop access ["n"] 5).deps.record 3).data.count ⟨3, 3, "x", .flow⟩ = 1 := by
  have distinct : countingLoop.statements.Nodup := by decide
  have enough : countingLoop.size + 1 ≤ 5 := by decide
  obtain ⟨exactly, counted, -⟩ :=
    dataDependences_exact countingUnit countingLoop ["n"] 5 distinct enough
  have holds := (exactly ⟨3, 3, "x", .flow⟩).mp ⟨3, by decide⟩
  exact ⟨distinct, enough, holds, counted _ holds 3⟩

end Retarget
