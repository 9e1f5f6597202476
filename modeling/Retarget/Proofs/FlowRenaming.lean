/-
# Proofs.FlowRenaming -- nodes by other numbers

The analyses of a flow graph tell nodes apart and look at nothing else of them.  So where the nodes
of a graph get other numbers, each its own, and write and read what they did, everything the
analyses say is said of the new numbers (`analyzeFlow_relabel`): one lemma for every function, from
the sets of facts over the passes to the tables of dependences.
-/
import Retarget.Flow.Dependence
import Mathlib.Data.List.Basic

namespace Retarget

open Retarget.Source (NodeId)

set_option autoImplicit false
set_option linter.dupNamespace false

/-! ## Renamed data -/

def Block.relabel (ρ : NodeId → NodeId) (b : Block) : Block :=
  { b with nodes := b.nodes.map ρ, branch := b.branch.map ρ }

def FlowGraph.relabel (ρ : NodeId → NodeId) (g : FlowGraph) : FlowGraph :=
  ⟨g.blocks.map (Block.relabel ρ)⟩

def Fact.relabel (ρ : NodeId → NodeId) (f : Fact) : Fact := { f with origin := f.origin.map ρ }

def Facts.relabel (ρ : NodeId → NodeId) (facts : Facts) : Facts := facts.map (Fact.relabel ρ)

/-- A table of facts by node. -/
def relabelRows (ρ : NodeId → NodeId) (rows : List (NodeId × Facts)) : List (NodeId × Facts) :=
  rows.map fun (n, facts) => (ρ n, facts.relabel ρ)

def DataDep.relabel (ρ : NodeId → NodeId) (d : DataDep) : DataDep :=
  { d with source := ρ d.source, sink := ρ d.sink }

def ControlDep.relabel (ρ : NodeId → NodeId) (d : ControlDep) : ControlDep :=
  { d with controller := ρ d.controller, dependent := ρ d.dependent }

def DepRecord.relabel (ρ : NodeId → NodeId) (r : DepRecord) : DepRecord :=
  ⟨r.data.map (DataDep.relabel ρ), r.control.map (ControlDep.relabel ρ)⟩

def DepTable.relabel (ρ : NodeId → NodeId) (t : DepTable) : DepTable :=
  t.map fun (n, r) => (ρ n, r.relabel ρ)

/-- The second facts say of the new numbers what the first say of the old ones. -/
structure FlowFacts.Renames (ρ : NodeId → NodeId) (f f' : FlowFacts) : Prop where
  defsBefore : f'.defsBefore = relabelRows ρ f.defsBefore
  passes : f'.passes = f.passes
  converged : f'.converged = f.converged
  usesPasses : f'.usesPasses = f.usesPasses
  usesConverged : f'.usesConverged = f.usesConverged
  postDoms : f'.postDoms = f.postDoms
  deps : f'.deps = f.deps.relabel ρ

variable {ρ : NodeId → NodeId}

/-! ## Graphs -/

namespace FlowGraph

variable (ρ) (g : FlowGraph)

@[simp] theorem size_relabel : (g.relabel ρ).size = g.size := List.length_map _

@[simp] theorem entry_relabel : (g.relabel ρ).entry = g.entry := rfl

@[simp] theorem exit_relabel : (g.relabel ρ).exit = g.exit := by rw [exit, size_relabel, exit]

theorem block?_relabel (i : Nat) : (g.relabel ρ).block? i = (g.block? i).map (Block.relabel ρ) :=
  List.getElem?_map

@[simp] theorem nodes_relabel (i : Nat) : (g.relabel ρ).nodes i = (g.nodes i).map ρ := by
  rw [nodes, block?_relabel, nodes]
  cases g.block? i <;> rfl

@[simp] theorem labeledSuccs_relabel (i : Nat) : (g.relabel ρ).labeledSuccs i = g.labeledSuccs i := by
  rw [labeledSuccs, block?_relabel, labeledSuccs]
  cases g.block? i <;> rfl

@[simp] theorem succs_relabel (i : Nat) : (g.relabel ρ).succs i = g.succs i := by
  rw [succs, labeledSuccs_relabel, succs]

@[simp] theorem preds_relabel (i : Nat) : (g.relabel ρ).preds i = g.preds i := by
  simp only [preds, size_relabel, succs_relabel]

@[simp] theorem statements_relabel : (g.relabel ρ).statements = g.statements.map ρ := by
  simp only [statements, relabel, List.flatMap_map, List.map_flatMap]
  rfl

theorem nodes_subset_statements (i : Nat) : g.nodes i ⊆ g.statements := by
  intro n member
  rw [nodes] at member
  cases found : g.block? i with
  | none => simp [found] at member
  | some b => exact List.mem_flatMap.mpr ⟨b, List.mem_of_getElem? found, by simpa [found] using member⟩

/-- Post-dominators are a matter of the edges. -/
@[simp] theorem postDominators_relabel (cap : Nat) :
    (g.relabel ρ).postDominators cap = g.postDominators cap := by
  have step : (g.relabel ρ).postDomStep = g.postDomStep := by
    funext sets i
    rw [postDomStep, succs_relabel, size_relabel, postDomStep]
  have visit : (g.relabel ρ).postDomVisit = g.postDomVisit := by
    funext state i
    rw [postDomVisit, step, exit_relabel, postDomVisit]
  have pass : (g.relabel ρ).postDomPass = g.postDomPass := by
    funext sets
    rw [postDomPass, visit, size_relabel, postDomPass]
  have iterate (cap : Nat) (sets : List BlockSet) :
      (g.relabel ρ).postDomIterate cap sets = g.postDomIterate cap sets := by
    induction cap generalizing sets with
    | zero => rfl
    | succ cap ih =>
        rw [postDomIterate, pass, postDomIterate]
        rcases g.postDomPass sets with ⟨sets, _ | _⟩
        · rfl
        · exact ih sets
  simp only [postDominators, iterate, exit_relabel, size_relabel]

end FlowGraph

/-! ## Sets of facts -/

section Injective

variable (inj : Function.Injective ρ)

include inj

theorem Fact.relabel_injective : Function.Injective (Fact.relabel ρ) := by
  rintro ⟨v, o⟩ ⟨w, p⟩ same
  simp only [relabel, Fact.mk.injEq] at same
  rw [same.1, Option.map_injective inj same.2]

namespace Facts

theorem contains_relabel (facts : Facts) (f : Fact) :
    (facts.relabel ρ).contains (f.relabel ρ) = facts.contains f := by
  rw [Bool.eq_iff_iff, List.contains_iff_mem, List.contains_iff_mem]
  exact List.mem_map_of_injective (Fact.relabel_injective inj)

theorem join_relabel (a b : Facts) : join (a.relabel ρ) (b.relabel ρ) = (join a b).relabel ρ := by
  induction b generalizing a with
  | nil => rfl
  | cons f b ih =>
      have unfolded (a b : Facts) (f : Fact) :
          join a (f :: b) = join (if a.contains f then a else f :: a) b := rfl
      have shape : relabel ρ (f :: b) = f.relabel ρ :: relabel ρ b := rfl
      rw [shape, unfolded, unfolded, contains_relabel inj, ← ih]
      split <;> rfl

theorem same_relabel (a b : Facts) : same (a.relabel ρ) (b.relabel ρ) = same a b := by
  have subset (a b : Facts) : isSubset (a.relabel ρ) (b.relabel ρ) = isSubset a b := by
    rw [isSubset, isSubset, relabel, List.all_map]
    exact congrArg a.all (funext fun f => contains_relabel inj b f)
  rw [same, same, subset, subset]

omit inj in
theorem without_relabel (facts : Facts) (var : String) :
    without (facts.relabel ρ) var = (without facts var).relabel ρ := by
  rw [without, relabel, List.filter_map]
  rfl

end Facts

/-! ## Solving an analysis -/

namespace ForwardAnalysis

/-- The second analysis does to facts about the new numbers what the first does to those about the
old ones, at these nodes. -/
structure Renames (ρ : NodeId → NodeId) (stmts : List NodeId) (a a' : ForwardAnalysis) : Prop where
  onEntry : a'.onEntry = a.onEntry.relabel ρ
  transfer : ∀ n ∈ stmts, ∀ facts, a'.transfer (ρ n) (facts.relabel ρ) = (a.transfer n facts).relabel ρ

variable {a a' : ForwardAnalysis} {g : FlowGraph} (renames : Renames ρ g.statements a a')

include renames

theorem inflow_relabel (outs : List Facts) (i : Nat) :
    a'.inflow (g.relabel ρ) (outs.map (Facts.relabel ρ)) i = (a.inflow g outs i).relabel ρ := by
  have fold (ps : List Nat) (start : Facts) :
      ps.foldl (fun acc p => Facts.join acc ((outs.map (Facts.relabel ρ)).getD p [])) (start.relabel ρ)
        = (ps.foldl (fun acc p => Facts.join acc (outs.getD p [])) start).relabel ρ := by
    induction ps generalizing start with
    | nil => rfl
    | cons p ps ih =>
        have delivered : (outs.map (Facts.relabel ρ)).getD p [] = (outs.getD p []).relabel ρ := by
          simp only [List.getD_eq_getElem?_getD, List.getElem?_map]
          cases outs[p]? <;> rfl
        rw [List.foldl_cons, delivered, Facts.join_relabel inj, ih, List.foldl_cons]
  rw [inflow, FlowGraph.preds_relabel, FlowGraph.entry_relabel, inflow, ← fold]
  split
  · rw [renames.onEntry]
  · rfl

omit inj in
theorem through_relabel {nodes : List NodeId} (inside : nodes ⊆ g.statements) (facts : Facts) :
    a'.through (nodes.map ρ) (facts.relabel ρ) = (a.through nodes facts).relabel ρ := by
  rw [through, through]
  induction nodes generalizing facts with
  | nil => rfl
  | cons n nodes ih =>
      obtain ⟨here, rest⟩ := List.cons_subset.mp inside
      rw [List.map_cons, List.foldl_cons, renames.transfer n here, ih rest, List.foldl_cons]

theorem visitBlock_relabel (state : List Facts × Bool) (i : Nat) :
    a'.visitBlock (g.relabel ρ) (state.1.map (Facts.relabel ρ), state.2) i
      = ((a.visitBlock g state i).1.map (Facts.relabel ρ), (a.visitBlock g state i).2) := by
  have next : a'.through ((g.relabel ρ).nodes i)
      (a'.inflow (g.relabel ρ) (state.1.map (Facts.relabel ρ)) i)
        = (a.through (g.nodes i) (a.inflow g state.1 i)).relabel ρ := by
    rw [inflow_relabel inj renames, FlowGraph.nodes_relabel,
      through_relabel renames (g.nodes_subset_statements i)]
  have known : (state.1.map (Facts.relabel ρ)).getD i [] = (state.1.getD i []).relabel ρ := by
    simp only [List.getD_eq_getElem?_getD, List.getElem?_map]
    cases state.1[i]? <;> rfl
  simp only [visitBlock, next, known, Facts.same_relabel inj]
  split
  · rfl
  · simp only [List.map_set]

theorem pass_relabel (outs : List Facts) :
    a'.pass (g.relabel ρ) (outs.map (Facts.relabel ρ))
      = ((a.pass g outs).1.map (Facts.relabel ρ), (a.pass g outs).2) := by
  have fold (is : List Nat) (state : List Facts × Bool) :
      is.foldl (a'.visitBlock (g.relabel ρ)) (state.1.map (Facts.relabel ρ), state.2)
        = ((is.foldl (a.visitBlock g) state).1.map (Facts.relabel ρ),
          (is.foldl (a.visitBlock g) state).2) := by
    induction is generalizing state with
    | nil => rfl
    | cons i is ih => rw [List.foldl_cons, visitBlock_relabel inj renames, ih, List.foldl_cons]
  rw [pass, FlowGraph.size_relabel]
  exact fold _ (outs, false)

theorem iterate_relabel (cap passes : Nat) (outs : List Facts) :
    a'.iterate (g.relabel ρ) cap passes (outs.map (Facts.relabel ρ))
      = { a.iterate g cap passes outs with
          outs := (a.iterate g cap passes outs).outs.map (Facts.relabel ρ) } := by
  induction cap generalizing passes outs with
  | zero => rfl
  | succ cap ih =>
      rw [iterate, pass_relabel inj renames, iterate]
      rcases a.pass g outs with ⟨outs, _ | _⟩
      · rfl
      · exact ih _ _

theorem solve_relabel (cap : Nat) :
    a'.solve (g.relabel ρ) cap
      = { a.solve g cap with outs := (a.solve g cap).outs.map (Facts.relabel ρ) } := by
  have start : List.replicate g.size ([] : Facts)
      = (List.replicate g.size ([] : Facts)).map (Facts.relabel ρ) := by
    rw [List.map_replicate]
    rfl
  rw [solve, FlowGraph.size_relabel, start, iterate_relabel inj renames]
  rfl

theorem before_relabel (outs : List Facts) :
    a'.before (g.relabel ρ) (outs.map (Facts.relabel ρ)) = relabelRows ρ (a.before g outs) := by
  have each {nodes : List NodeId} (inside : nodes ⊆ g.statements) (facts : Facts) :
      a'.beforeEach (facts.relabel ρ) (nodes.map ρ) = relabelRows ρ (a.beforeEach facts nodes) := by
    induction nodes generalizing facts with
    | nil => rfl
    | cons n nodes ih =>
        obtain ⟨here, rest⟩ := List.cons_subset.mp inside
        rw [List.map_cons, beforeEach, renames.transfer n here, ih rest]
        rfl
  rw [before, FlowGraph.size_relabel, relabelRows, before, List.map_flatMap]
  refine congrArg List.flatten (List.map_congr_left fun i _ => ?_)
  rw [inflow_relabel inj renames, FlowGraph.nodes_relabel]
  exact each (g.nodes_subset_statements i) _

end ForwardAnalysis

/-! ## The two analyses -/

variable {g : FlowGraph} {access access' : Access}

/-- The nodes write and read under their new numbers what they did under the old ones. -/
structure Access.Renames (ρ : NodeId → NodeId) (stmts : List NodeId) (access access' : Access) :
    Prop where
  defs : ∀ n ∈ stmts, access'.defs (ρ n) = access.defs n
  uses : ∀ n ∈ stmts, access'.uses (ρ n) = access.uses n

theorem reachingDefs_renames {stmts : List NodeId} (renames : access.Renames ρ stmts access')
    (params : List String) :
    ForwardAnalysis.Renames ρ stmts (reachingDefs access params) (reachingDefs access' params) where
  onEntry := by
    have entry : (params.map fun p => (⟨p, none⟩ : Fact))
        = Facts.relabel ρ (params.map fun p => ⟨p, none⟩) := by
      rw [Facts.relabel, List.map_map]
      rfl
    simp only [reachingDefs]
    rw [← Facts.join_relabel inj, ← entry]
    rfl
  transfer n member facts := by
    simp only [reachingDefs, renames.defs n member]
    generalize access.defs n = vars
    induction vars generalizing facts with
    | nil => rfl
    | cons v vars ih =>
        rw [List.foldl_cons, List.foldl_cons, ← ih, Facts.without_relabel]
        rfl

theorem reachingUses_renames {stmts : List NodeId} (renames : access.Renames ρ stmts access') :
    ForwardAnalysis.Renames ρ stmts (reachingUses access) (reachingUses access') where
  onEntry := rfl
  transfer n member facts := by
    have reads (vars : List String) (facts : Facts) :
        vars.foldl (fun st v => Facts.join st [⟨v, some (ρ n)⟩]) (facts.relabel ρ)
          = (vars.foldl (fun st v => Facts.join st [⟨v, some n⟩]) facts).relabel ρ := by
      induction vars generalizing facts with
      | nil => rfl
      | cons v vars ih =>
          rw [List.foldl_cons, List.foldl_cons, ← ih, ← Facts.join_relabel inj]
          rfl
    have writes (vars : List String) (facts : Facts) :
        vars.foldl Facts.without (facts.relabel ρ) = (vars.foldl Facts.without facts).relabel ρ := by
      induction vars generalizing facts with
      | nil => rfl
      | cons v vars ih => rw [List.foldl_cons, Facts.without_relabel, ih, List.foldl_cons]
    simp only [reachingUses, renames.defs n member, renames.uses n member, reads, writes]

/-! ## Dependences -/

theorem lookup_relabel {β γ : Type} (f : β → γ) (rows : List (NodeId × β)) (n : NodeId) :
    (rows.map fun (m, b) => (ρ m, f b)).lookup (ρ n) = (rows.lookup n).map f := by
  induction rows with
  | nil => rfl
  | cons row rows ih =>
      rw [List.map_cons, List.lookup_cons, inj.beq_eq, ih, List.lookup_cons]
      split <;> rfl

theorem factsOf_relabel (rows : List (NodeId × Facts)) (n : NodeId) :
    ((relabelRows ρ rows).lookup (ρ n)).getD [] = ((rows.lookup n).getD []).relabel ρ := by
  rw [relabelRows, lookup_relabel inj]
  cases rows.lookup n <;> rfl

theorem originsOf_relabel (facts : Facts) (v : String) :
    originsOf (g.relabel ρ) (facts.relabel ρ) v = (originsOf g facts v).map ρ := by
  rw [originsOf, FlowGraph.statements_relabel, List.filter_map, originsOf]
  refine congrArg (List.map ρ) (List.filter_congr fun d _ => ?_)
  exact Facts.contains_relabel inj facts ⟨v, some d⟩

theorem depsInto_relabel (renames : access.Renames ρ g.statements access') (defs uses : Facts)
    {n : NodeId} (member : n ∈ g.statements) :
    depsInto (g.relabel ρ) access' (defs.relabel ρ) (uses.relabel ρ) (ρ n)
      = (depsInto g access defs uses n).map (DataDep.relabel ρ) := by
  have others (l : List NodeId) : (l.map ρ).filter (· != ρ n) = (l.filter (· != n)).map ρ := by
    rw [List.filter_map]
    exact congrArg (List.map ρ) (List.filter_congr fun d _ => congrArg not inj.beq_eq)
  simp only [depsInto, renames.defs n member, renames.uses n member, originsOf_relabel inj, others,
    List.map_append, List.map_flatMap, List.map_map]
  rfl

theorem dataDeps_relabel (renames : access.Renames ρ g.statements access')
    (defsBefore usesBefore : List (NodeId × Facts)) :
    dataDeps (g.relabel ρ) access' (relabelRows ρ defsBefore) (relabelRows ρ usesBefore)
      = (dataDeps g access defsBefore usesBefore).map (DataDep.relabel ρ) := by
  rw [dataDeps, FlowGraph.statements_relabel, dataDeps, List.flatMap_map, List.map_flatMap]
  refine List.flatMap_congr fun n member => ?_
  rw [factsOf_relabel inj, factsOf_relabel inj, depsInto_relabel inj renames _ _ member]

omit inj in
theorem controlDeps_relabel (postDoms : List BlockSet) :
    controlDeps (g.relabel ρ) postDoms = (controlDeps g postDoms).map (ControlDep.relabel ρ) := by
  have controlled (b start : Nat) :
      controlledBlocks (g.relabel ρ) postDoms b start = controlledBlocks g postDoms b start := by
    simp only [controlledBlocks, FlowGraph.succs_relabel, FlowGraph.size_relabel]
  have deciding (b : Nat) : ((g.relabel ρ).block? b).bind (·.terminator?)
      = ((g.block? b).bind (·.terminator?)).map ρ := by
    rw [FlowGraph.block?_relabel]
    cases g.block? b with
    | none => rfl
    | some block =>
        change (block.relabel ρ).terminator? = block.terminator?.map ρ
        rw [Block.terminator?, Block.terminator?]
        simp only [Block.relabel, List.getLast?_map]
        split <;> rfl
  have each (b : Nat) : controlDepsOf (g.relabel ρ) postDoms b
      = (controlDepsOf g postDoms b).map (ControlDep.relabel ρ) := by
    rw [controlDepsOf, deciding, controlDepsOf]
    cases (g.block? b).bind (·.terminator?) with
    | none => rfl
    | some cond =>
        simp only [Option.map_some, FlowGraph.labeledSuccs_relabel, controlled,
          FlowGraph.nodes_relabel, List.map_flatMap, List.map_map]
        rfl
  rw [controlDeps, FlowGraph.size_relabel, controlDeps, List.map_flatMap]
  exact List.flatMap_congr fun b _ => each b

namespace DepTable

theorem update_relabel {change change' : DepRecord → DepRecord}
    (commutes : ∀ r : DepRecord, change' (r.relabel ρ) = (change r).relabel ρ) (t : DepTable) (n : NodeId) :
    update (ρ n) change' (t.relabel ρ) = (update n change t).relabel ρ := by
  induction t with
  | nil =>
      have first : change' {} = (change {}).relabel ρ := commutes {}
      rw [relabel, List.map_nil, update, first]
      rfl
  | cons row t ih =>
      have shape : relabel ρ (row :: t) = (ρ row.1, row.2.relabel ρ) :: relabel ρ t := rfl
      rw [shape, update, inj.beq_eq, ih, commutes, update]
      split <;> rfl

theorem enter_relabel {change change' : DepRecord → DepRecord}
    (commutes : ∀ r : DepRecord, change' (r.relabel ρ) = (change r).relabel ρ) (t : DepTable)
    (source sink : NodeId) :
    enter (t.relabel ρ) (ρ source) (ρ sink) change' = (enter t source sink change).relabel ρ := by
  simp only [enter, inj.beq_eq, update_relabel inj commutes]
  split <;> rfl

theorem addData_relabel (t : DepTable) (deps : List DataDep) :
    (deps.map (DataDep.relabel ρ)).foldl addData (t.relabel ρ) = (deps.foldl addData t).relabel ρ := by
  induction deps generalizing t with
  | nil => rfl
  | cons d deps ih =>
      have step : addData (t.relabel ρ) (d.relabel ρ) = (addData t d).relabel ρ :=
        enter_relabel inj (fun r => by simp [DepRecord.relabel]) t d.source d.sink
      rw [List.map_cons, List.foldl_cons, step, ih, List.foldl_cons]

theorem addControl_relabel (t : DepTable) (deps : List ControlDep) :
    (deps.map (ControlDep.relabel ρ)).foldl addControl (t.relabel ρ)
      = (deps.foldl addControl t).relabel ρ := by
  induction deps generalizing t with
  | nil => rfl
  | cons d deps ih =>
      have step : addControl (t.relabel ρ) (d.relabel ρ) = (addControl t d).relabel ρ :=
        enter_relabel inj (fun r => by simp [DepRecord.relabel]) t d.controller d.dependent
      rw [List.map_cons, List.foldl_cons, step, ih, List.foldl_cons]

end DepTable

/-- What the analyses say of a graph they say of it with other numbers, too. -/
theorem analyzeFlow_relabel (renames : access.Renames ρ g.statements access') (params : List String)
    (cap : Nat) :
    (analyzeFlow g access params cap).Renames ρ (analyzeFlow (g.relabel ρ) access' params cap) := by
  have defs := reachingDefs_renames inj renames params
  have uses := reachingUses_renames inj renames
  have solved := ForwardAnalysis.solve_relabel inj defs cap
  have solvedUses := ForwardAnalysis.solve_relabel inj uses cap
  have before : (reachingDefs access' params).before (g.relabel ρ)
      ((reachingDefs access' params).solve (g.relabel ρ) cap).outs
        = relabelRows ρ ((reachingDefs access params).before g
          ((reachingDefs access params).solve g cap).outs) := by
    rw [solved, ForwardAnalysis.before_relabel inj defs]
  have beforeUses : (reachingUses access').before (g.relabel ρ)
      ((reachingUses access').solve (g.relabel ρ) cap).outs
        = relabelRows ρ ((reachingUses access).before g ((reachingUses access).solve g cap).outs) := by
    rw [solvedUses, ForwardAnalysis.before_relabel inj uses]
  refine ⟨before, ?_, ?_, ?_, ?_, FlowGraph.postDominators_relabel ρ g cap, ?_⟩
  · simp only [analyzeFlow, solved]
  · simp only [analyzeFlow, solved]
  · simp only [analyzeFlow, solvedUses]
  · simp only [analyzeFlow, solvedUses]
  · simp only [analyzeFlow, FlowGraph.postDominators_relabel, before, beforeUses,
      dataDeps_relabel inj renames, controlDeps_relabel]
    rw [← DepTable.addControl_relabel inj, ← DepTable.addData_relabel inj]
    rfl

end Injective

end Retarget
