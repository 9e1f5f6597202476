/-
# Proofs.AnalysisRun -- what a run over a unit leaves of its property graph

Once every kernel with a body has been built, asking for one to be built does nothing.  Expanding
calls changes what kernels return but not which of them have a body (`plan_bodies`).  So through a
whole run the property graph stays what building the unit has made it, and there is one result for
each kernel with a body, in order (`analyseAll_keeps`, `analyseUnit_spec`).
-/
import Retarget.Analysis.Run
import Retarget.Proofs.BuildOrder
import Retarget.Proofs.ExpansionFrame

namespace Retarget

open Retarget.Source (Node)

set_option autoImplicit false
set_option linter.dupNamespace false

/-! ## Kernels with a body -/

theorem Inliner.hasBody_withReturned (k : KernelFn) (x : Node) :
    (Inliner.withReturned k x).hasBody = k.hasBody := by
  unfold Inliner.withReturned
  split
  · rename_i body
    rw [KernelFn.hasBody, KernelFn.hasBody, body]
    rfl
  · rfl

namespace SourceUnit

variable {u v : SourceUnit} {k : KernelFn}

/-- Which kernels have a body. -/
def bodies (u : SourceUnit) : List Bool := u.kernels.map (·.hasBody)

theorem hasBody_kernel? (u : SourceUnit) (id : KernelId) :
    (u.kernel? id).any (·.hasBody) = (u.bodies[id]?).getD false := by
  rw [kernel?, bodies, List.getElem?_map]
  cases u.kernels[id]? <;> rfl

theorem id_of_kernel? {id : KernelId} (found : u.kernel? id = some k) : k.id = id := by
  have listed := List.mem_of_getElem? found
  obtain ⟨inside, here⟩ := List.getElem?_eq_some_iff.mp found
  have place : (u.kernels.map (·.id))[id]? = some k.id := by
    rw [List.getElem?_map, List.getElem?_eq_some_iff.mpr ⟨inside, here⟩, Option.map_some]
  rw [u.numbered, List.getElem?_range inside] at place
  exact (Option.some.inj place).symm

theorem bodies_returning (u : SourceUnit) (k : KernelFn) (x : Node) :
    (u.returning k x).bodies = u.bodies := by
  rw [bodies, returning, mapKernels, List.map_map]
  refine List.map_congr_left fun f _ => ?_
  rw [Function.comp_apply]
  split
  · exact Inliner.hasBody_withReturned f x
  · rfl

end SourceUnit

namespace Inliner

variable (s : Inliner)

theorem unit_contexts (k : KernelFn) : (s.contexts k).1.unit = s.unit := by
  refine List.foldlRecOn (motive := fun done : Inliner × List InlineCall => done.1.unit = s.unit)
    _ _ rfl fun done same site _ => ?_
  exact (done.1.context_spec site).1.trans same

theorem bodies_inline (target : Architecture) (c : InlineCall) :
    (s.inline target c).1.unit.bodies = s.unit.bodies := by
  rw [inline_fst]
  split
  · rfl
  · exact SourceUnit.bodies_returning _ _ _

theorem bodies_inlineAll (calls : List (Architecture × InlineCall)) :
    (s.inlineAll calls).1.unit.bodies = s.unit.bodies := by
  induction calls generalizing s with
  | nil => rfl
  | cons p calls ih => rw [inlineAll_cons, ih, bodies_inline]

/-- A plan leaves every kernel its body, if another one. -/
theorem plan_bodies (target : Architecture) (k : KernelFn) :
    (s.plan target k).value.1.unit.bodies = s.unit.bodies := by
  cases hasBody : k.hasBody with
  | false => rw [plan, if_pos (by simp [hasBody])]
  | true => rw [s.plan_eq target hasBody, bodies_inlineAll, unit_contexts]

end Inliner

/-! ## Building what is built -/

namespace PropertyGraph

variable {g : PropertyGraph} {k : KernelFn}

theorem build_of_isBuilt (built : g.isBuilt k.id = true) (u : SourceUnit) :
    (g.build u k).value = g := by
  unfold build
  rw [built]
  split <;> rfl

theorem convert_of_isBuilt (built : g.isBuilt k.id = true) (u : SourceUnit)
    (source target : Option Architecture) : (convert u g k source target).value.2 = g := by
  unfold convert
  dsimp only
  split
  · rfl
  · exact build_of_isBuilt built u

end PropertyGraph

/-! ## Runs -/

theorem Logged.value_bind {α β : Type} (x : Logged α) (f : α → Logged β) :
    (x >>= f).value = (f x.value).value := rfl

namespace Analyzer

/-- The same graph, and the same kernels have a body. -/
structure Keeps (a a' : Analyzer) : Prop where
  graph : a'.graph = a.graph
  bodies : a'.unit.bodies = a.unit.bodies

/-- Every kernel with a body is built. -/
def Built (a : Analyzer) : Prop :=
  ∀ k ∈ a.unit.kernels, k.hasBody = true → a.graph.isBuilt k.id = true

variable {a a' a'' : Analyzer} {k : KernelFn} {c : Circumstances}

theorem Keeps.refl (a : Analyzer) : a.Keeps a := ⟨rfl, rfl⟩

theorem Keeps.trans (first : a.Keeps a') (second : a'.Keeps a'') : a.Keeps a'' :=
  ⟨second.graph.trans first.graph, second.bodies.trans first.bodies⟩

theorem Keeps.hasBody (keeps : a.Keeps a') (id : KernelId) :
    (a'.unit.kernel? id).any (·.hasBody) = (a.unit.kernel? id).any (·.hasBody) := by
  rw [SourceUnit.hasBody_kernel?, SourceUnit.hasBody_kernel?, keeps.bodies]

theorem Built.keep (built : a.Built) (keeps : a.Keeps a') : a'.Built := by
  intro k listed hasBody
  have same := keeps.hasBody k.id
  rw [SourceUnit.kernel?_id listed, Option.any_some, hasBody] at same
  obtain ⟨f, found, has⟩ := (Option.any_eq_true _ _).mp same.symm
  rw [keeps.graph, ← SourceUnit.id_of_kernel? found]
  exact built f (List.mem_of_getElem? found) has

/-- Analysing a kernel that is built keeps the graph, and its result is told for it. -/
theorem analyseBody_keeps (built : a.graph.isBuilt k.id = true) :
    a.Keeps (a.analyseBody k).value.1 ∧ (a.analyseBody k).value.2.kernel = k.id := by
  obtain ⟨conversion, lowered⟩ : ∃ conversion,
      (convert a.unit a.graph k (some a.source) (some a.target)).value = (conversion, a.graph) :=
    ⟨_, Prod.ext rfl (PropertyGraph.convert_of_isBuilt built a.unit _ _)⟩
  have planned := a.inliner.plan_bodies a.target k
  unfold analyseBody
  simp only [Logged.value_bind, PropertyGraph.build_of_isBuilt built, lowered]
  split
  · exact ⟨.refl a, rfl⟩
  · rw [Logged.value_bind]
    split
    · exact ⟨.refl a, rfl⟩
    · exact ⟨⟨rfl, planned⟩, rfl⟩

theorem analyse_keeps (built : a.graph.isBuilt k.id = true) :
    a.Keeps (a.analyse c k).value.1 ∧ (a.analyse c k).value.2.kernel = k.id := by
  unfold analyse
  split
  · exact ⟨.refl a, rfl⟩
  · split
    · exact ⟨.refl a, rfl⟩
    · exact analyseBody_keeps built

theorem analyseAll_cons {id : KernelId} (found : a.unit.kernel? id = some k)
    (hasBody : k.hasBody = true) (ids : List KernelId) :
    (analyseAll c a (id :: ids)).value
      = ((analyseAll c (a.analyse c k).value.1 ids).value.1,
        (a.analyse c k).value.2 :: (analyseAll c (a.analyse c k).value.1 ids).value.2) := by
  rw [analyseAll, found]
  simp only [hasBody, if_true]
  rfl

theorem analyseAll_skip {id : KernelId} (none : (a.unit.kernel? id).any (·.hasBody) = false)
    (ids : List KernelId) : analyseAll c a (id :: ids) = analyseAll c a ids := by
  rw [analyseAll]
  cases found : a.unit.kernel? id with
  | none => rfl
  | some k =>
      have bare : k.hasBody = false := by simpa [found] using none
      simp only [bare, Bool.false_eq_true, if_false]

/-- One result for each of the kernels that has a body, in order, and the graph is kept. -/
theorem analyseAll_keeps (c : Circumstances) (ids : List KernelId) (built : a.Built) :
    a.Keeps (analyseAll c a ids).value.1 ∧
      (analyseAll c a ids).value.2.map (·.kernel)
        = ids.filter fun id => (a.unit.kernel? id).any (·.hasBody) := by
  induction ids generalizing a with
  | nil => exact ⟨.refl a, rfl⟩
  | cons id ids ih =>
      cases hasBody : (a.unit.kernel? id).any (·.hasBody) with
      | false => simpa [analyseAll_skip hasBody, hasBody] using ih built
      | true =>
          obtain ⟨k, found, has⟩ := (Option.any_eq_true _ _).mp hasBody
          obtain ⟨first, told⟩ := analyse_keeps (c := c) (built k (List.mem_of_getElem? found) has)
          obtain ⟨rest, others⟩ := ih (built.keep first)
          simp only [first.hasBody] at others
          rw [analyseAll_cons found has, List.filter_cons, if_pos hasBody, List.map_cons, told,
            others, SourceUnit.id_of_kernel? found]
          exact ⟨first.trans rest, rfl⟩

/-! ## A whole unit -/

theorem buildUnit_cases (a : Analyzer) (c : Circumstances) :
    (a.buildUnit c).value = .error .cancelled ∨
      (a.buildUnit c).value = .ok { a with graph := (a.graph.buildUnit a.unit).value } := by
  unfold buildUnit
  split
  · exact Or.inl rfl
  · exact Or.inr rfl

theorem analyseUnit_eq (a : Analyzer) (c : Circumstances) : (a.analyseUnit c).value =
    match (a.buildUnit c).value with
    | .error e => .error e
    | .ok a => .ok (analyseAll c a (a.unit.kernels.map (·.id))).value := by
  rw [analyseUnit, Logged.value_bind]
  cases (a.buildUnit c).value <;> rfl

/-- A run that was not called off comes to an end with results. -/
theorem analyseUnit_ok (goes : c.cancelled = false) :
    ∃ out, (a.analyseUnit c).value = .ok out := by
  have built : (a.buildUnit c).value = .ok { a with graph := (a.graph.buildUnit a.unit).value } := by
    rw [buildUnit, goes, Bool.false_and]
    rfl
  rw [analyseUnit_eq, built]
  exact ⟨_, rfl⟩

theorem built_buildUnit (ordered : a.graph.Ordered a.unit) :
    Built { a with graph := (a.graph.buildUnit a.unit).value } := fun k listed hasBody =>
  (ordered.isBuilt_buildUnit k.id).mpr (Or.inr ⟨k, listed, hasBody, rfl⟩)

/-- A run over a unit leaves the graph that building the unit makes, and gives one result for each
kernel with a body, in order. -/
theorem analyseUnit_spec (ordered : a.graph.Ordered a.unit) {rs : List AnalysisResult}
    (ran : (a.analyseUnit c).value = .ok (a', rs)) :
    a'.graph = (a.graph.buildUnit a.unit).value ∧
      rs.map (·.kernel) = (a.unit.kernels.filter (·.hasBody)).map (·.id) := by
  rw [analyseUnit_eq] at ran
  rcases a.buildUnit_cases c with off | built
  · rw [off] at ran
    cases ran
  · rw [built] at ran
    obtain ⟨keeps, kernels⟩ := analyseAll_keeps c (a.unit.kernels.map (·.id)) (built_buildUnit ordered)
    obtain ⟨rfl, rfl⟩ := Prod.mk.inj (Except.ok.inj ran)
    refine ⟨keeps.graph, kernels.trans ?_⟩
    rw [List.filter_map]
    refine congrArg (List.map _) (List.filter_congr fun k listed => ?_)
    exact congrArg (Option.any _) (SourceUnit.kernel?_id listed)

/-- A run over a unit adds that the unit has been built to the history of the graph. -/
theorem analyseUnit_history {cap : Int} {ops : List (GraphOp a.unit)}
    (graph : a.graph = .history a.unit cap ops) {rs : List AnalysisResult}
    (ran : (a.analyseUnit c).value = .ok (a', rs)) :
    a'.graph = .history a.unit cap (ops ++ [GraphOp.buildUnit]) := by
  have ordered := graph ▸ PropertyGraph.history_ordered a.unit cap ops
  rw [(analyseUnit_spec ordered ran).1, graph, PropertyGraph.history_concat]
  rfl

/-- A new analyzer has the unit and an empty graph. -/
theorem new_spec {u : SourceUnit} {s : Settings} {w : Workspace}
    (made : (Analyzer.new u s w).value = .ok a) :
    a.unit = u ∧ a.graph = .history a.unit 0 [] := by
  unfold Analyzer.new at made
  split at made
  · rw [Logged.value_bind] at made
    split at made
    · cases made
    · obtain rfl := Except.ok.inj made
      exact ⟨rfl, rfl⟩
  · cases made
  · cases made

end Analyzer

end Retarget
