/-
# Proofs.DataFlowPath -- two searches along flow dependences find the same

Whether a value gets from one statement to another is asked in two ways: breadth first over
statements (`hasDataPath`), and by a forward trace, depth first over pairs of a statement and a
variable it defines, with a bound on the depth.

The first one meets what chains of recorded flow dependences lead to, around cycles as well
(`Charted.hasDataPath_iff`).  The second one, in a kernel that calls no built one, is a search of its
own (`Sweeping`): the pairs being followed are all different, so that the bound is not met if there
are no more pairs than it allows, and once the search is over every pair met has had all its readers
reported and what they define followed (`forward_sweeps`).  So both find the same statements
(`dataFlowPath_iff`).
-/
import Retarget.Proofs.Bracketing
import Retarget.Proofs.ForwardTrace
import Retarget.Proofs.Reach
import Retarget.Proofs.ReachingDefinitions

namespace Retarget

open Retarget.Source (Node NodeId)
open Relation (TransGen ReflTransGen)

set_option autoImplicit false
set_option linter.dupNamespace false

/-- The pairs of a statement of the kernel and a variable it defines. -/
def BuiltKernel.definedPairs (b : BuiltKernel) : List (NodeId × String) :=
  b.stmts.flatMap fun d => (b.facts.access.defs d).map fun v => (d, v)

theorem BuiltKernel.mem_definedPairs {b : BuiltKernel} {d : NodeId} {v : String} :
    (d, v) ∈ b.definedPairs ↔ d ∈ b.stmts ∧ v ∈ b.facts.access.defs d := by
  simp [definedPairs]

namespace PropertyGraph

/-! ## Flow dependences -/

section Flows

variable (g : PropertyGraph) (u : SourceUnit)

/-- It is recorded that statement `c` reads the value that statement `a` gives to `x`. -/
def Flows (x : String) (a c : NodeId) : Prop := (⟨a, c, x, .flow⟩ : DataDep) ∈ g.dataDepsOf a

/-- It is recorded for some variable. -/
def FlowsOn (a c : NodeId) : Prop := ∃ x, g.Flows x a c

/-- No statement of the kernel calls a kernel that is built. -/
def Quiet (b : BuiltKernel) : Prop :=
  ∀ d ∈ b.stmts, ∀ c ∈ u.callsOf d, ∀ k, u.callee? c = some k → g.isBuilt k.id = false

/-- The value of the pair gets to the statement. -/
def Gets (start : NodeId × String) (n : NodeId) : Prop :=
  ∃ c, g.Flows start.2 start.1 c ∧ ReflTransGen g.FlowsOn c n

end Flows

variable {g : PropertyGraph} {u : SourceUnit} {b : BuiltKernel} {a c s n t : NodeId} {v x : String}
  {start q : NodeId × String}

theorem mem_flowSinks {only : String} :
    c ∈ g.flowSinks only a ↔ ∃ x, (only = "" ∨ x = only) ∧ g.Flows x a c := by
  simp only [flowSinks, List.mem_map, List.mem_filter, Bool.and_eq_true, Bool.or_eq_true, beq_iff_eq]
  constructor
  · rintro ⟨⟨_, _, x, _⟩, ⟨recorded, ⟨rfl, rfl⟩, fits⟩, rfl⟩
    exact ⟨x, fits, recorded⟩
  · rintro ⟨x, fits, recorded⟩
    exact ⟨_, ⟨recorded, ⟨rfl, rfl⟩, fits⟩, rfl⟩

theorem mem_readers (own : g.canonical a = a) : c ∈ g.readers a x ↔ g.Flows x a c := by
  simp only [readers, own, List.mem_map, List.mem_filter, Bool.and_eq_true, beq_iff_eq]
  constructor
  · rintro ⟨⟨_, _, _, _⟩, ⟨recorded, ⟨rfl, rfl⟩, rfl⟩, rfl⟩
    exact recorded
  · intro recorded
    exact ⟨_, ⟨recorded, ⟨rfl, rfl⟩, rfl⟩, rfl⟩

theorem Gets.step (gets : g.Gets start a) (flows : g.Flows x a c) : g.Gets start c := by
  obtain ⟨first, given, path⟩ := gets
  exact ⟨first, given, path.tail ⟨x, flows⟩⟩

/-- A chain leads on from some value that the first statement gives. -/
theorem transGen_flowsOn : TransGen g.FlowsOn a c ↔ ∃ x, g.Gets (a, x) c := by
  rw [Relation.TransGen.head'_iff]
  constructor
  · rintro ⟨m, ⟨x, flows⟩, path⟩
    exact ⟨x, m, flows, path⟩
  · rintro ⟨x, m, flows, path⟩
    exact ⟨m, ⟨x, flows⟩, path⟩

section Charted

variable (charted : g.Charted u)

include charted

/-- A flow dependence lies in one built kernel, from a statement that defines the variable. -/
theorem Charted.flows_inside (built : b ∈ g.built) (stands : a ∈ b.stmts) (flows : g.Flows x a c) :
    x ∈ b.facts.access.defs a ∧ c ∈ b.stmts := by
  obtain ⟨inside, -, origin⟩ := (charted.wired.mem_readers_iff charted.numbered charted.indexed built
    stands).mp ((mem_readers (charted.canonical_eq built stands)).mpr flows)
  obtain ⟨k, listed, describes⟩ := (charted.wired.kernels b built).listed
  rw [describes.facts] at origin ⊢
  exact ⟨(reaches_of_mem_originsOf (charted.numbered.statements_nodup listed describes.graph)
    origin).2.1, inside⟩

/-- What a chain of flow dependences leads to stands in the kernel it starts in. -/
theorem Charted.flows_stay (built : b ∈ g.built) (stands : a ∈ b.stmts)
    (path : ReflTransGen g.FlowsOn a c) : c ∈ b.stmts := by
  induction path with
  | refl => exact stands
  | tail _ flows ih =>
      obtain ⟨x, flows⟩ := flows
      exact (charted.flows_inside built ih flows).2

/-! ## Breadth first -/

/-- The search over statements finds what chains of dependences on the variables allowed lead to. -/
theorem Charted.hasDataPath_iff (built : b ∈ g.built) (stands : g.canonical s ∈ b.stmts)
    (only : String) :
    g.hasDataPath s t only = true ↔
      TransGen (fun a c => ∃ x, (only = "" ∨ x = only) ∧ g.Flows x a c) (g.canonical s)
        (g.canonical t) := by
  have room : ∀ x, Reachable (g.flowSinks only) [g.canonical s] x →
      x ∈ g.canonical s :: g.index.map Prod.fst := by
    rintro x ⟨start, listed, path⟩
    obtain rfl := List.mem_singleton.mp listed
    have flows : ∀ a c, c ∈ g.flowSinks only a → g.FlowsOn a c :=
      fun _ _ sink => (mem_flowSinks.mp sink).imp fun _ => And.right
    have inside : x ∈ b.stmts := charted.flows_stay built stands (ReflTransGen.mono flows _ _ path)
    obtain ⟨slot, entry⟩ := charted.indexed b built x inside
    exact List.mem_cons_of_mem _ (List.mem_map_of_mem entry)
  have met (x : NodeId) : x ∈ explore (g.flowSinks only) (g.index.length + 1) [g.canonical s] ↔
      Reachable (g.flowSinks only) [g.canonical s] x :=
    mem_explore room (by simp)
  simp only [hasDataPath, List.any_eq_true, List.contains_iff_mem, met, Reachable,
    List.mem_singleton, exists_eq_left, mem_flowSinks, Relation.TransGen.tail'_iff]

end Charted

/-! ## Depth first -/

/-- While the pairs of `path` are being followed: every other pair met has had its readers reported
and what they define met, and nothing is reported that the value does not get to. -/
structure Sweeping (g : PropertyGraph) (b : BuiltKernel) (start : NodeId × String)
    (path : List (NodeId × String)) (t : Tracing) : Prop where
  following : path ⊆ t.seen
  done : ∀ q ∈ t.seen, q ∉ path → ∀ n, g.Flows q.2 q.1 n →
    t.Reports n ∧ ∀ w ∈ b.facts.access.defs n, (n, w) ∈ t.seen
  sound : ∀ st ∈ t.steps, g.Gets start st.stmt

section Sweeping

variable {path : List (NodeId × String)} {t t' : Tracing} {budget depth : Nat}

namespace Sweeping

theorem enter (sweeping : g.Sweeping b start path t) (s : NodeId) (v : String) :
    g.Sweeping b start ((s, v) :: path) (t.mark s v) where
  following := List.cons_subset_cons _ sweeping.following
  done := by
    intro q seen apart n flows
    obtain ⟨other, off⟩ := not_or.mp (List.mem_cons.not.mp apart)
    have before : q ∈ t.seen := (Tracing.mem_seen_mark.mp seen).resolve_left other
    obtain ⟨reports, defined⟩ := sweeping.done q before off n flows
    exact ⟨reports, fun w member => (t.grows_mark s v).seen (defined w member)⟩
  sound := sweeping.sound

theorem add (sweeping : g.Sweeping b start path t) {st : TraceStep} (gets : g.Gets start st.stmt) :
    g.Sweeping b start path (t.add st) where
  following := sweeping.following
  done := by
    intro q seen off n flows
    obtain ⟨reports, defined⟩ := sweeping.done q seen off n flows
    exact ⟨reports.mono (t.grows_add st), defined⟩
  sound := by
    intro st' found
    rcases Tracing.mem_steps_add.mp found with before | rfl
    · exact sweeping.sound st' before
    · exact gets

theorem leave (sweeping : g.Sweeping b start (q :: path) t)
    (settled : ∀ n, g.Flows q.2 q.1 n →
      t.Reports n ∧ ∀ w ∈ b.facts.access.defs n, (n, w) ∈ t.seen) :
    g.Sweeping b start path t where
  following := fun _ member => sweeping.following (List.mem_cons_of_mem _ member)
  done := by
    intro r seen off
    by_cases same : r = q
    · exact same ▸ settled
    · exact sweeping.done r seen (List.mem_cons.not.mpr (not_or.mpr ⟨same, off⟩))
  sound := sweeping.sound

end Sweeping

/-- Following a pair of the kernel that the value gets to keeps the search going and meets the
pair. -/
def Sweeps (g : PropertyGraph) (b : BuiltKernel) (start : NodeId × String)
    (path : List (NodeId × String)) (follow : Tracing → NodeId → String → Tracing) : Prop :=
  ∀ t s v, (s, v) ∈ b.definedPairs → (s, v) = start ∨ g.Gets start s → g.Sweeping b start path t →
    t.Grows (follow t s v) ∧ g.Sweeping b start path (follow t s v) ∧ (s, v) ∈ (follow t s v).seen

section Steps

variable (charted : g.Charted u) (built : b ∈ g.built) (quiet : g.Quiet u b)

include charted built quiet

/-- A reader in a kernel that calls no built one only goes on with what it defines. -/
theorem Quiet.fromReader (stands : n ∈ b.stmts) (follow : Tracing → NodeId → String → Tracing)
    (enter : Tracing → BuiltKernel → String → NodeId → Tracing) (t : Tracing) (v : String) :
    g.fromReader u follow enter t n v
      = (b.facts.access.defs n).foldl (fun t w => follow t n w) t := by
  rw [fromReader_eq, charted.listedCalls_eq built stands, charted.infoOf?_eq built stands,
    Option.getD_some, Option.map_some, Option.getD_some, List.foldl_map]
  have idle : ∀ c ∈ u.callsOf n, ∀ t, g.passOn u enter v t c.id = t := by
    intro c makes t
    rw [passOn, charted.numbered.node?_of_mem (SourceUnit.mem_nodes_of_callsOf makes)]
    cases called : u.callee? c with
    | none => simp [called]
    | some k =>
        have absent : g.builtKernel? k.id = none := by
          simpa [isBuilt] using quiet n stands c makes k called
        simp [called, absent]
  exact List.foldlRecOn
    (motive := fun t' => t' = (b.facts.access.defs n).foldl (fun t w => follow t n w) t) _ _ rfl
    fun t' same c makes => (idle c makes t').trans same

/-- A reader of a pair is reported, and what it defines is met. -/
theorem Sweeps.reader {follow : Tracing → NodeId → String → Tracing}
    {enter : Tracing → BuiltKernel → String → NodeId → Tracing}
    (sweeps : g.Sweeps b start path follow) (st : TraceStep) (stands : st.stmt ∈ b.stmts)
    (gets : g.Gets start st.stmt) (sweeping : g.Sweeping b start path t) :
    let after := g.fromReader u follow enter (t.add st) st.stmt v
    t.Grows after ∧ g.Sweeping b start path after ∧
      (after.Reports st.stmt ∧ ∀ w ∈ b.facts.access.defs st.stmt, (st.stmt, w) ∈ after.seen) := by
  rw [quiet.fromReader charted built stands]
  obtain ⟨grows, last, met⟩ := Tracing.foldl_settles
    (f := fun t w => follow t st.stmt w) (Q := fun w t => (st.stmt, w) ∈ t.seen)
    (l := b.facts.access.defs st.stmt)
    (fun _ _ _ grows met => grows.seen met)
    (fun w member t before => sweeps t st.stmt w
      (BuiltKernel.mem_definedPairs.mpr ⟨stands, member⟩) (Or.inr gets) before)
    (sweeping.add gets)
  exact ⟨(t.grows_add st).trans grows, last, ⟨st, grows.steps (t.mem_add st), rfl⟩, met⟩

/-- The trace follows every pair it is called for, as long as there are no more pairs than the depth
allows: those being followed are different pairs of the kernel. -/
theorem forward_sweeps (start : NodeId × String) (enough : b.definedPairs.length ≤ depth)
    (budget : Nat) (path : List (NodeId × String)) (distinct : path.Nodup)
    (inside : path ⊆ b.definedPairs) (length : path.length + budget = depth + 1) :
    g.Sweeps b start path (g.forward u budget) := by
  induction budget generalizing path with
  | zero =>
      have few := (List.subperm_of_subset distinct inside).length_le
      omega
  | succ budget ih =>
      intro t s v pair led sweeping
      rw [forward]
      by_cases met : (s, v) ∈ t.seen
      · rw [if_pos (List.contains_iff_mem.mpr met)]
        exact ⟨.refl t, sweeping, met⟩
      obtain ⟨stands, defines⟩ := BuiltKernel.mem_definedPairs.mp pair
      rw [if_neg (by simpa using met), charted.infoOf?_eq built stands]
      have sweeps := ih ((s, v) :: path)
        (List.nodup_cons.mpr ⟨fun member => met (sweeping.following member), distinct⟩)
        (List.cons_subset.mpr ⟨pair, inside⟩) (by simp only [List.length_cons]; omega)
      have own := charted.canonical_eq built stands
      have step : ∀ n ∈ g.readers s v, ∀ t, g.Sweeping b start ((s, v) :: path) t →
          let after := g.fromReader u (g.forward u budget) (g.enterKernel u budget)
            (t.add ⟨b.kernel, n, v, budget, none⟩) n v
          t.Grows after ∧ g.Sweeping b start ((s, v) :: path) after ∧
            (after.Reports n ∧ ∀ w ∈ b.facts.access.defs n, (n, w) ∈ after.seen) := by
        intro n reads t sweeping
        have flows := (mem_readers own).mp reads
        have gets : g.Gets start n := by
          rcases led with rfl | gets
          · exact ⟨n, flows, .refl⟩
          · exact gets.step flows
        exact sweeps.reader charted built quiet ⟨b.kernel, n, v, budget, none⟩
          (charted.flows_inside built stands flows).2 gets sweeping
      obtain ⟨grows, last, settled⟩ := Tracing.foldl_settles
        (Q := fun n t => t.Reports n ∧ ∀ w ∈ b.facts.access.defs n, (n, w) ∈ t.seen)
        (fun n t t' grows settled => ⟨settled.1.mono grows,
          fun w member => grows.seen (settled.2 w member)⟩)
        step (sweeping.enter s v)
      refine ⟨(t.grows_mark s v).trans grows, ?_, ?_⟩
      · exact last.leave fun n flows => settled n ((mem_readers own).mpr flows)
      · exact grows.seen (Tracing.mem_seen_mark.mpr (Or.inl rfl))

/-- A trace of a value that a statement gives, deep enough for all pairs, reports the statements the
value gets to. -/
theorem traceForward_reports (s : NodeId) (stands : g.canonical s ∈ b.stmts)
    (defines : v ∈ b.facts.access.defs (g.canonical s)) {limit : Int}
    (deep : b.definedPairs.length ≤ limit) (n : NodeId) :
    (∃ st ∈ g.traceForward u s v limit, st.stmt = n) ↔ g.Gets (g.canonical s, v) n := by
  obtain ⟨depth, rfl⟩ : ∃ depth : Nat, limit = depth := Int.eq_ofNat_of_zero_le (by omega)
  have budget : budgetOf (depth : Int) = depth + 1 := by
    unfold budgetOf
    omega
  obtain ⟨-, sweeping, seen⟩ := forward_sweeps charted built quiet (g.canonical s, v) (by omega)
    (depth + 1) [] .nil (List.nil_subset _) (Nat.zero_add _) {} (g.canonical s) v
    (BuiltKernel.mem_definedPairs.mpr ⟨stands, defines⟩) (Or.inl rfl)
    ⟨List.nil_subset _, nofun, nofun⟩
  rw [traceForward, budget]
  generalize g.forward u (depth + 1) {} (g.canonical s) v = after at sweeping seen ⊢
  constructor
  · rintro ⟨st, found, rfl⟩
    exact sweeping.sound st found
  · rintro ⟨m, first, path⟩
    have settled : after.Reports n ∧ ∀ w ∈ b.facts.access.defs n, (n, w) ∈ after.seen := by
      induction path with
      | refl => exact sweeping.done _ seen List.not_mem_nil _ first
      | @tail k n before flows ih =>
          obtain ⟨x, flows⟩ := flows
          have inside := charted.flows_stay built (charted.flows_inside built stands first).2 before
          exact sweeping.done (k, x) (ih.2 x (charted.flows_inside built inside flows).1)
            List.not_mem_nil n flows
    exact settled.1

end Steps

end Sweeping

/-! ## Both searches -/

/-- Whatever has been built and discarded before: in a built kernel that calls no built kernel, with
a depth for all pairs of a statement and a variable it defines, a value can get from one statement to
another if and only if a chain of flow dependences leads there, and if and only if a forward trace
of something the first statement defines reports the other one; and it can get there through one
variable if and only if a chain of dependences on that variable does. -/
theorem dataFlowPath_iff {u : SourceUnit} (numbered : u.Numbered) (cap : Int)
    (ops : List (GraphOp u)) (b : BuiltKernel) (built : b ∈ (history u cap ops).built)
    (quiet : (history u cap ops).Quiet u b) (s t : NodeId)
    (stands : (history u cap ops).canonical s ∈ b.stmts) (depth : Int)
    (deep : b.definedPairs.length ≤ depth) :
    let g := history u cap ops
    (g.hasDataPath s t "" = true ↔ TransGen g.FlowsOn (g.canonical s) (g.canonical t)) ∧
    (g.hasDataPath s t "" = true ↔ ∃ v ∈ (g.variablesAt s).1,
      ∃ st ∈ g.traceForward u s v depth, st.stmt = g.canonical t) ∧
    ∀ v, v ≠ "" →
      (g.hasDataPath s t v = true ↔ TransGen (g.Flows v) (g.canonical s) (g.canonical t)) := by
  intro g
  have charted : g.Charted u := history_charted numbered cap ops
  have chain : g.hasDataPath s t "" = true ↔
      TransGen g.FlowsOn (g.canonical s) (g.canonical t) := by
    rw [charted.hasDataPath_iff built stands]
    simp only [true_or, true_and]
    rfl
  refine ⟨chain, ?_, fun v some => ?_⟩
  · have written : (g.variablesAt s).1 = b.facts.access.defs (g.canonical s) := by
      rw [variablesAt, charted.wired.infoOf?_canonical numbered charted.indexed built stands rfl]
    rw [chain, transGen_flowsOn, written]
    constructor
    · rintro ⟨v, m, first, path⟩
      have defines := (charted.flows_inside built stands first).1
      exact ⟨v, defines,
        (traceForward_reports charted built quiet s stands defines deep _).mpr ⟨m, first, path⟩⟩
    · rintro ⟨v, defines, reported⟩
      exact ⟨v, (traceForward_reports charted built quiet s stands defines deep _).mp reported⟩
  · rw [charted.hasDataPath_iff built stands]
    simp only [some, false_or, exists_eq_left]

/-! ## A loop -/

namespace Summing

/-- The sum is added up in a loop and copied before it is returned. -/
def source : String :=
  "func f(n int) int \x7b\n\tx := 0\n\tfor n > 0 \x7b\n\t\tx = x + n\n\t\tn--\n\t\x7d\n\ty := x\n\treturn y\n\x7d\n"

def unit : SourceUnit := Bracketing.unit source

def graph : PropertyGraph := history unit 0 [.buildUnit]

/-- Statement 20 lies in the kernel, and the kernel makes no calls. -/
def adds (b : BuiltKernel) : Bool :=
  b.stmts.contains 20 && b.stmts.all (fun d => (unit.callsOf d).isEmpty) &&
    b.definedPairs.length == 4

theorem adds_spec {b : BuiltKernel} (holds : adds b = true) :
    20 ∈ b.stmts ∧ graph.Quiet unit b ∧ b.definedPairs.length = 4 := by
  simp only [adds, Bool.and_eq_true, List.all_eq_true, List.isEmpty_iff, List.contains_iff_mem,
    beq_iff_eq] at holds
  obtain ⟨⟨stands, silent⟩, pairs⟩ := holds
  refine ⟨stands, fun d inside c makes => ?_, pairs⟩
  rw [silent d inside] at makes
  cases makes

end Summing

open Summing in
/-- The sum gets back to the addition around the loop, and by way of its copy to the return; the
trace of it finds the return with no more depth than there are pairs. -/
theorem dataFlowPath_iff_summing :
    unit.Numbered ∧ TransGen (graph.Flows "x") 20 20 ∧ TransGen graph.FlowsOn 20 29 ∧
      ¬TransGen (graph.Flows "x") 20 29 ∧
      ∃ v ∈ (graph.variablesAt 20).1, ∃ st ∈ graph.traceForward unit 20 v 4, st.stmt = 29 := by
  obtain ⟨numbered, inside, own, last, around, across, alone⟩ : unit.Numbered ∧
      graph.built.any adds = true ∧ graph.canonical 20 = 20 ∧ graph.canonical 29 = 29 ∧
      graph.hasDataPath 20 20 "x" = true ∧ graph.hasDataPath 20 29 "" = true ∧
      graph.hasDataPath 20 29 "x" = false := by
    have spelled : source.toList = _ := String.toList_ofList
    unfold adds graph unit
    rw [Bracketing.unit_spelled spelled]
    decide +kernel
  obtain ⟨b, built, holds⟩ := List.any_eq_true.mp inside
  obtain ⟨stands, quiet, pairs⟩ := adds_spec holds
  have searches (t : NodeId) := dataFlowPath_iff numbered 0 [.buildUnit] b built quiet 20 t
    (own.symm ▸ stands) 4 (by omega)
  obtain ⟨-, -, back⟩ := searches 20
  obtain ⟨chain, trace, only⟩ := searches 29
  rw [← graph, last] at chain trace only
  rw [← graph] at back
  rw [own] at back chain only
  exact ⟨numbered, (back "x" (by decide)).mp around, chain.mp across,
    fun path => absurd ((only "x" (by decide)).mpr path) (by simp [alone]), trace.mp across⟩

end PropertyGraph

end Retarget
