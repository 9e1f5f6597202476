/-
# Proofs.TraceOrigins -- every step of a backward trace is an origin in the program

What a backward trace goes by is what the analyses of the kernels report.  Here origins are told by
the flow graphs instead: a statement gives the variable its value on a path without another write
(`SourceUnit.Defines`), or the value comes in with a parameter on such a path
(`SourceUnit.BringsIn`) and a call passes an argument for it (`SourceUnit.Passes`).

What is reported is so on some path, whatever the cap on the passes was; a hop of the search is
therefore a hop in the program (`hop_in_program`), and each step it tells is an origin there
(`origin_in_program`).  `backwardTrace_sound` puts this together: a step found with some of the depth
left is an origin of a pair that is as many hops away as depth was used.

The search needs no bound besides the depth: it goes on with one less each time and stops below zero
(`backward_budgetOf`).
-/
import Retarget.Proofs.BackwardTrace
import Retarget.Proofs.ReachingDefinitions

namespace Retarget

open Retarget.Source (Node NodeId)

set_option autoImplicit false
set_option linter.dupNamespace false

/-! ## Origins in the program -/

namespace SourceUnit

section Origins

variable (u : SourceUnit)

/-- In kernel `k` statement `d` gives the variable a value that may still be there right before the
statement asked about. -/
def Defines (k : KernelFn) (d : NodeId) (q : NodeId × String) : Prop :=
  ∃ flow, u.flowGraph? k = some flow ∧ d ∈ flow.statements ∧ q.2 ∈ (u.defUseOf d).defs ∧
    flow.Reaches (u.accessTo flow.statements) q.2 d q.1

/-- The variable is parameter `p` of kernel `k`, and the value it comes in with may still be there
right before the statement asked about. -/
def BringsIn (k : KernelFn) (p : Param) (q : NodeId × String) : Prop :=
  k.param? q.2 = some p ∧ ∃ flow, u.flowGraph? k = some flow ∧
    flow.EntryReaches (u.accessTo flow.statements) q.2 q.1

/-- Call `c`, made by statement `d` of kernel `j`, passes `arg` for parameter `p` of `k`. -/
structure Passes (k : KernelFn) (p : Param) (j : KernelFn) (d : NodeId) (c : Node) (arg : NodeId) :
    Prop where
  caller : j ∈ u.kernels ∧ ∃ flow, u.flowGraph? j = some flow ∧ d ∈ flow.statements
  makes : c ∈ u.callsOf d
  callee : u.callee? c = some k
  argument : (callArgs c)[p.index]? = some arg

/-- From a definition to a variable it uses, or from a parameter to a variable of the argument. -/
inductive Hop : NodeId × String → NodeId × String → Prop
  | definition {q : NodeId × String} {k : KernelFn} {d : NodeId} {w : String} :
      k ∈ u.kernels → u.Defines k d q → w ∈ (u.defUseOf d).uses → Hop q (d, w)
  | parameter {q : NodeId × String} {k j : KernelFn} {p : Param} {d : NodeId} {c : Node}
      {arg : NodeId} {w : String} :
      k ∈ u.kernels → u.BringsIn k p q → u.Passes k p j d c arg → w ∈ PropertyGraph.refsOf u arg →
        Hop q (d, w)

/-- So many hops, one after the other. -/
inductive Hops (start : NodeId × String) : Nat → NodeId × String → Prop
  | here : Hops start 0 start
  | hop {n : Nat} {q r : NodeId × String} : Hops start n q → u.Hop q r → Hops start (n + 1) r

/-- The step tells a definition of the variable that reaches the statement, or a call site passing
the argument for the parameter that the variable came in as. -/
inductive Feeds (q : NodeId × String) : TraceStep → Prop
  | definition {k : KernelFn} {d : NodeId} {left : Nat} :
      k ∈ u.kernels → u.Defines k d q → Feeds q ⟨k.id, d, q.2, left, none⟩
  | parameter {k j : KernelFn} {p : Param} {d : NodeId} {c : Node} {arg : NodeId} {left : Nat} :
      k ∈ u.kernels → u.BringsIn k p q → u.Passes k p j d c arg →
        Feeds q ⟨j.id, d, u.printId arg, left, some c.id⟩

end Origins

end SourceUnit

namespace PropertyGraph

variable {u : SourceUnit} {g : PropertyGraph} {b : BuiltKernel} {start q r : NodeId × String}
  {s d : NodeId} {v w : String}

/-! ## What is reported is so in the program -/

namespace Charted

variable (charted : g.Charted u)

include charted

theorem describes (built : b ∈ g.built) : ∃ k ∈ u.kernels, b.Describes u g.cap k :=
  (charted.wired.kernels b built).listed

/-- A definition that is reported reaches the statement, in the kernel of both. -/
theorem defines_of_definitions (own : g.canonical s = s) (reported : d ∈ g.definitions s v) :
    ∃ b ∈ g.built, d ∈ b.stmts ∧
      ∃ k ∈ u.kernels, b.Describes u g.cap k ∧ u.Defines k d (s, v) := by
  cases info : g.infoOf? s with
  | none => simp [definitions, info] at reported
  | some b =>
      obtain ⟨built, stands⟩ := charted.stands_of_infoOf? info
      obtain ⟨k, listed, notes⟩ := charted.describes built
      rw [charted.wired.definitions_eq charted.numbered charted.indexed built (own ▸ stands) own,
        notes.facts] at reported
      obtain ⟨inside, writes, reaches⟩ := reaches_of_mem_originsOf
        (charted.numbered.statements_nodup listed notes.graph) reported
      rw [notes.stmts, SourceUnit.defs_accessTo inside] at writes
      rw [notes.stmts] at reaches
      exact ⟨b, built, notes.stmts ▸ inside, k, listed, notes,
        b.graph, notes.graph, inside, writes, reaches⟩

/-- A parameter that is reported to hold the value it came in with holds it on some path. -/
theorem bringsIn_of_comesIn {k : KernelId} {p : Param} (own : g.canonical s = s)
    (comes : g.ComesIn u (s, v) k p) : ∃ f ∈ u.kernels, f.id = k ∧ u.BringsIn f p (s, v) := by
  obtain ⟨b, info, rfl, holds, named⟩ := comes
  obtain ⟨built, -⟩ := charted.stands_of_infoOf? info
  obtain ⟨k, listed, notes⟩ := charted.describes built
  rw [own, notes.facts] at holds
  obtain ⟨-, reaches⟩ := entryReaches_of_isIncoming
    (charted.numbered.statements_nodup listed notes.graph) holds
  rw [notes.stmts] at reaches
  rw [notes.kernel, SourceUnit.kernel?_id listed, Option.bind_some] at named
  exact ⟨k, listed, notes.kernel.symm, named, b.graph, notes.graph, reaches⟩

/-- An argument that is reported is passed, by a statement that answers for itself. -/
theorem passes_of_supplies {f : KernelFn} {p : Param} {c : Node} {arg : NodeId}
    (listed : f ∈ u.kernels) (supplies : g.Supplies u f.id p d c arg) :
    ∃ b ∈ g.built, d ∈ b.stmts ∧
      ∃ j, b.Describes u g.cap j ∧ u.Passes f p j d c arg := by
  obtain ⟨b, built, stands⟩ := supplies.caller
  obtain ⟨j, listedJ, notes⟩ := charted.describes built
  obtain ⟨k, target, same⟩ := Option.map_eq_some_iff.mp supplies.callee
  obtain rfl := SourceUnit.kernel_inj (SourceUnit.mem_of_callee? target) listed same
  exact ⟨b, built, stands, j, notes,
    ⟨listedJ, b.graph, notes.graph, notes.stmts ▸ stands⟩, supplies.makes, target, supplies.argument⟩

/-- What a statement of a built kernel is said to use is what it reads in the source. -/
theorem uses_of_variablesAt (built : b ∈ g.built) (stands : d ∈ b.stmts)
    (uses : w ∈ (g.variablesAt d).2) : w ∈ (u.defUseOf d).uses := by
  obtain ⟨k, -, notes⟩ := charted.describes built
  have access : b.facts.access = u.accessTo b.stmts := by
    rw [notes.facts]
    rfl
  rw [variablesAt, charted.infoOf?_eq built stands, charted.canonical_eq built stands] at uses
  rw [← SourceUnit.uses_accessTo stands, ← access]
  exact uses

/-- A hop of the search is one in the program, to a statement that answers for itself. -/
theorem hop_in_program (own : g.canonical q.1 = q.1) (hop : g.Hop u q r) :
    g.canonical r.1 = r.1 ∧ u.Hop q r := by
  cases hop with
  | definition reported uses =>
      obtain ⟨b, built, stands, k, listed, -, defines⟩ := charted.defines_of_definitions own reported
      exact ⟨charted.canonical_eq built stands,
        .definition listed defines (charted.uses_of_variablesAt built stands uses)⟩
  | argument comes supplies mentions =>
      obtain ⟨f, listed, rfl, brings⟩ := charted.bringsIn_of_comesIn own comes
      obtain ⟨b, built, stands, j, -, passes⟩ := charted.passes_of_supplies listed supplies
      exact ⟨charted.canonical_eq built stands, .parameter listed brings passes mentions⟩

/-- Hops of the search are as many hops in the program. -/
theorem hops_in_program {path : List (NodeId × String)} (own : g.canonical start.1 = start.1)
    (leads : g.HopPath u start path q) :
    g.canonical q.1 = q.1 ∧ u.Hops start path.length q := by
  induction leads with
  | here => exact ⟨own, .here⟩
  | hop _ hop ih =>
      obtain ⟨stands, hops⟩ := ih
      obtain ⟨next, made⟩ := charted.hop_in_program stands hop
      exact ⟨next, .hop hops made⟩

/-- A step that tells an origin tells one in the program. -/
theorem origin_in_program {st : TraceStep} (own : g.canonical q.1 = q.1)
    (kernel : (g.infoOf? st.stmt).map (·.kernel) = some st.kernel)
    (origin : g.Origin u q st.stmt st.var st.via) : u.Feeds q st := by
  have named {b : BuiltKernel} {k : KernelFn} (built : b ∈ g.built) (stands : st.stmt ∈ b.stmts)
      (notes : b.Describes u g.cap k) : st.kernel = k.id := by
    rw [charted.infoOf?_eq built stands, Option.map_some, notes.kernel] at kernel
    exact (Option.some.inj kernel).symm
  obtain ⟨id, d, x, left, via⟩ := st
  cases origin with
  | definition reported =>
      obtain ⟨b, built, stands, k, listed, notes, defines⟩ :=
        charted.defines_of_definitions own reported
      obtain rfl := named built stands notes
      exact .definition listed defines
  | argument comes supplies =>
      obtain ⟨f, listed, rfl, brings⟩ := charted.bringsIn_of_comesIn own comes
      obtain ⟨b, built, stands, j, notes, passes⟩ := charted.passes_of_supplies listed supplies
      obtain rfl := named built stands notes
      exact .parameter listed brings passes

end Charted

/-! ## The search -/

/-- The search by the depth that is left: below zero it does nothing, a pair is followed once, and
what it leads to is followed with a depth of one less. -/
theorem backward_budgetOf (g : PropertyGraph) (u : SourceUnit) (depth : Int) (t : Tracing)
    (s : NodeId) (v : String) :
    g.backward u (budgetOf depth) t s v =
      if depth < 0 ∨ (s, v) ∈ t.seen then t
      else match g.infoOf? s with
        | none => t.mark s v
        | some b => g.expand u (g.backward u (budgetOf (depth - 1))) b depth.toNat (t.mark s v) s v := by
  by_cases none : depth < 0
  · have spent : budgetOf depth = 0 := by
      unfold budgetOf
      omega
    rw [spent, if_pos (Or.inl none)]
    rfl
  · have budget : budgetOf depth = depth.toNat + 1 := by
      unfold budgetOf
      omega
    have next : budgetOf (depth - 1) = depth.toNat := by
      unfold budgetOf
      omega
    rw [budget, next, backward_succ]
    exact if_congr (by simp [none]) rfl rfl

/-- Whatever has been built and discarded before, wherever a trace starts and however deep it may go:
it follows each pair once, with a depth of one less than the pair before and none below zero, and
each of its steps, with `left` of the depth still allowed, tells a definition or an argument that
feeds a pair `depth - left` hops from the start. -/
theorem backwardTrace_sound {u : SourceUnit} (numbered : u.Numbered) (cap : Int)
    (ops : List (GraphOp u)) (stmt : NodeId) (v : String) (depth : Int) :
    let g := history u cap ops
    let follow := fun left : Int => g.backward u (budgetOf left)
    (∀ left t s w, follow left t s w =
      if left < 0 ∨ (s, w) ∈ t.seen then t
      else match g.infoOf? s with
        | none => t.mark s w
        | some b => g.expand u (follow (left - 1)) b left.toNat (t.mark s w) s w) ∧
    ∀ st ∈ g.traceBackward u stmt v depth, st.depth ≤ depth ∧
      ∃ (n : Nat) (q : NodeId × String), n = depth - st.depth ∧
        u.Hops (g.canonical stmt, v) n q ∧ u.Feeds q st := by
  intro g follow
  refine ⟨g.backward_budgetOf u, fun st found => ?_⟩
  have charted : g.Charted u := history_charted numbered cap ops
  by_cases negative : depth < 0
  · have nothing : g.traceBackward u stmt v depth = [] := by
      rw [traceBackward, backward_budgetOf, if_pos (Or.inl negative)]
    rw [nothing] at found
    cases found
  · obtain ⟨budget, rfl⟩ := Int.eq_ofNat_of_zero_le (Int.not_lt.mp negative)
    obtain ⟨seen, -, searching⟩ := charted.traceBackward_searching stmt v budget
    obtain ⟨kernel, path, q, leads, used, origin⟩ := searching.sound st found
    obtain ⟨own, hops⟩ :=
      charted.hops_in_program (charted.wired.canonical_canonical stmt) leads
    exact ⟨by omega, path.length, q, by omega, hops, charted.origin_in_program own kernel origin⟩

/-! ## Two kernels that call each other -/

namespace Mutual

/-- The parameter of `f` is set anew on one branch before it is passed on. -/
def source : String :=
  "func f(n int) int \x7b\n\tif n > 5 \x7b\n\t\tn = 1\n\t\x7d\n\treturn g(n - 1)\n\x7d\n\nfunc g(m int) int \x7b\n\treturn f(m)\n\x7d\n"

def unit : SourceUnit := Bracketing.unit source

def graph : PropertyGraph := history unit 0 [.buildUnit]

end Mutual

open Mutual in
/-- The trace of `n` from where it is passed on goes around the two kernels once: the argument that
`g` gets is one hop away. -/
theorem backwardTrace_sound_mutual :
    unit.Numbered ∧ graph.canonical 23 = 23 ∧
      graph.traceBackward unit 23 "n" 3 =
        [⟨0, 15, "n", 3, none⟩, ⟨1, 37, "m", 3, some 36⟩, ⟨0, 23, "n - 1", 2, some 22⟩] ∧
      ∃ q, unit.Hops (23, "n") 1 q ∧ unit.Feeds q ⟨0, 23, "n - 1", 2, some 22⟩ := by
  obtain ⟨numbered, own, steps⟩ : unit.Numbered ∧ graph.canonical 23 = 23 ∧
      graph.traceBackward unit 23 "n" 3 =
        [⟨0, 15, "n", 3, none⟩, ⟨1, 37, "m", 3, some 36⟩, ⟨0, 23, "n - 1", 2, some 22⟩] := by
    have spelled : source.toList = _ := String.toList_ofList
    rw [graph, unit, Bracketing.unit_spelled spelled]
    decide +kernel
  obtain ⟨-, n, q, hops, leads, feeds⟩ := (backwardTrace_sound numbered 0 [.buildUnit] 23 "n" 3).2
    ⟨0, 23, "n - 1", 2, some 22⟩ (by rw [← graph, steps]; simp)
  have used : (n : Int) = 3 - (2 : Nat) := hops
  obtain rfl : n = 1 := by omega
  rw [← graph, own] at leads
  exact ⟨numbered, own, steps, q, leads, feeds⟩

end PropertyGraph

end Retarget
