/-
# Proofs.Dataflow -- what a forward analysis computes

An analysis is separable if it treats every fact on its own: a node makes the facts it is the
origin of and ends those about the variables it writes.  For one fact the solver is then a sweep
over the blocks that carry the fact at their end (`carriers_pass`), and what it computes can be
said in terms of paths.  `Arrives f p` says that some path leads to the place `p` from where `f`
is made, or from the entry, without a write of its variable.

* `arrives_of_mem_factsAt`: whatever the cap, every fact found before a node arrives there;
* `mem_factsAt_of_arrives`: once a pass has changed nothing, every fact that arrives is found;
* `solve_converged`: one pass more than there are blocks is enough for that.
-/
import Retarget.Proofs.FlowPath
import Retarget.Proofs.Sweep

namespace Retarget

open Retarget.Source (NodeId)

set_option autoImplicit false
set_option linter.dupNamespace false

/-! ## Sets of facts -/

namespace Facts

variable {a b facts : Facts} {f : Fact} {v : String}

@[simp] theorem mem_join : f ∈ join a b ↔ f ∈ a ∨ f ∈ b := by
  induction b generalizing a with
  | nil => simp [join]
  | cons x b ih =>
      have unfolded : join a (x :: b) = join (if a.contains x then a else x :: a) b := rfl
      rw [unfolded, ih]
      split
      · rename_i known
        have held : x ∈ a := by simpa using known
        constructor
        · rintro (left | right)
          · exact Or.inl left
          · exact Or.inr (List.mem_cons_of_mem x right)
        · rintro (left | right)
          · exact Or.inl left
          · rcases List.mem_cons.mp right with rfl | later
            · exact Or.inl held
            · exact Or.inr later
      · simp only [List.mem_cons]
        grind

@[simp] theorem mem_without : f ∈ without facts v ↔ f ∈ facts ∧ f.var ≠ v := by
  simp [without]

theorem same_iff : same a b = true ↔ ∀ f, f ∈ a ↔ f ∈ b := by
  simp only [same, isSubset, Bool.and_eq_true, List.all_eq_true, List.contains_iff_mem]
  constructor
  · rintro ⟨left, right⟩ f
    exact ⟨left f, right f⟩
  · intro both
    exact ⟨fun f => (both f).mp, fun f => (both f).mpr⟩

theorem mem_foldl_join (outs : Nat → Facts) {ps : List Nat} {init : Facts} :
    f ∈ ps.foldl (fun acc p => join acc (outs p)) init ↔ f ∈ init ∨ ∃ p ∈ ps, f ∈ outs p := by
  induction ps generalizing init with
  | nil => simp
  | cons p ps ih =>
      rw [List.foldl_cons, ih, mem_join]
      simp only [List.mem_cons, exists_eq_or_imp]
      grind

end Facts

namespace ForwardAnalysis

/-- Every fact is treated on its own: a node makes the facts it is the origin of, about the
variables `makes` allows, and ends those about the variables it writes. -/
structure Separable (a : ForwardAnalysis) (access : Access) (makes : NodeId → String → Prop) :
    Prop where
  mem_transfer : ∀ (n : NodeId) (facts : Facts) (f : Fact), f ∈ a.transfer n facts ↔
    (f.origin = some n ∧ makes n f.var) ∨ (f ∈ facts ∧ f.var ∉ access.defs n)

/-- What becomes of a fact at a node. -/
def carry (access : Access) (makes : NodeId → String → Prop) (f : Fact) (held : Prop)
    (n : NodeId) : Prop :=
  (f.origin = some n ∧ makes n f.var) ∨ (held ∧ f.var ∉ access.defs n)

/-- What becomes of a fact along the nodes of a block. -/
def carryAll (access : Access) (makes : NodeId → String → Prop) (f : Fact) (held : Prop)
    (ns : List NodeId) : Prop :=
  ns.foldl (carry access makes f) held

/-- A fact flows into block `i` if it flows out of the blocks `s`. -/
def Enters (a : ForwardAnalysis) (g : FlowGraph) (f : Fact) (s : Set Nat) (i : Nat) : Prop :=
  (i = g.entry ∧ f ∈ a.onEntry) ∨ ∃ p ∈ s, i ∈ g.succs p

/-- When a fact flows out of a block, given the blocks it flows out of. -/
def blockRule (a : ForwardAnalysis) (access : Access) (makes : NodeId → String → Prop)
    (g : FlowGraph) (f : Fact) : Sweep.Rule :=
  fun s i => carryAll access makes f (a.Enters g f s i) (g.nodes i)

/-- The blocks a fact flows out of. -/
def carriers (outs : List Facts) (f : Fact) : Set Nat := {i | f ∈ outs.getD i []}

/-- A path leads to `p` from where the fact is made, or from the entry, without a write of the
variable. -/
def Arrives (a : ForwardAnalysis) (access : Access) (makes : NodeId → String → Prop)
    (g : FlowGraph) (f : Fact) (p : Point) : Prop :=
  (f ∈ a.onEntry ∧ ∃ ns, g.Path g.start ns p ∧ access.Clear f.var ns) ∨
  ∃ d q ns, f.origin = some d ∧ makes d f.var ∧ g.At q d ∧ g.Path q.next ns p ∧
    access.Clear f.var ns

/-- The facts at a place, when `outs` flows out of the blocks. -/
def factsAt (a : ForwardAnalysis) (g : FlowGraph) (outs : List Facts) (p : Point) : Facts :=
  a.through ((g.nodes p.block).take p.offset) (a.inflow g outs p.block)

/-- Recomputing any block gives what it has. -/
def Settled (a : ForwardAnalysis) (g : FlowGraph) (outs : List Facts) : Prop :=
  ∀ i < g.size, ∀ f, f ∈ a.through (g.nodes i) (a.inflow g outs i) ↔ f ∈ outs.getD i []

variable {a : ForwardAnalysis} {access : Access} {makes : NodeId → String → Prop}
variable {g : FlowGraph} {f : Fact} {outs : List Facts}

/-! ## One fact at a time -/

theorem mem_carriers {i : Nat} : i ∈ carriers outs f ↔ f ∈ outs.getD i [] := Iff.rfl

theorem mem_inflow {i : Nat} :
    f ∈ a.inflow g outs i ↔ a.Enters g f (carriers outs f) i := by
  unfold inflow Enters
  rw [Facts.mem_foldl_join fun p => outs.getD p []]
  apply or_congr
  · by_cases first : i = g.entry <;> simp [first]
  · simp only [FlowGraph.mem_preds, mem_carriers]
    constructor
    · rintro ⟨p, leads, held⟩
      exact ⟨p, held, leads⟩
    · rintro ⟨p, held, leads⟩
      exact ⟨p, leads, held⟩

theorem through_append (ns ms : List NodeId) (facts : Facts) :
    a.through (ns ++ ms) facts = a.through ms (a.through ns facts) := List.foldl_append

theorem Separable.mem_through (separable : a.Separable access makes) (ns : List NodeId)
    (facts : Facts) : f ∈ a.through ns facts ↔ carryAll access makes f (f ∈ facts) ns := by
  induction ns generalizing facts with
  | nil => rfl
  | cons n ns ih =>
      have step : (f ∈ a.transfer n facts) = carry access makes f (f ∈ facts) n :=
        propext (separable.mem_transfer n facts f)
      have rest := ih (a.transfer n facts)
      rw [step] at rest
      exact rest

theorem carryAll_mono {held held' : Prop} (more : held → held') (ns : List NodeId) :
    carryAll access makes f held ns → carryAll access makes f held' ns := by
  induction ns generalizing held held' with
  | nil => exact more
  | cons n ns ih => exact ih (Or.imp_right (And.imp_left more))

theorem carryAll_snoc {held : Prop} (ns : List NodeId) (n : NodeId) :
    carryAll access makes f held (ns ++ [n]) ↔
      carry access makes f (carryAll access makes f held ns) n := by
  simp [carryAll]

theorem blockRule_increasing : (a.blockRule access makes g f).Increasing := by
  intro s t sub i
  apply carryAll_mono
  rintro (first | ⟨p, member, leads⟩)
  · exact Or.inl first
  · exact Or.inr ⟨p, sub member, leads⟩

theorem Separable.mem_block (separable : a.Separable access makes) (outs : List Facts) (i : Nat) :
    f ∈ a.through (g.nodes i) (a.inflow g outs i) ↔
      a.blockRule access makes g f (carriers outs f) i := by
  rw [separable.mem_through, propext mem_inflow]
  rfl

/-! ## Visits and passes -/

theorem visitBlock_eq (state : List Facts × Bool) (i : Nat) :
    a.visitBlock g state i =
      if Facts.same (a.through (g.nodes i) (a.inflow g state.1 i)) (state.1.getD i []) then state
      else (state.1.set i (a.through (g.nodes i) (a.inflow g state.1 i)), true) := rfl

@[simp] theorem visitBlock_length (state : List Facts × Bool) (i : Nat) :
    (a.visitBlock g state i).1.length = state.1.length := by
  rw [visitBlock_eq]
  split <;> simp

theorem Separable.carriers_visitBlock (separable : a.Separable access makes)
    (state : List Facts × Bool) {i : Nat} (low : i < state.1.length) :
    carriers (a.visitBlock g state i).1 f
      = Sweep.visit (a.blockRule access makes g f) (carriers state.1 f) i := by
  have block := separable.mem_block (g := g) (f := f) state.1 i
  ext j
  rw [visitBlock_eq, Sweep.mem_visit, ← block]
  by_cases same : j = i
  · subst same
    split
    · rename_i unchanged
      have agrees := Facts.same_iff.mp unchanged f
      simpa [mem_carriers] using agrees.symm
    · simp [mem_carriers, low]
  · split
    · simp [same]
    · simp [mem_carriers, same, List.getElem?_set_ne (Ne.symm same)]

/-- Visits over some blocks act on the carriers of each fact as a sweep. -/
theorem Separable.carriers_foldl (separable : a.Separable access makes) {order : List Nat}
    (state : List Facts × Bool) (low : ∀ i ∈ order, i < state.1.length) :
    (order.foldl (a.visitBlock g) state).1.length = state.1.length ∧
      carriers (order.foldl (a.visitBlock g) state).1 f
        = Sweep.pass (a.blockRule access makes g f) order (carriers state.1 f) := by
  induction order generalizing state with
  | nil => exact ⟨rfl, rfl⟩
  | cons i order ih =>
      have rest : ∀ j ∈ order, j < (a.visitBlock g state i).1.length := by
        intro j member
        rw [visitBlock_length]
        exact low j (List.mem_cons_of_mem i member)
      obtain ⟨long, sweeps⟩ := ih (a.visitBlock g state i) rest
      rw [visitBlock_length] at long
      rw [separable.carriers_visitBlock state (low i List.mem_cons_self)] at sweeps
      exact ⟨long, sweeps⟩

theorem Separable.carriers_pass (separable : a.Separable access makes)
    (long : outs.length = g.size) :
    (a.pass g outs).1.length = g.size ∧
      carriers (a.pass g outs).1 f
        = Sweep.pass (a.blockRule access makes g f) (List.range g.size) (carriers outs f) := by
  have low : ∀ i ∈ List.range g.size, i < outs.length := by simp [long]
  obtain ⟨same, sweeps⟩ := separable.carriers_foldl (f := f) (outs, false) low
  exact ⟨same.trans long, sweeps⟩

/-- Visits that raise no flag have changed nothing and found every block as it should be. -/
theorem foldl_visitBlock_quiet {order : List Nat} {state : List Facts × Bool}
    (quiet : (order.foldl (a.visitBlock g) state).2 = false) :
    order.foldl (a.visitBlock g) state = state ∧ ∀ i ∈ order, ∀ f,
      f ∈ a.through (g.nodes i) (a.inflow g state.1 i) ↔ f ∈ state.1.getD i [] := by
  induction order generalizing state with
  | nil => simp
  | cons i order ih =>
      obtain ⟨rest, settled⟩ := ih quiet
      rw [List.foldl_cons, rest] at quiet
      -- The flag is not raised by this visit, so the visit leaves the state alone.
      have here : Facts.same (a.through (g.nodes i) (a.inflow g state.1 i))
          (state.1.getD i []) = true := by
        by_contra changed
        rw [visitBlock_eq, if_neg changed] at quiet
        cases quiet
      have unchanged : a.visitBlock g state i = state := if_pos here
      rw [unchanged] at rest settled
      refine ⟨by rw [List.foldl_cons, unchanged, rest], ?_⟩
      intro j listed
      rcases List.mem_cons.mp listed with rfl | later
      · exact Facts.same_iff.mp here
      · exact settled j later

theorem foldl_visitBlock_of_settled {order : List Nat} {state : List Facts × Bool}
    (settled : ∀ i ∈ order, ∀ f,
      f ∈ a.through (g.nodes i) (a.inflow g state.1 i) ↔ f ∈ state.1.getD i []) :
    order.foldl (a.visitBlock g) state = state := by
  induction order with
  | nil => rfl
  | cons i order ih =>
      have unchanged : a.visitBlock g state i = state :=
        if_pos (Facts.same_iff.mpr (settled i List.mem_cons_self))
      rw [List.foldl_cons, unchanged]
      exact ih fun j member => settled j (List.mem_cons_of_mem i member)

theorem pass_quiet_iff : (a.pass g outs).2 = false ↔ a.Settled g outs := by
  constructor
  · intro quiet i low
    exact (foldl_visitBlock_quiet quiet).2 i (List.mem_range.mpr low)
  · intro settled
    have stays : a.pass g outs = (outs, false) :=
      foldl_visitBlock_of_settled fun i listed => settled i (List.mem_range.mp listed)
    rw [stays]

theorem pass_of_quiet (quiet : (a.pass g outs).2 = false) : a.pass g outs = (outs, false) :=
  (foldl_visitBlock_quiet quiet).1

/-! ## The whole run -/

/-- What flows out of the blocks after one more pass. -/
def afterPass (a : ForwardAnalysis) (g : FlowGraph) (outs : List Facts) : List Facts :=
  (a.pass g outs).1

theorem iterate_outs (cap done : Nat) (outs : List Facts) :
    (a.iterate g cap done outs).outs = (a.afterPass g)^[cap] outs := by
  induction cap generalizing done outs with
  | zero => rfl
  | succ cap ih =>
      rw [Function.iterate_succ_apply, iterate]
      split
      · rename_i next passed
        rw [ih, show a.afterPass g outs = next from congrArg Prod.fst passed]
      · rename_i next passed
        have stays := pass_of_quiet (congrArg Prod.snd passed)
        have fixed : a.afterPass g outs = outs := congrArg Prod.fst stays
        rw [fixed, Function.iterate_fixed fixed, ← fixed]
        exact (congrArg Prod.fst passed).symm

theorem iterate_converged_iff (cap done : Nat) (outs : List Facts) :
    (a.iterate g cap done outs).converged = true ↔
      ∃ k < cap, a.Settled g ((a.afterPass g)^[k] outs) := by
  induction cap generalizing done outs with
  | zero => simp [iterate]
  | succ cap ih =>
      rw [iterate]
      split
      · rename_i next passed
        have moved : ¬ a.Settled g outs := by
          rw [← pass_quiet_iff, passed]
          simp
        have first : a.afterPass g outs = next := congrArg Prod.fst passed
        rw [ih]
        constructor
        · rintro ⟨k, few, settled⟩
          refine ⟨k + 1, by omega, ?_⟩
          rwa [Function.iterate_succ_apply, first]
        · rintro ⟨k, few, settled⟩
          cases k with
          | zero => exact absurd settled moved
          | succ k =>
              rw [Function.iterate_succ_apply, first] at settled
              exact ⟨k, by omega, settled⟩
      · rename_i next passed
        have settled : a.Settled g outs := pass_quiet_iff.mp (congrArg Prod.snd passed)
        exact iff_of_true rfl ⟨0, Nat.succ_pos cap, settled⟩

theorem solve_outs (cap : Nat) :
    (a.solve g cap).outs = (a.afterPass g)^[cap] (List.replicate g.size []) :=
  iterate_outs cap 0 _

theorem carriers_init : carriers (List.replicate g.size []) f = ∅ := by
  ext i
  by_cases low : i < g.size <;> simp [mem_carriers, low]

/-- After `k` passes the carriers of a fact are those of `k` sweeps from nothing. -/
theorem Separable.carriers_iterate (separable : a.Separable access makes) (k : Nat) :
    ((a.afterPass g)^[k] (List.replicate g.size [])).length = g.size ∧
      carriers ((a.afterPass g)^[k] (List.replicate g.size [])) f
        = (Sweep.pass (a.blockRule access makes g f) (List.range g.size))^[k] ∅ := by
  induction k with
  | zero => exact ⟨by simp, carriers_init⟩
  | succ k ih =>
      rw [Function.iterate_succ_apply', Function.iterate_succ_apply', ← ih.2]
      exact separable.carriers_pass ih.1

theorem supported_empty :
    Sweep.Supported (a.blockRule access makes g f) (List.range g.size) ∅ := by
  intro i _ member
  cases member

/-- A solved analysis that converged has settled. -/
theorem settled_of_converged {cap : Nat} (converged : (a.solve g cap).converged = true) :
    a.Settled g (a.solve g cap).outs := by
  obtain ⟨k, few, settled⟩ := (iterate_converged_iff cap 0 _).mp converged
  have fixed : a.afterPass g ((a.afterPass g)^[k] (List.replicate g.size []))
      = (a.afterPass g)^[k] (List.replicate g.size []) :=
    congrArg Prod.fst (pass_of_quiet (pass_quiet_iff.mpr settled))
  have parts : cap = (cap - k) + k := by omega
  rwa [solve_outs, parts, Function.iterate_add_apply, Function.iterate_fixed fixed]

/-- One pass more than there are blocks is enough: for every fact the first passes have found
all the carriers, and the last one finds nothing to change. -/
theorem Separable.solve_converged (separable : a.Separable access makes) {cap : Nat}
    (enough : g.size + 1 ≤ cap) : (a.solve g cap).converged = true := by
  refine (iterate_converged_iff cap 0 _).mpr ⟨g.size, by omega, ?_⟩
  intro i low f
  have carried := (separable.carriers_iterate (g := g) (f := f) g.size).2
  let sweep := Sweep.pass (a.blockRule access makes g f) (List.range g.size)
  have supported : Sweep.Supported (a.blockRule access makes g f) (List.range g.size)
      (sweep^[g.size] ∅) := supported_empty.iterate blockRule_increasing g.size
  have stable : sweep (sweep^[g.size] ∅) = sweep^[g.size] ∅ :=
    Sweep.iterate_pass_stable blockRule_increasing supported_empty
      (fun j listed => List.mem_range.mp listed) (fun j member => by cases member) (le_refl g.size)
  rw [separable.mem_block, ← mem_carriers, carried]
  exact Sweep.rule_iff_of_pass_eq blockRule_increasing supported stable (List.mem_range.mpr low)

/-! ## Facts and paths -/

theorem factsAt_next {p : Point} {n : NodeId} (before : g.At p n) :
    a.factsAt g outs p.next = a.transfer n (a.factsAt g outs p) := by
  have longer : (g.nodes p.block).take (p.offset + 1)
      = (g.nodes p.block).take p.offset ++ [n] := by
    rw [List.take_add_one, show (g.nodes p.block)[p.offset]? = some n from before]
    rfl
  simp only [factsAt, Point.next, longer, through_append]
  rfl

theorem factsAt_blockEnd (i : Nat) :
    a.factsAt g outs (g.blockEnd i) = a.through (g.nodes i) (a.inflow g outs i) := by
  simp [factsAt, FlowGraph.blockEnd]

theorem factsAt_zero (i : Nat) : a.factsAt g outs ⟨i, 0⟩ = a.inflow g outs i := by
  simp [factsAt, through]

namespace Arrives

variable {p : Point}

theorem ofEntry (known : f ∈ a.onEntry) : a.Arrives access makes g f g.start :=
  Or.inl ⟨known, [], .here _, Access.clear_nil⟩

theorem made {n : NodeId} (before : g.At p n) (origin : f.origin = some n)
    (makesIt : makes n f.var) : a.Arrives access makes g f p.next :=
  Or.inr ⟨n, p, [], origin, makesIt, before, .here _, Access.clear_nil⟩

/-- A path without a write of the variable takes a fact along. -/
theorem along {q : Point} {ns : List NodeId} (arrives : a.Arrives access makes g f p)
    (path : g.Path p ns q) (clear : access.Clear f.var ns) : a.Arrives access makes g f q := by
  rcases arrives with ⟨known, ms, sofar, free⟩ | ⟨d, o, ms, origin, makesIt, atD, sofar, free⟩
  · exact Or.inl ⟨known, ms ++ ns, sofar.trans path, by simp [free, clear]⟩
  · exact Or.inr ⟨d, o, ms ++ ns, origin, makesIt, atD, sofar.trans path, by simp [free, clear]⟩

end Arrives

/-- What is carried along the first nodes of a block arrives behind them. -/
theorem arrives_of_carryAll {i k : Nat} {held : Prop} (short : k ≤ (g.nodes i).length)
    (entering : held → a.Arrives access makes g f ⟨i, 0⟩)
    (carried : carryAll access makes f held ((g.nodes i).take k)) :
    a.Arrives access makes g f ⟨i, k⟩ := by
  induction k with
  | zero => exact entering (by simpa [carryAll] using carried)
  | succ k ih =>
      obtain ⟨n, here⟩ : ∃ n, (g.nodes i)[k]? = some n := ⟨_, List.getElem?_eq_getElem short⟩
      have before : g.At ⟨i, k⟩ n := here
      rw [List.take_add_one, here, Option.toList_some, carryAll_snoc] at carried
      rcases carried with ⟨origin, makesIt⟩ | ⟨earlier, spared⟩
      · exact Arrives.made before origin makesIt
      · exact (ih (by omega) earlier).along (.node before (.here _)) (by simp [spared])

theorem arrives_of_enters {i : Nat} {s : Set Nat}
    (sound : ∀ p ∈ s, a.Arrives access makes g f (g.blockEnd p)) (enters : a.Enters g f s i) :
    a.Arrives access makes g f ⟨i, 0⟩ := by
  rcases enters with ⟨rfl, known⟩ | ⟨p, member, leads⟩
  · exact Arrives.ofEntry known
  · exact (sound p member).along (.edge leads (.here _)) Access.clear_nil

/-- Whatever the cap, a fact that flows out of a block arrives at its end. -/
theorem Separable.arrives_of_mem_outs (separable : a.Separable access makes) (cap : Nat)
    {i : Nat} (found : f ∈ (a.solve g cap).outs.getD i []) :
    a.Arrives access makes g f (g.blockEnd i) := by
  let sound : Set Nat := {j | a.Arrives access makes g f (g.blockEnd j)}
  have closed : ∀ j, a.blockRule access makes g f sound j → j ∈ sound := by
    intro j carried
    have entering : a.Enters g f sound j → a.Arrives access makes g f ⟨j, 0⟩ :=
      arrives_of_enters fun p member => member
    refine arrives_of_carryAll (le_refl _) entering ?_
    rw [List.take_length]
    exact carried
  have within : (Sweep.pass (a.blockRule access makes g f) (List.range g.size))^[cap] ∅ ⊆ sound :=
    Sweep.iterate_pass_subset blockRule_increasing closed (Set.empty_subset sound) cap
  rw [← (separable.carriers_iterate (g := g) (f := f) cap).2, ← solve_outs] at within
  exact within found

/-- Whatever the cap, a fact found at a place arrives there. -/
theorem Separable.arrives_of_mem_factsAt (separable : a.Separable access makes) (cap : Nat)
    {p : Point} (inside : p.offset ≤ (g.nodes p.block).length)
    (found : f ∈ a.factsAt g (a.solve g cap).outs p) : a.Arrives access makes g f p := by
  rw [factsAt, separable.mem_through, propext mem_inflow] at found
  exact arrives_of_carryAll inside
    (arrives_of_enters fun _ member => separable.arrives_of_mem_outs cap member) found

/-- Once the blocks have settled, a path without a write of the variable keeps a fact. -/
theorem Separable.mem_factsAt_along (separable : a.Separable access makes)
    (settled : a.Settled g outs) {p q : Point} {ns : List NodeId} (path : g.Path p ns q)
    (clear : access.Clear f.var ns) (found : f ∈ a.factsAt g outs p) :
    f ∈ a.factsAt g outs q := by
  induction path with
  | here => exact found
  | node before _ ih =>
      obtain ⟨spared, rest⟩ := Access.clear_cons.mp clear
      refine ih rest ?_
      rw [factsAt_next before, separable.mem_transfer]
      exact Or.inr ⟨found, spared⟩
  | edge leads _ ih =>
      refine ih clear ?_
      rw [factsAt_blockEnd, settled _ (FlowGraph.lt_size_of_mem_succs leads)] at found
      rw [factsAt_zero, mem_inflow]
      exact Or.inr ⟨_, found, leads⟩

theorem Separable.mem_factsAt_of_arrives (separable : a.Separable access makes)
    (settled : a.Settled g outs) {p : Point} (arrives : a.Arrives access makes g f p) :
    f ∈ a.factsAt g outs p := by
  rcases arrives with ⟨known, ns, path, clear⟩ | ⟨d, q, ns, origin, makesIt, atD, path, clear⟩
  · refine separable.mem_factsAt_along settled path clear ?_
    rw [FlowGraph.start, factsAt_zero, mem_inflow]
    exact Or.inl ⟨rfl, known⟩
  · refine separable.mem_factsAt_along settled path clear ?_
    rw [factsAt_next atD, separable.mem_transfer]
    exact Or.inl ⟨origin, makesIt⟩

/-! ## The facts before each node -/

theorem mem_beforeEach {ns : List NodeId} {facts found : Facts} {n : NodeId} :
    (n, found) ∈ a.beforeEach facts ns ↔
      ∃ k, ns[k]? = some n ∧ found = a.through (ns.take k) facts := by
  induction ns generalizing facts with
  | nil => simp [beforeEach]
  | cons m ns ih =>
      simp only [beforeEach, List.mem_cons, Prod.mk.injEq, ih]
      constructor
      · rintro (⟨rfl, rfl⟩ | ⟨k, here, rfl⟩)
        · exact ⟨0, rfl, rfl⟩
        · exact ⟨k + 1, here, rfl⟩
      · rintro ⟨k, here, rfl⟩
        cases k with
        | zero => exact Or.inl ⟨(Option.some.inj here).symm, rfl⟩
        | succ k => exact Or.inr ⟨k, here, rfl⟩

theorem mem_before {n : NodeId} {found : Facts} :
    (n, found) ∈ a.before g outs ↔ ∃ p, g.At p n ∧ found = a.factsAt g outs p := by
  simp only [before, List.mem_flatMap, List.mem_range, mem_beforeEach]
  constructor
  · rintro ⟨i, -, k, here, rfl⟩
    exact ⟨⟨i, k⟩, here, rfl⟩
  · rintro ⟨p, here, rfl⟩
    exact ⟨p.block, here.lt_size, p.offset, here, rfl⟩

theorem lookup_before (distinct : g.statements.Nodup) {p : Point} {n : NodeId}
    (here : g.At p n) : (a.before g outs).lookup n = some (a.factsAt g outs p) := by
  cases found : (a.before g outs).lookup n with
  | none =>
      have listed : (n, a.factsAt g outs p) ∈ a.before g outs := mem_before.mpr ⟨p, here, rfl⟩
      have absent := List.lookup_eq_none_iff.mp found _ listed
      simp at absent
  | some facts =>
      obtain ⟨front, back, parts, -⟩ := List.lookup_eq_some_iff.mp found
      have listed : (n, facts) ∈ a.before g outs := by simp [parts]
      obtain ⟨q, there, rfl⟩ := mem_before.mp listed
      rw [here.unique distinct there]

theorem lookup_before_absent {n : NodeId} (absent : n ∉ g.statements) :
    (a.before g outs).lookup n = none := by
  rw [List.lookup_eq_none_iff]
  rintro ⟨m, facts⟩ listed
  obtain ⟨p, here, -⟩ := mem_before.mp listed
  have stands : m ∈ g.statements := FlowGraph.mem_statements.mpr ⟨p, here⟩
  have differs : n ≠ m := fun same => absent (same ▸ stands)
  simpa using differs

end ForwardAnalysis

end Retarget
