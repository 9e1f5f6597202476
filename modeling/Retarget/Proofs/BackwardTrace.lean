/-
# Proofs.BackwardTrace -- what a backward trace finds

A trace asks where a variable has its value from before a statement, then asks the same of every
variable that went into it: it hops (`Hop`) from a pair of statement and variable to the next ones.

`backwardTrace_complete`: each step found tells an origin of a pair that is as many hops away as the
budget was used for, and every pair that hops lead to has all its origins among the steps, unless
the hops pass a pair that a chain of hops without repetition reaches with its budget just spent
(`Spent`).  A pair is followed once only; if that was at the very end of the budget, it is not
followed again when a shorter way leads there, and what lies behind it is lost
(`backwardTrace_loses`).
-/
import Retarget.Proofs.Bracketing
import Retarget.Proofs.TraceGround

namespace Retarget

open Retarget.Source (Node NodeId)

set_option autoImplicit false
set_option linter.dupNamespace false

/-- There is a step that tells this origin with the budget left, and if there is any the variables
`ws` of its statement are followed. -/
structure Tracing.Settles (t : Tracing) (budget : Nat) (d : NodeId) (x : String)
    (via : Option NodeId) (ws : List String) : Prop where
  told : ∃ st ∈ t.steps, st.stmt = d ∧ st.var = x ∧ st.via = via ∧ st.depth = budget
  followed : 0 < budget → ∀ w ∈ ws, (d, w) ∈ t.seen

theorem Tracing.Settles.mono {t t' : Tracing} {budget : Nat} {d : NodeId} {x : String}
    {via : Option NodeId} {ws : List String} (settled : t.Settles budget d x via ws)
    (grows : t.Grows t') : t'.Settles budget d x via ws where
  told := by
    obtain ⟨st, found, shape⟩ := settled.told
    exact ⟨st, grows.steps found, shape⟩
  followed left w member := grows.seen (settled.followed left w member)

namespace PropertyGraph

/-! ## Hops -/

section Hops

variable (g : PropertyGraph) (u : SourceUnit)

/-- The value that parameter `p` of kernel `k` comes in with may be the one asked for. -/
def ComesIn (q : NodeId × String) (k : KernelId) (p : Param) : Prop :=
  ∃ b, g.infoOf? q.1 = some b ∧ b.kernel = k ∧
    b.facts.isIncoming (g.canonical q.1) q.2 = true ∧ (u.kernel? k).bind (·.param? q.2) = some p

/-- Call `c`, made by statement `d` of a built kernel, supplies `arg` for parameter `p` of `k`. -/
structure Supplies (k : KernelId) (p : Param) (d : NodeId) (c : Node) (arg : NodeId) : Prop where
  caller : ∃ b ∈ g.built, d ∈ b.stmts
  makes : c ∈ u.callsOf d
  callee : (u.callee? c).map (·.id) = some k
  argument : (SourceUnit.callArgs c)[p.index]? = some arg

/-- Where the value asked for may come from: a statement, what it gives and the call crossed. -/
inductive Origin (q : NodeId × String) : NodeId → String → Option NodeId → Prop
  | definition {d : NodeId} : d ∈ g.definitions q.1 q.2 → Origin q d q.2 none
  | argument {k : KernelId} {p : Param} {d : NodeId} {c : Node} {arg : NodeId} :
      g.ComesIn u q k p → g.Supplies u k p d c arg → Origin q d (u.printId arg) (some c.id)

/-- From a variable at a statement to one that may have gone into its value. -/
inductive Hop : NodeId × String → NodeId × String → Prop
  | definition {q : NodeId × String} {d : NodeId} {w : String} :
      d ∈ g.definitions q.1 q.2 → w ∈ (g.variablesAt d).2 → Hop q (d, w)
  | argument {q : NodeId × String} {k : KernelId} {p : Param} {d : NodeId} {c : Node} {arg : NodeId}
      {w : String} :
      g.ComesIn u q k p → g.Supplies u k p d c arg → w ∈ refsOf u arg → Hop q (d, w)

/-- Hops one after the other, with the pairs they lead over, the latest first. -/
inductive HopPath (start : NodeId × String) : List (NodeId × String) → NodeId × String → Prop
  | here : HopPath start [] start
  | hop {path : List (NodeId × String)} {q r : NodeId × String} :
      HopPath start path q → g.Hop u q r → HopPath start (q :: path) r

/-- All origins of the pair are among the steps, each with this budget left. -/
def Told (steps : List TraceStep) (left : Nat) (q : NodeId × String) : Prop :=
  ∀ d x via, g.Origin u q d x via →
    ∃ st ∈ steps, st.stmt = d ∧ st.var = x ∧ st.via = via ∧ st.depth = left

/-- All hops from the pair have been followed. -/
def Followed (seen : List (NodeId × String)) (q : NodeId × String) : Prop :=
  ∀ r, g.Hop u q r → r ∈ seen

/-- A chain of hops without repetition gets to the pair and uses up all of the budget. -/
def Spent (start : NodeId × String) (depth : Nat) (q : NodeId × String) : Prop :=
  ∃ path, g.HopPath u start path q ∧ (q :: path).Nodup ∧ path.length = depth

/-- The step tells an origin of a pair that as many hops lead to as budget was used, and names the
kernel of its statement. -/
def Explains (start : NodeId × String) (depth : Nat) (st : TraceStep) : Prop :=
  (g.infoOf? st.stmt).map (·.kernel) = some st.kernel ∧
    ∃ path q, g.HopPath u start path q ∧ path.length + st.depth = depth ∧
      g.Origin u q st.stmt st.var st.via

/-- While the pairs of `path` are being followed: every other pair met is done with. -/
structure Searching (start : NodeId × String) (depth : Nat) (path : List (NodeId × String))
    (t : Tracing) : Prop where
  following : path ⊆ t.seen
  done : ∀ q ∈ t.seen, q ∉ path → ∃ left, g.Told u t.steps left q ∧
    (g.Followed u t.seen q ∨ left = 0 ∧ g.Spent u start depth q)
  sound : ∀ st ∈ t.steps, g.Explains u start depth st

end Hops

variable {g : PropertyGraph} {u : SourceUnit} {b : BuiltKernel} {start q r : NodeId × String}
  {depth budget : Nat} {path : List (NodeId × String)} {t t' : Tracing} {s d : NodeId} {v : String}

theorem Told.mono {steps more : List TraceStep} {left : Nat} (told : g.Told u steps left q)
    (sub : steps ⊆ more) : g.Told u more left q := by
  intro d x via origin
  obtain ⟨st, found, shape⟩ := told d x via origin
  exact ⟨st, sub found, shape⟩

theorem Followed.mono {seen more : List (NodeId × String)} (followed : g.Followed u seen q)
    (sub : seen ⊆ more) : g.Followed u more q := fun r hop => sub (followed r hop)

/-! ## What is known of a pair -/

/-- There is nothing to tell of a statement of no built kernel. -/
theorem told_of_infoOf? (unknown : g.infoOf? q.1 = none) (steps : List TraceStep) (left : Nat) :
    g.Told u steps left q := by
  intro d x via origin
  cases origin with
  | definition reaches => simp [definitions, unknown] at reaches
  | argument comes _ =>
      obtain ⟨b, info, -⟩ := comes
      cases unknown.symm.trans info

theorem followed_of_infoOf? (unknown : g.infoOf? q.1 = none) (seen : List (NodeId × String)) :
    g.Followed u seen q := by
  intro r hop
  cases hop with
  | definition reaches _ => simp [definitions, unknown] at reaches
  | argument comes _ _ =>
      obtain ⟨b, info, -⟩ := comes
      cases unknown.symm.trans info

/-! ## Steps of the search -/

/-- What the search does with a pair of kernel `b` that it has not met before. -/
def expand (g : PropertyGraph) (u : SourceUnit) (follow : Tracing → NodeId → String → Tracing)
    (b : BuiltKernel) (budget : Nat) (t : Tracing) (s : NodeId) (v : String) : Tracing :=
  let told := (originsOf b.graph (b.facts.factsBefore s) v).foldl
    (throughDefinition follow b v budget) t
  if !b.facts.isIncoming s v then told
  else match (u.kernel? b.kernel).bind (·.param? v) with
    | none => told
    | some p => (g.callsInto b.kernel).foldl (g.throughArgument u follow p budget) told

theorem backward_succ (g : PropertyGraph) (u : SourceUnit) (budget : Nat) (t : Tracing) (s : NodeId)
    (v : String) :
    g.backward u (budget + 1) t s v =
      if t.seen.contains (s, v) then t
      else match g.infoOf? s with
        | none => t.mark s v
        | some b => g.expand u (g.backward u budget) b budget (t.mark s v) s v := rfl

namespace Searching

theorem enter (searching : g.Searching u start depth path t) (s : NodeId) (v : String) :
    g.Searching u start depth ((s, v) :: path) (t.mark s v) where
  following := List.cons_subset_cons _ searching.following
  done := by
    intro q seen apart
    obtain ⟨other, off⟩ := not_or.mp (List.mem_cons.not.mp apart)
    have before : q ∈ t.seen := (Tracing.mem_seen_mark.mp seen).resolve_left other
    obtain ⟨left, told, rest⟩ := searching.done q before off
    exact ⟨left, told, rest.imp_left fun followed => followed.mono (t.grows_mark s v).seen⟩
  sound := searching.sound

/-- A pair whose origins are told and whose hops are followed, if budget was left, is done with. -/
theorem leave {left : Nat} (searching : g.Searching u start depth (q :: path) t)
    (told : g.Told u t.steps left q)
    (rest : g.Followed u t.seen q ∨ left = 0 ∧ g.Spent u start depth q) :
    g.Searching u start depth path t where
  following := fun _ member => searching.following (List.mem_cons_of_mem _ member)
  done := by
    intro r seen off
    by_cases same : r = q
    · subst same
      exact ⟨left, told, rest⟩
    · exact searching.done r seen (List.mem_cons.not.mpr (not_or.mpr ⟨same, off⟩))
  sound := searching.sound

theorem add (searching : g.Searching u start depth path t) {st : TraceStep}
    (explains : g.Explains u start depth st) : g.Searching u start depth path (t.add st) where
  following := searching.following
  done := by
    intro q seen off
    obtain ⟨left, told, rest⟩ := searching.done q seen off
    exact ⟨left, told.mono (t.grows_add st).steps, rest⟩
  sound := by
    intro st' found
    rcases Tracing.mem_steps_add.mp found with before | rfl
    · exact searching.sound st' before
    · exact explains

/-- A pair all of whose origins have been settled is done with. -/
theorem finish {budget : Nat} (searching : g.Searching u start depth (q :: path) t)
    (spent : budget = 0 → g.Spent u start depth q)
    (defined : ∀ d ∈ g.definitions q.1 q.2, t.Settles budget d q.2 none (g.variablesAt d).2)
    (supplied : ∀ k p, g.ComesIn u q k p → ∀ d c arg, g.Supplies u k p d c arg →
      t.Settles budget d (u.printId arg) (some c.id) (refsOf u arg)) :
    g.Searching u start depth path t := by
  have told : g.Told u t.steps budget q := by
    intro d x via origin
    cases origin with
    | definition reaches => exact (defined d reaches).told
    | argument comes supplies => exact (supplied _ _ comes _ _ _ supplies).told
  refine searching.leave told ?_
  rcases Nat.eq_zero_or_pos budget with none | left
  · exact Or.inr ⟨none, spent none⟩
  · refine Or.inl fun r hop => ?_
    cases hop with
    | definition reaches uses => exact (defined _ reaches).followed left _ uses
    | argument comes supplies mentions =>
        exact (supplied _ _ comes _ _ _ supplies).followed left _ mentions

end Searching

/-- Following a pair that hops over `path` lead to keeps the search going and, with budget left,
sees to the pair. -/
def Pursues (g : PropertyGraph) (u : SourceUnit) (start : NodeId × String) (depth budget : Nat)
    (path : List (NodeId × String)) (follow : Tracing → NodeId → String → Tracing) : Prop :=
  ∀ t s v, g.canonical s = s → g.HopPath u start path (s, v) → g.Searching u start depth path t →
    t.Grows (follow t s v) ∧ g.Searching u start depth path (follow t s v) ∧
      (0 < budget → (s, v) ∈ (follow t s v).seen)

section Steps

variable {follow : Tracing → NodeId → String → Tracing}
  (pursues : Pursues g u start depth budget path follow)

include pursues

theorem Pursues.foldl {ws : List String} (own : g.canonical d = d)
    (hops : ∀ w ∈ ws, g.HopPath u start path (d, w))
    (searching : g.Searching u start depth path t) :
    t.Grows (ws.foldl (fun t w => follow t d w) t) ∧
      g.Searching u start depth path (ws.foldl (fun t w => follow t d w) t) ∧
      ∀ w ∈ ws, 0 < budget → (d, w) ∈ (ws.foldl (fun t w => follow t d w) t).seen :=
  Tracing.foldl_settles (Q := fun w t => 0 < budget → (d, w) ∈ t.seen)
    (fun _ _ _ grows settled left => grows.seen (settled left))
    (fun w member t before => pursues t d w own (hops w member) before) searching

/-- What follows once a step has been found: it is kept, and the variables `ws` are followed. -/
theorem Pursues.step (st : TraceStep) {ws : List String} (left : st.depth = budget)
    (own : g.canonical st.stmt = st.stmt) (explains : g.Explains u start depth st)
    (hops : ∀ w ∈ ws, g.HopPath u start path (st.stmt, w))
    (searching : g.Searching u start depth path t) :
    let after := ws.foldl (fun t w => follow t st.stmt w) (t.add st)
    t.Grows after ∧ g.Searching u start depth path after ∧
      after.Settles budget st.stmt st.var st.via ws := by
  obtain ⟨grows, searching, seen⟩ := pursues.foldl own hops (searching.add explains)
  refine ⟨(t.grows_add st).trans grows, searching, ⟨st, ?_, rfl, rfl, rfl, left⟩, ?_⟩
  · exact grows.steps (t.mem_add st)
  · exact fun left w member => seen w member left

end Steps

section Expand

variable {follow : Tracing → NodeId → String → Tracing} (charted : g.Charted u)
  (built : b ∈ g.built) (stands : s ∈ b.stmts) (leads : g.HopPath u start path (s, v))
  (length : path.length + budget = depth)
  (pursues : Pursues g u start depth budget ((s, v) :: path) follow)
  (searching : g.Searching u start depth ((s, v) :: path) t)

include charted built stands leads length pursues searching

/-- All definitions are told, and what they use is followed. -/
theorem Pursues.definitions :
    let after := (originsOf b.graph (b.facts.factsBefore s) v).foldl
      (throughDefinition follow b v budget) t
    t.Grows after ∧ g.Searching u start depth ((s, v) :: path) after ∧
      ∀ d ∈ g.definitions s v, after.Settles budget d v none (g.variablesAt d).2 := by
  have answer := charted.wired.definitions_eq (v := v) charted.numbered charted.indexed built stands
    (charted.canonical_eq built stands)
  rw [← answer]
  refine Tracing.foldl_settles (Q := fun d t => t.Settles budget d v none (g.variablesAt d).2)
    (fun d t t' grows settled => settled.mono grows) ?_ searching
  intro d reaches t searching
  obtain ⟨k, listed, describes⟩ := (charted.wired.kernels b built).listed
  have inside : d ∈ b.stmts := by
    rw [answer, originsOf, List.mem_filter] at reaches
    exact describes.stmts ▸ reaches.1
  have uses : (g.variablesAt d).2 = b.facts.access.uses d := by
    rw [variablesAt, charted.infoOf?_eq built inside, charted.canonical_eq built inside]
  rw [uses]
  refine pursues.step ⟨b.kernel, d, v, budget, none⟩ rfl (charted.canonical_eq built inside)
    ⟨?_, path, (s, v), leads, length, .definition reaches⟩ ?_ searching
  · rw [charted.infoOf?_eq built inside, Option.map_some]
  · exact fun w member => leads.hop (.definition reaches (uses ▸ member))

omit built stands in
/-- All arguments are told, and what they mention is followed. -/
theorem Pursues.arguments {p : Param} (comes : g.ComesIn u (s, v) b.kernel p) :
    let after := (g.callsInto b.kernel).foldl (g.throughArgument u follow p budget) t
    t.Grows after ∧ g.Searching u start depth ((s, v) :: path) after ∧
      ∀ d c arg, g.Supplies u b.kernel p d c arg →
        after.Settles budget d (u.printId arg) (some c.id) (refsOf u arg) := by
  have each : ∀ r ∈ g.callsInto b.kernel, ∀ t, g.Searching u start depth ((s, v) :: path) t →
      t.Grows (g.throughArgument u follow p budget t r) ∧
        g.Searching u start depth ((s, v) :: path) (g.throughArgument u follow p budget t r) ∧
        ∀ arg d, r.args[p.index]? = some arg → (g.node? r.site).bind (·.stmt) = some d →
          (g.throughArgument u follow p budget t r).Settles budget d (u.printId arg) (some r.call)
            (refsOf u arg) := by
    intro r into t searching
    obtain ⟨recorded, target⟩ := List.mem_filter.mp into
    obtain ⟨caller, builtC, d, inside, c, makes, notes⟩ := charted.call_of_record recorded
    unfold throughArgument
    rw [notes.site]
    cases passes : r.args[p.index]? with
    | none => exact ⟨.refl t, searching, nofun⟩
    | some arg =>
        have supplies : g.Supplies u b.kernel p d c arg :=
          ⟨⟨caller, builtC, inside⟩, makes, notes.target ▸ by simpa using target,
            notes.args ▸ passes⟩
        have kernel : (g.infoOf? d).map (·.kernel) = some r.caller := by
          rw [charted.infoOf?_eq builtC inside, Option.map_some, notes.caller]
        obtain ⟨grows, after, settled⟩ := pursues.step ⟨r.caller, d, u.printId arg, budget, some r.call⟩
          rfl (charted.canonical_eq builtC inside)
          ⟨kernel, path, (s, v), leads, length, notes.call ▸ .argument comes supplies⟩
          (fun w mentions => leads.hop (.argument comes supplies mentions)) searching
        refine ⟨grows, after, ?_⟩
        rintro _ _ ⟨⟩ ⟨⟩
        exact settled
  obtain ⟨grows, after, settled⟩ := Tracing.foldl_settles
    (Q := fun (r : CallRecord) t => ∀ arg d, r.args[p.index]? = some arg →
      (g.node? r.site).bind (·.stmt) = some d →
        t.Settles budget d (u.printId arg) (some r.call) (refsOf u arg))
    (fun r t t' grows settled arg d passes site => (settled arg d passes site).mono grows)
    each searching
  refine ⟨grows, after, fun d c arg supplies => ?_⟩
  obtain ⟨caller, builtC, inside⟩ := supplies.caller
  obtain ⟨r, recorded, notes⟩ := charted.record_of_call builtC inside supplies.makes
  have into : r ∈ g.callsInto b.kernel :=
    List.mem_filter.mpr ⟨recorded, by simp [notes.target, supplies.callee]⟩
  have told := settled r into arg d (notes.args ▸ supplies.argument) notes.site
  exact notes.call ▸ told

/-- The pair is done with once its definitions and arguments have been gone through. -/
theorem Pursues.expand (info : g.infoOf? s = some b)
    (spent : budget = 0 → g.Spent u start depth (s, v)) :
    t.Grows (g.expand u follow b budget t s v) ∧
      g.Searching u start depth path (g.expand u follow b budget t s v) := by
  obtain ⟨grows, after, defined⟩ := pursues.definitions charted built stands leads length searching
  unfold PropertyGraph.expand
  generalize (originsOf b.graph (b.facts.factsBefore s) v).foldl
    (throughDefinition follow b v budget) t = told at *
  have incoming {k : KernelId} {p : Param} (comes : g.ComesIn u (s, v) k p) :
      k = b.kernel ∧ b.facts.isIncoming s v = true ∧
        (u.kernel? b.kernel).bind (·.param? v) = some p := by
    obtain ⟨c, known, rfl, holds, named⟩ := comes
    obtain rfl := Option.some.inj (info.symm.trans known)
    exact ⟨rfl, charted.canonical_eq built stands ▸ holds, named⟩
  dsimp only
  cases holds : b.facts.isIncoming s v with
  | false =>
      refine ⟨grows, after.finish spent defined fun k p comes => ?_⟩
      cases (incoming comes).2.1.symm.trans holds
  | true =>
      cases named : (u.kernel? b.kernel).bind (·.param? v) with
      | none =>
          refine ⟨grows, after.finish spent defined fun k p comes => ?_⟩
          cases (incoming comes).2.2.symm.trans named
      | some p =>
          have comes : g.ComesIn u (s, v) b.kernel p :=
            ⟨b, info, rfl, (charted.canonical_eq built stands).symm ▸ holds, named⟩
          obtain ⟨more, last, supplied⟩ := pursues.arguments charted leads length after comes
          refine ⟨grows.trans more, last.finish spent ?_ ?_⟩
          · exact fun d reaches => (defined d reaches).mono more
          · intro k p' comes'
            obtain ⟨rfl, -, other⟩ := incoming comes'
            obtain rfl := Option.some.inj (named.symm.trans other)
            exact supplied

end Expand

/-! ## The search -/

/-- The search sees to the pair it is called for, whatever its budget. -/
theorem backward_pursues (charted : g.Charted u) (start : NodeId × String) (depth budget : Nat)
    (path : List (NodeId × String)) (distinct : path.Nodup)
    (length : path.length + budget = depth + 1) :
    Pursues g u start depth budget path (g.backward u budget) := by
  induction budget generalizing path with
  | zero => exact fun t s v _ _ searching => ⟨.refl t, searching, nofun⟩
  | succ budget ih =>
      intro t s v own leads searching
      rw [backward_succ]
      by_cases met : (s, v) ∈ t.seen
      · rw [if_pos (List.contains_iff_mem.mpr met)]
        exact ⟨.refl t, searching, fun _ => met⟩
      rw [if_neg (by simpa using met)]
      have longer : ((s, v) :: path).Nodup :=
        List.nodup_cons.mpr ⟨fun member => met (searching.following member), distinct⟩
      have used : path.length + budget = depth := by omega
      have entered := searching.enter s v
      have here : (s, v) ∈ (t.mark s v).seen := Tracing.mem_seen_mark.mpr (Or.inl rfl)
      cases info : g.infoOf? s with
      | none =>
          have done := entered.leave (told_of_infoOf? info _ budget) (Or.inl (followed_of_infoOf? info _))
          exact ⟨t.grows_mark s v, done, fun _ => here⟩
      | some b =>
          obtain ⟨built, stands⟩ := charted.stands_of_infoOf? info
          have pursues := ih ((s, v) :: path) longer (by simp only [List.length_cons]; omega)
          -- with no budget left the chain that led here is all used up
          obtain ⟨grows, after⟩ := pursues.expand charted built (own ▸ stands) leads used entered info
            fun none => ⟨path, leads, longer, by omega⟩
          exact ⟨(t.grows_mark s v).trans grows, after, fun _ => grows.seen here⟩

/-! ## The answer -/

/-- The trace starts at the node that stands for the statement. -/
theorem Charted.traceBackward_searching (charted : g.Charted u) (stmt : NodeId) (v : String)
    (depth : Nat) : ∃ seen, (g.canonical stmt, v) ∈ seen ∧
      g.Searching u (g.canonical stmt, v) depth [] ⟨seen, g.traceBackward u stmt v depth⟩ := by
  have budget : budgetOf (depth : Int) = depth + 1 := by
    unfold budgetOf
    omega
  obtain ⟨-, searching, seen⟩ := backward_pursues charted (g.canonical stmt, v) depth (depth + 1) []
    .nil (Nat.zero_add _) {} (g.canonical stmt) v (charted.wired.canonical_canonical stmt) .here
    ⟨List.nil_subset _, nofun, nofun⟩
  rw [traceBackward, budget]
  exact ⟨_, seen (Nat.succ_pos depth), searching⟩

/-- When the search is over, hops lead to pairs that are done with, or past one that is spent. -/
theorem Searching.reaches (searching : g.Searching u start depth [] t) (seen : start ∈ t.seen)
    (leads : g.HopPath u start path q) :
    q ∈ t.seen ∨ ∃ r ∈ path, g.Spent u start depth r ∧ g.Told u t.steps 0 r := by
  induction leads with
  | here => exact Or.inl seen
  | @hop path q r _ hop ih =>
      rcases ih with met | ⟨r', among, lost⟩
      · obtain ⟨left, told, followed | ⟨rfl, spent⟩⟩ := searching.done q met List.not_mem_nil
        · exact Or.inl (followed r hop)
        · exact Or.inr ⟨q, List.mem_cons_self, spent, told⟩
      · exact Or.inr ⟨r', List.mem_cons_of_mem _ among, lost⟩

theorem HopPath.start_mem (leads : g.HopPath u start path q) (moved : path ≠ []) :
    start ∈ path := by
  induction leads with
  | here => exact absurd rfl moved
  | @hop path q r leads _ ih =>
      cases path with
      | nil =>
          cases leads
          exact List.mem_cons_self
      | cons p path => exact List.mem_cons_of_mem _ (ih (List.cons_ne_nil p path))

/-- No budget is spent where the search starts. -/
theorem not_spent_start (positive : 0 < depth) : ¬g.Spent u start depth start := by
  rintro ⟨path, leads, distinct, length⟩
  have moved : path ≠ [] := List.ne_nil_of_length_pos (length ▸ positive)
  exact (List.nodup_cons.mp distinct).1 (leads.start_mem moved)

/-- Whatever has been built and discarded before, and wherever a trace starts: each of its steps
tells an origin of a pair that hops lead to, as many as the budget used; and a pair that hops lead to
has all its origins among the steps, unless one of the pairs on the way has been told with no budget
left, at the end of a chain of as many hops as the depth allows. -/
theorem backwardTrace_complete {u : SourceUnit} (numbered : u.Numbered) (cap : Int)
    (ops : List (GraphOp u)) (stmt : NodeId) (v : String) (depth : Nat) :
    let g := history u cap ops
    let start := (g.canonical stmt, v)
    let steps := g.traceBackward u stmt v depth
    (∀ st ∈ steps, g.Explains u start depth st) ∧
      ∀ path q, g.HopPath u start path q →
        (∃ left, g.Told u steps left q) ∨
          ∃ r ∈ path, g.Spent u start depth r ∧ g.Told u steps 0 r := by
  intro g start steps
  have charted : g.Charted u := history_charted numbered cap ops
  obtain ⟨seen, started, searching⟩ := charted.traceBackward_searching stmt v depth
  refine ⟨searching.sound, fun path q leads => ?_⟩
  rcases searching.reaches started leads with met | lost
  · obtain ⟨left, told, -⟩ := searching.done q met List.not_mem_nil
    exact Or.inl ⟨left, told⟩
  · exact Or.inr lost

end PropertyGraph

/-! ## A diamond with a tail -/

namespace Backward

/-- The result goes back to `b` at once and by way of `c`, and `b` to `z` by way of `a`. -/
def source : String :=
  "func f() int \x7b\n\tz := 1\n\ta := z\n\tb := a\n\tc := b\n\td := c + b\n\treturn d\n\x7d\n"

def unit : SourceUnit := Bracketing.unit source

def diamond : PropertyGraph := PropertyGraph.history unit 0 [.buildUnit]

end Backward

open Backward in
/-- With a depth of one the definition of `b` is told, one hop away from the return. -/
theorem PropertyGraph.backwardTrace_complete_diamond :
    unit.Numbered ∧ diamond.canonical 24 = 24 ∧ diamond.HopPath unit (24, "d") [(24, "d")] (22, "b") ∧
      ∃ left, diamond.Told unit (diamond.traceBackward unit 24 "d" 1) left (22, "b") := by
  obtain ⟨numbered, own, defined, uses⟩ : unit.Numbered ∧ diamond.canonical 24 = 24 ∧
      22 ∈ diamond.definitions 24 "d" ∧ "b" ∈ (diamond.variablesAt 22).2 := by
    have spelled : source.toList = _ := String.toList_ofList
    rw [diamond, unit, Bracketing.unit_spelled spelled]
    decide +kernel
  have leads : diamond.HopPath unit (24, "d") [(24, "d")] (22, "b") :=
    .hop .here (.definition defined uses)
  have complete := (backwardTrace_complete numbered 0 [.buildUnit] 24 "d" 1).2
  refine ⟨numbered, own, leads, (complete _ _ (own.symm ▸ leads)).resolve_right ?_⟩
  rintro ⟨r, among, spent, -⟩
  obtain rfl := List.mem_singleton.mp among
  exact not_spent_start Nat.one_pos (own ▸ spent)

open Backward in
/-- With a depth of three `b` at its use in `d` is first met by way of `c`, too late for its hop to be
followed, and the definition of `z`, three hops away, is not told. -/
theorem PropertyGraph.backwardTrace_loses :
    diamond.canonical 24 = 24 ∧
      ∃ path q, diamond.HopPath unit (24, "d") path q ∧ path.length ≤ 3 ∧
        ∀ left, ¬diamond.Told unit (diamond.traceBackward unit 24 "d" 3) left q := by
  obtain ⟨own, ⟨defD, useB⟩, ⟨defB, useA⟩, ⟨defA, useZ⟩, defZ, missing⟩ :
      diamond.canonical 24 = 24 ∧
      (22 ∈ diamond.definitions 24 "d" ∧ "b" ∈ (diamond.variablesAt 22).2) ∧
      (14 ∈ diamond.definitions 22 "b" ∧ "a" ∈ (diamond.variablesAt 14).2) ∧
      (11 ∈ diamond.definitions 14 "a" ∧ "z" ∈ (diamond.variablesAt 11).2) ∧
      8 ∈ diamond.definitions 11 "z" ∧
      ∀ st ∈ diamond.traceBackward unit 24 "d" 3, st.stmt ≠ 8 := by
    have spelled : source.toList = _ := String.toList_ofList
    rw [diamond, unit, Bracketing.unit_spelled spelled]
    decide +kernel
  refine ⟨own, [(14, "a"), (22, "b"), (24, "d")], (11, "z"), ?_, Nat.le_refl 3, fun left told => ?_⟩
  · exact .hop (.hop (.hop .here (.definition defD useB)) (.definition defB useA))
      (.definition defA useZ)
  · obtain ⟨st, found, stmt, -⟩ := told 8 "z" none (.definition defZ)
    exact missing st found stmt

end Retarget
