/-
# Proofs.ForwardTrace -- how a forward trace enters the kernels it passes a value to

A trace that has found a reader goes on into every built kernel that the reader's calls pass the
value to (`HandsOver`), to the statements that read the parameter as it came in (`AsPassed`): those
that use it and that no definition of the callee reaches.

`forwardTrace_enters`: a step with budget left brings all of these among the steps, and a step
found across a call follows such a step.  A statement that a definition of the parameter reaches on
one path and the value passed in on another is no such statement; a backward trace from there does
lead to the call, but the forward trace does not lead there (`forwardTrace_misses`).
-/
import Retarget.Proofs.Bracketing
import Retarget.Proofs.TraceGround

namespace Retarget

open Retarget.Source (Node NodeId)

set_option autoImplicit false
set_option linter.dupNamespace false

/-- The statement is among those found. -/
def Tracing.Reports (t : Tracing) (n : NodeId) : Prop := ∃ st ∈ t.steps, st.stmt = n

theorem Tracing.Reports.mono {t t' : Tracing} {n : NodeId} (reports : t.Reports n)
    (grows : t.Grows t') : t'.Reports n := by
  obtain ⟨st, found, same⟩ := reports
  exact ⟨st, grows.steps found, same⟩

namespace PropertyGraph

/-! ## Calls crossed -/

section Crossing

variable (g : PropertyGraph) (u : SourceUnit)

/-- Call `c` passes a value made from `var` for parameter `p` of the built kernel `b`. -/
def HandsOver (var : String) (c : Node) (b : BuiltKernel) (p : String) : Prop :=
  b ∈ g.built ∧ ∃ k, u.callee? c = some k ∧ k.id = b.kernel ∧
    ∃ (i : Nat) (arg : NodeId) (param : Param), (SourceUnit.callArgs c)[i]? = some arg ∧
      var ∈ refsOf u arg ∧ k.params[i]? = some param ∧ param.name = p

/-- Statement `n` uses the parameter and no definition inside the kernel reaches it. -/
structure AsPassed (b : BuiltKernel) (p : String) (n : NodeId) : Prop where
  stands : n ∈ b.stmts
  uses : p ∈ (g.variablesAt n).2
  untouched : g.definitions n p = []

/-- The trace has gone on from the step into every kernel the value is passed to. -/
def Entered (seen : List (NodeId × String)) (st : TraceStep) : Prop :=
  ∀ c ∈ u.callsOf st.stmt, ∀ b p, g.HandsOver u st.var c b p →
    ∀ n, g.AsPassed b p n → (n, p) ∈ seen

/-- The step reads a parameter as it is passed by call `x` of an earlier one. -/
def Crosses (steps : List TraceStep) (st : TraceStep) (x : NodeId) : Prop :=
  ∃ before ∈ steps, before.depth = st.depth + 1 ∧ ∃ c ∈ u.callsOf before.stmt, c.id = x ∧
    ∃ b, b.kernel = st.kernel ∧ g.HandsOver u before.var c b st.var ∧ g.AsPassed b st.var st.stmt

/-- What happens to a trace: each step found with budget left has been gone on from, the statements
of pairs met are reported, those of `start` apart, and calls are crossed as they should. -/
structure Advances (start : NodeId × String) (t t' : Tracing) : Prop where
  grows : t.Grows t'
  entered : ∀ st ∈ t'.steps, st ∈ t.steps ∨ (0 < st.depth → g.Entered u t'.seen st)
  reported : ∀ q ∈ t'.seen, q ∈ t.seen ∨ q = start ∨ t'.Reports q.1
  crossed : ∀ st ∈ t'.steps, st ∈ t.steps ∨ ∀ x, st.via = some x → g.Crosses u t'.steps st x

end Crossing

variable {g : PropertyGraph} {u : SourceUnit} {b : BuiltKernel} {start : NodeId × String}
  {budget : Nat} {t t' t'' : Tracing} {s n : NodeId} {v p : String} {st : TraceStep}

theorem Entered.mono {seen more : List (NodeId × String)} (entered : g.Entered u seen st)
    (sub : seen ⊆ more) : g.Entered u more st :=
  fun c makes b p hands n reads => sub (entered c makes b p hands n reads)

theorem Crosses.mono {steps more : List TraceStep} {x : NodeId} (crosses : g.Crosses u steps st x)
    (sub : steps ⊆ more) : g.Crosses u more st x := by
  obtain ⟨before, found, rest⟩ := crosses
  exact ⟨before, sub found, rest⟩

namespace Advances

theorem refl (start : NodeId × String) (t : Tracing) : g.Advances u start t t :=
  ⟨.refl t, fun _ => Or.inl, fun _ => Or.inl, fun _ => Or.inl⟩

theorem trans (first : g.Advances u start t t') (second : g.Advances u start t' t'') :
    g.Advances u start t t'' where
  grows := first.grows.trans second.grows
  entered st found := by
    rcases second.entered st found with before | new
    · exact (first.entered st before).imp_right fun entered left =>
        (entered left).mono second.grows.seen
    · exact Or.inr new
  reported q met := by
    rcases second.reported q met with before | new
    · rcases first.reported q before with old | rfl | reports
      · exact Or.inl old
      · exact Or.inr (Or.inl rfl)
      · exact Or.inr (Or.inr (reports.mono second.grows))
    · exact Or.inr new
  crossed st found := by
    rcases second.crossed st found with before | new
    · exact (first.crossed st before).imp_right fun crosses x via =>
        (crosses x via).mono second.grows.steps
    · exact Or.inr new

/-- Marking a pair whose statement is reported. -/
theorem mark (known : (s, v) = start ∨ t.Reports s) : g.Advances u start t (t.mark s v) where
  grows := t.grows_mark s v
  entered _ := Or.inl
  reported q met := by
    rcases Tracing.mem_seen_mark.mp met with rfl | before
    · exact Or.inr known
    · exact Or.inl before
  crossed _ := Or.inl

/-- A step that has been found, and gone on from to `t'`. -/
theorem found (advances : g.Advances u start (t.add st) t')
    (entered : 0 < st.depth → g.Entered u t'.seen st)
    (crosses : ∀ x, st.via = some x → g.Crosses u t.steps st x) : g.Advances u start t t' where
  grows := (t.grows_add st).trans advances.grows
  entered st' member := by
    rcases advances.entered st' member with before | new
    · rcases Tracing.mem_steps_add.mp before with old | rfl
      · exact Or.inl old
      · exact Or.inr entered
    · exact Or.inr new
  reported := advances.reported
  crossed st' member := by
    rcases advances.crossed st' member with before | new
    · rcases Tracing.mem_steps_add.mp before with old | rfl
      · exact Or.inl old
      · exact Or.inr fun x via =>
          (crosses x via).mono ((t.grows_add st').trans advances.grows).steps
    · exact Or.inr new

/-- A walk that advances at every element, as long as `P`, settles what it settles at each. -/
theorem foldl {α : Type} {f : Tracing → α → Tracing} {P : Tracing → Prop}
    {Q : α → Tracing → Prop} {l : List α} (keeps : ∀ t t', t.Grows t' → P t → P t')
    (stays : ∀ a t t', t.Grows t' → Q a t → Q a t')
    (step : ∀ a ∈ l, ∀ t, P t → g.Advances u start t (f t a) ∧ Q a (f t a)) (holds : P t) :
    g.Advances u start t (l.foldl f t) ∧ ∀ a ∈ l, Q a (l.foldl f t) := by
  obtain ⟨-, ⟨advances, -⟩, settled⟩ := Tracing.foldl_settles
    (P := fun t' => g.Advances u start t t' ∧ P t') stays
    (fun a member t' before => by
      obtain ⟨next, settles⟩ := step a member t' before.2
      exact ⟨next.grows, ⟨before.1.trans next, keeps _ _ next.grows before.2⟩, settles⟩)
    ⟨.refl start t, holds⟩
  exact ⟨advances, settled⟩

end Advances

/-! ## From a reader -/

theorem mem_argumentsWith {var : String} {args : List NodeId} {i : Nat} :
    i ∈ argumentsWith u var args ↔ ∃ arg, args[i]? = some arg ∧ var ∈ refsOf u arg := by
  simp only [argumentsWith, List.mem_map, List.mem_filter, Prod.exists, List.mem_zipIdx_iff_getElem?,
    List.contains_iff_mem]
  constructor
  · rintro ⟨arg, i, ⟨here, mentions⟩, rfl⟩
    exact ⟨arg, here, mentions⟩
  · rintro ⟨arg, here, mentions⟩
    exact ⟨arg, i, ⟨here, mentions⟩, rfl⟩

/-- Enter the callee by the parameter at a position, if it has one. -/
def passAt (enter : Tracing → BuiltKernel → String → NodeId → Tracing) (k : KernelFn)
    (b : BuiltKernel) (call : NodeId) (t : Tracing) (i : Nat) : Tracing :=
  match k.params[i]? with
  | some p => enter t b p.name call
  | none => t

/-- What a reader of `var` does for one of its calls. -/
def passOn (g : PropertyGraph) (u : SourceUnit)
    (enter : Tracing → BuiltKernel → String → NodeId → Tracing) (var : String) (t : Tracing)
    (call : NodeId) : Tracing :=
  match u.node? call with
  | none => t
  | some c =>
    match u.callee? c with
    | none => t
    | some callee =>
      match g.builtKernel? callee.id with
      | none => t
      | some b => (argumentsWith u var (SourceUnit.callArgs c)).foldl (passAt enter callee b call) t

theorem fromReader_eq (g : PropertyGraph) (u : SourceUnit)
    (follow : Tracing → NodeId → String → Tracing)
    (enter : Tracing → BuiltKernel → String → NodeId → Tracing) (t : Tracing) (n : NodeId)
    (var : String) :
    g.fromReader u follow enter t n var =
      ((((g.slotOf? n).bind g.node?).map (·.calls)).getD []).foldl (g.passOn u enter var)
        ((((g.infoOf? n).map fun b => b.facts.access.defs n).getD []).foldl
          (fun t v => follow t n v) t) := rfl

/-- Following a variable at the start or at a statement found advances. -/
def Continues (g : PropertyGraph) (u : SourceUnit) (start : NodeId × String)
    (follow : Tracing → NodeId → String → Tracing) : Prop :=
  ∀ t s v, (s, v) = start ∨ t.Reports s → g.Advances u start t (follow t s v)

/-- Entering a kernel from a step with this budget advances and, if there is any left, meets all
statements that read the parameter as passed. -/
def Enters (g : PropertyGraph) (u : SourceUnit) (start : NodeId × String) (budget : Nat)
    (enter : Tracing → BuiltKernel → String → NodeId → Tracing) : Prop :=
  ∀ t st c b p, st ∈ t.steps → st.depth = budget → c ∈ u.callsOf st.stmt →
    g.HandsOver u st.var c b p → g.Advances u start t (enter t b p c.id) ∧
      (0 < budget → ∀ n, g.AsPassed b p n → (n, p) ∈ (enter t b p c.id).seen)

section Reader

variable {follow : Tracing → NodeId → String → Tracing}
  {enter : Tracing → BuiltKernel → String → NodeId → Tracing} (charted : g.Charted u)
  (enters : g.Enters u start budget enter) (found : st ∈ t.steps) (left : st.depth = budget)

include charted enters found left

omit charted in
/-- The parameters that one call of a step passes the value for. -/
theorem Enters.passAt {c : Node} (makes : c ∈ u.callsOf st.stmt) (built : b ∈ g.built) {k : KernelFn}
    (called : u.callee? c = some k) (same : k.id = b.kernel) :
    let after := (argumentsWith u st.var (SourceUnit.callArgs c)).foldl
      (PropertyGraph.passAt enter k b c.id) t
    g.Advances u start t after ∧ (0 < budget → ∀ p, g.HandsOver u st.var c b p →
      ∀ n, g.AsPassed b p n → (n, p) ∈ after.seen) := by
  have each : ∀ i ∈ argumentsWith u st.var (SourceUnit.callArgs c), ∀ t : Tracing, st ∈ t.steps →
      g.Advances u start t (PropertyGraph.passAt enter k b c.id t i) ∧
        (0 < budget → ∀ param, k.params[i]? = some param → ∀ n, g.AsPassed b param.name n →
          (n, param.name) ∈ (PropertyGraph.passAt enter k b c.id t i).seen) := by
    intro i position t found
    obtain ⟨arg, passed, mentions⟩ := mem_argumentsWith.mp position
    unfold PropertyGraph.passAt
    cases named : k.params[i]? with
    | none => exact ⟨.refl start t, nofun⟩
    | some param =>
        obtain ⟨advances, settled⟩ := enters t st c b param.name found left makes
          ⟨built, k, called, same, i, arg, param, passed, mentions, named, rfl⟩
        refine ⟨advances, ?_⟩
        rintro left _ ⟨⟩
        exact settled left
  obtain ⟨advances, settled⟩ := Advances.foldl
    (Q := fun (i : Nat) t => 0 < budget → ∀ param : Param, k.params[i]? = some param →
      ∀ n, g.AsPassed b param.name n → (n, param.name) ∈ t.seen)
    (fun t t' grows found => grows.steps found)
    (fun i t t' grows settled left param named n reads =>
      grows.seen (settled left param named n reads))
    each found
  refine ⟨advances, ?_⟩
  rintro left _ ⟨-, k', callee, -, i, arg, param, passed, mentions, named, rfl⟩ n reads
  obtain rfl := Option.some.inj (called.symm.trans callee)
  exact settled i (mem_argumentsWith.mpr ⟨arg, passed, mentions⟩) left param named n reads

/-- One call of a step that has been found. -/
theorem Enters.passOn {c : Node} (makes : c ∈ u.callsOf st.stmt) :
    g.Advances u start t (g.passOn u enter st.var t c.id) ∧
      (0 < budget → ∀ b p, g.HandsOver u st.var c b p → ∀ n, g.AsPassed b p n →
        (n, p) ∈ (g.passOn u enter st.var t c.id).seen) := by
  have node := charted.numbered.node?_of_mem (SourceUnit.mem_nodes_of_callsOf makes)
  cases called : u.callee? c with
  | none =>
      simp only [PropertyGraph.passOn, node, called]
      refine ⟨.refl start t, ?_⟩
      rintro - b p ⟨-, k, callee, -⟩
      cases called.symm.trans callee
  | some k =>
      cases info : g.builtKernel? k.id with
      | none =>
          simp only [PropertyGraph.passOn, node, called, info]
          refine ⟨.refl start t, ?_⟩
          rintro - b p ⟨built, k', callee, same, -⟩
          obtain rfl := Option.some.inj (called.symm.trans callee)
          rw [same, charted.wired.builtKernel?_eq built] at info
          cases info
      | some b =>
          simp only [PropertyGraph.passOn, node, called, info]
          obtain ⟨built, same⟩ := mem_of_builtKernel? info
          obtain ⟨advances, settled⟩ := enters.passAt found left makes built called same.symm
          refine ⟨advances, fun left b' p hands => ?_⟩
          obtain ⟨built', k', callee, same', -⟩ := id hands
          obtain rfl := Option.some.inj (called.symm.trans callee)
          obtain rfl : b = b' := charted.wired.kernel_inj built built' (same.trans same')
          exact settled left p hands

/-- A step that has been found is gone on from. -/
theorem Enters.fromReader (continues : g.Continues u start follow) (built : b ∈ g.built)
    (stands : st.stmt ∈ b.stmts) :
    g.Advances u start t (g.fromReader u follow enter t st.stmt st.var) ∧
      (0 < st.depth → g.Entered u (g.fromReader u follow enter t st.stmt st.var).seen st) := by
  rw [fromReader_eq, charted.listedCalls_eq built stands, Option.getD_some, List.foldl_map]
  obtain ⟨defined, -⟩ := Advances.foldl (g := g) (u := u)
    (f := fun t v => follow t st.stmt v) (P := fun t => st ∈ t.steps) (Q := fun _ _ => True)
    (l := ((g.infoOf? st.stmt).map fun b => b.facts.access.defs st.stmt).getD [])
    (fun t t' grows found => grows.steps found) (fun _ _ _ _ _ => trivial)
    (fun v _ t found => ⟨continues t st.stmt v (Or.inr ⟨st, found, rfl⟩), trivial⟩) found
  obtain ⟨passed, settled⟩ := Advances.foldl (g := g) (u := u)
    (f := fun t c => g.passOn u enter st.var t c.id) (P := fun t => st ∈ t.steps)
    (Q := fun c t => 0 < budget → ∀ b p, g.HandsOver u st.var c b p → ∀ n, g.AsPassed b p n →
      (n, p) ∈ t.seen)
    (l := u.callsOf st.stmt)
    (fun t t' grows found => grows.steps found)
    (fun c t t' grows settled left b p hands n reads => grows.seen (settled left b p hands n reads))
    (fun c makes t found => enters.passOn charted found left makes) (defined.grows.steps found)
  exact ⟨defined.trans passed, fun positive c makes => settled c makes (left ▸ positive)⟩

end Reader

/-! ## The trace -/

theorem readers_canonical (charted : g.Charted u) (s : NodeId) (v : String) :
    g.readers (g.canonical s) v = g.readers s v := by
  simp only [readers, charted.wired.canonical_canonical]

/-- What is recorded on entering a kernel: the statements that read the parameter as passed, each
once. -/
theorem readsParam_iff (charted : g.Charted u) (built : b ∈ g.built) (stands : n ∈ b.stmts) :
    readsParam b p t n = true ↔ (n, p) ∉ t.seen ∧ g.AsPassed b p n := by
  have uses : (g.variablesAt n).2 = b.facts.access.uses n := by
    rw [variablesAt, charted.infoOf?_eq built stands, charted.canonical_eq built stands]
  have reaching : g.definitions n p = originsOf b.graph (b.facts.factsBefore n) p :=
    charted.wired.definitions_eq charted.numbered charted.indexed built stands
      (charted.canonical_eq built stands)
  have shape : g.AsPassed b p n ↔ p ∈ b.facts.access.uses n ∧
      originsOf b.graph (b.facts.factsBefore n) p = [] := by
    rw [← uses, ← reaching]
    exact ⟨fun reads => ⟨reads.uses, reads.untouched⟩, fun reads => ⟨stands, reads.1, reads.2⟩⟩
  rw [shape, readsParam]
  simp [and_assoc]

section Levels

variable {budget : Nat} (charted : g.Charted u) (continues : g.Continues u start (g.forward u budget))
  (enters : g.Enters u start budget (g.enterKernel u budget))

include charted continues enters

theorem Continues.forward_succ : g.Continues u start (g.forward u (budget + 1)) := by
  intro t s v known
  rw [forward]
  by_cases met : (s, v) ∈ t.seen
  · rw [if_pos (List.contains_iff_mem.mpr met)]
    exact .refl start t
  rw [if_neg (by simpa using met)]
  cases info : g.infoOf? s with
  | none => exact .mark known
  | some b =>
      obtain ⟨built, stands⟩ := charted.stands_of_infoOf? info
      refine (Advances.mark known).trans (Advances.foldl (P := fun _ => True)
        (Q := fun _ _ => True) (fun _ _ _ _ => trivial) (fun _ _ _ _ _ => trivial)
        (fun n reader t _ => ⟨?_, trivial⟩) trivial).1
      have inside : n ∈ b.stmts := by
        rw [← readers_canonical charted s v] at reader
        exact ((charted.wired.mem_readers_iff charted.numbered charted.indexed built stands).mp
          reader).1
      have found := t.mem_add ⟨b.kernel, n, v, budget, none⟩
      obtain ⟨advances, entered⟩ := enters.fromReader charted found rfl continues built inside
      exact advances.found entered nofun

variable {st : TraceStep} {c : Node} {p : String}

/-- A statement that reads the parameter as passed is found and gone on from. -/
theorem Enters.atStatement (left : st.depth = budget + 1) (makes : c ∈ u.callsOf st.stmt)
    (hands : g.HandsOver u st.var c b p) {n : NodeId} (stands : n ∈ b.stmts) {t : Tracing}
    (found : st ∈ t.steps) :
    let after := if readsParam b p t n then
        g.fromReader u (g.forward u budget) (g.enterKernel u budget)
          ((t.mark n p).add ⟨b.kernel, n, p, budget, some c.id⟩) n p
      else t
    g.Advances u start t after ∧ (g.AsPassed b p n → (n, p) ∈ after.seen) := by
  by_cases reads : readsParam b p t n = true
  · rw [if_pos reads]
    have passed := ((readsParam_iff charted hands.1 stands).mp reads).2
    have mine := (t.mark n p).mem_add ⟨b.kernel, n, p, budget, some c.id⟩
    obtain ⟨advances, entered⟩ := enters.fromReader charted mine rfl continues hands.1 stands
    -- the pair is marked before the step is added; the other way round it is the same
    have marked : g.Advances u start (t.add ⟨b.kernel, n, p, budget, some c.id⟩)
        ((t.mark n p).add ⟨b.kernel, n, p, budget, some c.id⟩) :=
      .mark (Or.inr ⟨_, t.mem_add _, rfl⟩)
    refine ⟨(marked.trans advances).found entered ?_, fun _ => ?_⟩
    · rintro _ ⟨⟩
      exact ⟨st, found, left, c, makes, rfl, b, rfl, hands, passed⟩
    · exact advances.grows.seen (Tracing.mem_seen_mark.mpr (Or.inl rfl))
  · rw [if_neg reads]
    refine ⟨.refl start t, fun passed => ?_⟩
    by_contra unmet
    exact reads ((readsParam_iff charted hands.1 stands).mpr ⟨unmet, passed⟩)

theorem Enters.enterKernel_succ : g.Enters u start (budget + 1) (g.enterKernel u (budget + 1)) := by
  intro t st c b p found left makes hands
  rw [enterKernel]
  obtain ⟨advances, settled⟩ := Advances.foldl
    (Q := fun n t => g.AsPassed b p n → (n, p) ∈ t.seen)
    (fun t t' grows found => grows.steps found)
    (fun n t t' grows settled passed => grows.seen (settled passed))
    (fun n stands t found => enters.atStatement charted continues left makes hands stands found) found
  exact ⟨advances, fun _ n passed => settled n passed.stands passed⟩

end Levels

/-- Whatever the budget, following a value and entering a kernel do as they should. -/
theorem forward_advances (charted : g.Charted u) (start : NodeId × String) (budget : Nat) :
    g.Continues u start (g.forward u budget) ∧ g.Enters u start budget (g.enterKernel u budget) := by
  induction budget with
  | zero =>
      refine ⟨fun t s v _ => ?_, fun t st c b p _ _ _ _ => ⟨?_, nofun⟩⟩
      · rw [forward]
        exact .refl start t
      · rw [enterKernel]
        exact .refl start t
  | succ budget ih =>
      obtain ⟨continues, enters⟩ := ih
      exact ⟨continues.forward_succ charted enters, enters.enterKernel_succ charted continues⟩

/-- Whatever has been built and discarded before, and wherever a trace starts: from every step with
budget left each call brings all statements among the steps that read the parameter as passed, the
one asked about apart; and a step found across a call reads it as passed from such a step. -/
theorem forwardTrace_enters {u : SourceUnit} (numbered : u.Numbered) (cap : Int)
    (ops : List (GraphOp u)) (stmt : NodeId) (v : String) (depth : Nat) :
    let g := history u cap ops
    let steps := g.traceForward u stmt v depth
    (∀ st ∈ steps, 0 < st.depth → ∀ c ∈ u.callsOf st.stmt, ∀ b p, g.HandsOver u st.var c b p →
      ∀ n, g.AsPassed b p n → (n, p) ≠ (g.canonical stmt, v) → ∃ st' ∈ steps, st'.stmt = n) ∧
    ∀ st ∈ steps, ∀ x, st.via = some x → g.Crosses u steps st x := by
  intro g steps
  have charted : g.Charted u := history_charted numbered cap ops
  have advances := (forward_advances charted (g.canonical stmt, v) (budgetOf depth)).1 {}
    (g.canonical stmt) v (Or.inl rfl)
  constructor
  · intro st found left c makes b p hands n passed other
    have met := (advances.entered st found).resolve_left List.not_mem_nil left c makes b p hands n passed
    exact ((advances.reported (n, p) met).resolve_left List.not_mem_nil).resolve_left other
  · intro st found
    exact (advances.crossed st found).resolve_left List.not_mem_nil

end PropertyGraph

/-! ## A parameter set on one branch -/

namespace Forward

/-- The parameter of `f` is set on one path to its last statement and kept on the other. -/
def source : String :=
  "func f(x int) int \x7b\n\tif x > 0 \x7b\n\t\tx = 1\n\t\x7d\n\treturn x\n\x7d\n" ++
    "func g(a int) int \x7b\n\tb := a\n\tvar y int = f(b)\n\treturn y\n\x7d\n"

def unit : SourceUnit := Bracketing.unit source

def branching : PropertyGraph := PropertyGraph.history unit 0 [.buildUnit]

/-- The statement lies in the kernel that call 37 enters by `x`, and uses `x`. -/
def entered (n : NodeId) (b : BuiltKernel) : Bool :=
  b.stmts.contains n && (branching.variablesAt n).2.contains "x" &&
    (unit.callsOf 38).any fun c => c.id == 37 &&
      (unit.callee? c).any (fun k => k.id == b.kernel && (k.params[0]?).any (·.name == "x")) &&
      ((SourceUnit.callArgs c)[0]?).any fun arg => (PropertyGraph.refsOf unit arg).contains "b"

theorem entered_spec {n : NodeId} {b : BuiltKernel} (built : b ∈ branching.built)
    (holds : entered n b = true) :
    n ∈ b.stmts ∧ "x" ∈ (branching.variablesAt n).2 ∧
      ∃ c ∈ unit.callsOf 38, c.id = 37 ∧ branching.HandsOver unit "b" c b "x" := by
  simp only [entered, Bool.and_eq_true, List.any_eq_true, Option.any_eq_true, List.contains_iff_mem,
    beq_iff_eq] at holds
  obtain ⟨⟨stands, uses⟩, c, makes, ⟨same, k, called, kernel, param, first, named⟩, arg, passed,
    mentions⟩ := holds
  exact ⟨stands, uses, c, makes, same, built, k, called, kernel, 0, arg, param, passed, mentions,
    first, named⟩

end Forward

open Forward in
/-- The value of `b` gets to the condition in `f`, which reads the parameter as passed. -/
theorem PropertyGraph.forwardTrace_enters_condition :
    unit.Numbered ∧ ∃ st ∈ branching.traceForward unit 32 "b" 5, st.stmt = 11 := by
  obtain ⟨numbered, step, inside⟩ : unit.Numbered ∧
      ((branching.traceForward unit 32 "b" 5).any fun st =>
        0 < st.depth && st.stmt == 38 && st.var == "b") = true ∧
      (branching.built.any fun b => entered 11 b && (branching.definitions 11 "x").isEmpty) = true := by
    have spelled : source.toList = _ := Text.toList_join String.toList_ofList String.toList_ofList
    unfold entered branching unit
    rw [Bracketing.unit_spelled spelled]
    decide +kernel
  obtain ⟨st, found, left, stmt, var⟩ : ∃ st ∈ branching.traceForward unit 32 "b" 5,
      0 < st.depth ∧ st.stmt = 38 ∧ st.var = "b" := by
    simpa [and_assoc] using step
  obtain ⟨b, built, reads⟩ := List.any_eq_true.mp inside
  obtain ⟨enters, untouched⟩ : entered 11 b = true ∧ branching.definitions 11 "x" = [] := by
    simpa using reads
  obtain ⟨stands, uses, c, makes, -, hands⟩ := entered_spec built enters
  have other : ((11, "x") : NodeId × String) ≠ (branching.canonical 32, "b") := by
    simp
  refine ⟨numbered, ?_⟩
  exact (forwardTrace_enters numbered 0 [.buildUnit] 32 "b" 5).1 st found left c (stmt ▸ makes) b "x"
    (var ▸ hands) 11 ⟨stands, uses, untouched⟩ other

open Forward in
/-- The value passed for `x` may hold where `f` returns it, and a backward trace from there leads to
the call; but the forward trace, which follows the value into `f` with budget left, does not list the
return. -/
theorem PropertyGraph.forwardTrace_misses :
    ∃ st ∈ branching.traceForward unit 32 "b" 5, 0 < st.depth ∧ ∃ c ∈ unit.callsOf st.stmt,
      ∃ b, branching.HandsOver unit st.var c b "x" ∧ 19 ∈ b.stmts ∧
        "x" ∈ (branching.variablesAt 19).2 ∧ b.facts.isIncoming 19 "x" = true ∧
        (∃ back ∈ branching.traceBackward unit 19 "x" 0, back.via = some c.id) ∧
        ∀ st' ∈ branching.traceForward unit 32 "b" 5, st'.stmt ≠ 19 := by
  obtain ⟨step, inside, back, missing⟩ :
      ((branching.traceForward unit 32 "b" 5).any fun st =>
        0 < st.depth && st.stmt == 38 && st.var == "b") = true ∧
      (branching.built.any fun b => entered 19 b && b.facts.isIncoming 19 "x") = true ∧
      (∃ back ∈ branching.traceBackward unit 19 "x" 0, back.via = some 37) ∧
      ∀ st' ∈ branching.traceForward unit 32 "b" 5, st'.stmt ≠ 19 := by
    have spelled : source.toList = _ := Text.toList_join String.toList_ofList String.toList_ofList
    unfold entered branching unit
    rw [Bracketing.unit_spelled spelled]
    decide +kernel
  obtain ⟨st, found, left, stmt, var⟩ : ∃ st ∈ branching.traceForward unit 32 "b" 5,
      0 < st.depth ∧ st.stmt = 38 ∧ st.var = "b" := by
    simpa [and_assoc] using step
  obtain ⟨b, built, reads⟩ := List.any_eq_true.mp inside
  obtain ⟨enters, incoming⟩ := (Bool.and_eq_true _ _).mp reads
  obtain ⟨stands, uses, c, makes, same, hands⟩ := entered_spec built enters
  exact ⟨st, found, left, c, stmt ▸ makes, b, var ▸ hands, stands, uses, incoming, same ▸ back, missing⟩

end Retarget
