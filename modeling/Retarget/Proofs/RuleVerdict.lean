/-
# Proofs.RuleVerdict -- which nodes a rule writes

A node is written by the best rule for its operation if that has a template for the target and every
hole of the template is bound (`Emitter.verdict`).  Values do not matter: a template is rendered as
soon as its holes have names (`Template.render_ok_iff`), and the names are those of the operands
(`sourceBindings_inputs`), which operand edges rebind and never add to.

The emission keeps a table of what has been said of each node, in which the first word stands.  That
does no harm, because everything that is ever said of a node is the same: an emission that starts
from a table of expected records ends with one (`Ensures`), and the record of the node it was asked
for is among them (`WellFed.lookup_resolutions`).  Operands nest below their operations, so the bound
on the depth is never met.
-/
import Retarget.Proofs.Grouping
import Retarget.Proofs.TemplateText
import Retarget.Proofs.ValueNode

namespace Retarget

open Retarget.Source (Node NodeId)

set_option autoImplicit false
set_option linter.dupNamespace false

/-! ## Rendering -/

namespace Template

variable {t : Template} {b : Bindings}

/-- The names of the holes in the code. -/
def holes (t : Template) : List String :=
  t.prepared.segments.filterMap fun s =>
    match s with
    | .hole name => some name
    | .literal _ => none

/-- The code has been parsed, or it can be. -/
def isReadable (t : Template) : Bool := !t.segments.isEmpty || t.compileError?.isNone

theorem missing_eq_nil {segments : List Segment} : missing b segments = [] ↔
    ∀ name, Segment.hole name ∈ segments → (b.lookup name).isSome = true := by
  rw [List.eq_nil_iff_forall_not_mem]
  refine forall_congr' fun name => ?_
  rw [mem_missing, not_and, ← Option.ne_none_iff_isSome]

/-- A template is rendered if it can be read and every hole has a value. -/
theorem render_ok_iff : (t.render b).2 = none ↔
    t.isReadable = true ∧ ∀ name ∈ t.holes, (b.lookup name).isSome = true := by
  have holes (name : String) : name ∈ t.holes ↔ Segment.hole name ∈ t.prepared.segments := by
    unfold Template.holes
    rw [List.mem_filterMap]
    constructor
    · rintro ⟨s, member, found⟩
      cases s with
      | literal text => cases found
      | hole other => exact Option.some.inj found ▸ member
    · exact fun member => ⟨_, member, rfl⟩
  simp only [holes, ← missing_eq_nil]
  unfold render isReadable
  by_cases parsed : t.segments.isEmpty = true
  · cases error : t.compileError? with
    | some err => simp [parsed]
    | none => simp [parsed]
  · simp [parsed]

end Template

/-! ## Names that are bound -/

theorem Bindings.lookup_put (b : Bindings) (name value x : String) :
    (b.put name value).lookup x = if x = name then some value else b.lookup x := by
  unfold put
  rw [List.lookup_cons]
  by_cases same : x = name
  · simp [same]
  · rw [beq_eq_false_iff_ne.mpr same, if_neg same]
    exact lookup_filter_of_ne same b

/-- The names are those of the first operands. -/
def Bindings.Inputs (b : Bindings) (count : Nat) : Prop :=
  ∀ x, (b.lookup x).isSome = true ↔ ∃ i < count, x = inputName i

/-- An operand that is bound anew keeps the names. -/
theorem Bindings.Inputs.put {b : Bindings} {count i : Nat} (inputs : b.Inputs count)
    (among : i < count) (value : String) : (b.put (inputName i) value).Inputs count := by
  intro x
  rw [lookup_put]
  split
  · rename_i same
    exact iff_of_true rfl ⟨i, among, same⟩
  · exact inputs x

theorem Bindings.lookup_foldl_put (text : Node → String) (args : List Node) (start : Nat)
    (b : Bindings) (x : String) :
    (((args.zipIdx start).foldl (fun (b : Bindings) (arg, i) => b.put (inputName i) (text arg))
      b).lookup x).isSome = true ↔
      (∃ i < args.length, x = inputName (start + i)) ∨ (b.lookup x).isSome = true := by
  induction args generalizing start b with
  | nil => simp
  | cons arg args ih =>
      rw [List.zipIdx_cons, List.foldl_cons, ih, lookup_put]
      constructor
      · rintro (⟨i, before, rfl⟩ | known)
        · exact Or.inl ⟨i + 1, by simpa using before, by rw [Nat.add_right_comm, Nat.add_assoc]⟩
        · split at known
          · rename_i same
            exact Or.inl ⟨0, by simp, same⟩
          · exact Or.inr known
      · rintro (⟨i, before, rfl⟩ | known)
        · cases i with
          | zero => exact Or.inr (by simp)
          | succ i =>
              exact Or.inl ⟨i, by simpa using before, by rw [Nat.add_right_comm, Nat.add_assoc]⟩
        · exact Or.inr (by split <;> first | rfl | exact known)

namespace Emitter

variable (e : Emitter)

/-- The number of operands of the syntax that a node stands for. -/
def arity (n : OpNode) : Nat :=
  ((e.syntaxOf n).map fun x => (Lowering.operandsOf e.unit x).length).getD 0

theorem sourceBindings_inputs (n : OpNode) : (e.sourceBindings n).Inputs (e.arity n) := by
  intro name
  unfold sourceBindings arity Lowering.operandsOf
  cases e.syntaxOf n with
  | none => simp
  | some x =>
      by_cases isExpr : x.isExpr = true
      · simp only [isExpr, Bool.not_true, Bool.false_eq_true, if_false, Option.map_some,
          Option.getD_some, if_true]
        cases e.unit.scope.strip x with
        | call m callee args spread =>
            simp only
            rw [Bindings.lookup_foldl_put (fun arg => e.target.replaceCasts (e.print arg))]
            simp
        | binary m op x y =>
            by_cases first : name = inputName 0
            · exact iff_of_true (by simp [first]) ⟨0, by simp, first⟩
            · have other : (name == inputName 0) = false := beq_eq_false_iff_ne.mpr first
              simp only [List.lookup_cons, other]
              constructor
              · intro found
                refine ⟨1, by simp, ?_⟩
                by_contra second
                simp [beq_eq_false_iff_ne.mpr second] at found
              · rintro ⟨i, before, rfl⟩
                rcases i with _ | _ | i
                · exact absurd rfl first
                · simp
                · exact absurd before (by simp)
        | _ => simp
      · simp [isExpr]

/-! ## Verdicts -/

/-- Every hole of the template has a value for an operation on so many operands. -/
def fills (t : Template) (count : Nat) : Bool :=
  t.isReadable && t.holes.all fun name =>
    (List.range count).any (fun i => name == inputName i) ||
      (e.target.isPredicated && name == "predicate")

/-- What becomes of an operation on so many operands. -/
def verdictOn (operation : String) (count : Nat) : Resolution :=
  match e.rule? operation with
  | none => .byFallback
  | some rule =>
    match rule.template? e.target.name with
    | none => .byFallback
    | some t => if e.fills t count then .byRule rule.id else .byFallback

/-- What becomes of a node where its text is asked for. -/
def verdict (n : OpNode) : Resolution := e.verdictOn n.operation (e.arity n)

variable {e}

/-- The operands and the predicate decide whether a template is rendered. -/
theorem render_iff_fills {t : Template} {b : Bindings} {count : Nat} (inputs : b.Inputs count) :
    (t.render (if e.target.isPredicated then b.put "predicate" e.target.predicate else b)).2 = none ↔
      e.fills t count = true := by
  have bound (name : String) : (((if e.target.isPredicated then
      b.put "predicate" e.target.predicate else b).lookup name).isSome = true) ↔
      ((List.range count).any (fun i => name == inputName i) ||
        (e.target.isPredicated && name == "predicate")) = true := by
    simp only [Bool.or_eq_true, List.any_eq_true, List.mem_range, beq_iff_eq, Bool.and_eq_true,
      ← inputs name]
    by_cases predicated : e.target.isPredicated = true
    · rw [if_pos predicated, Bindings.lookup_put]
      by_cases same : name = "predicate" <;> simp [same, predicated]
    · simp [predicated]
  rw [Template.render_ok_iff, fills, Bool.and_eq_true, List.all_eq_true]
  exact and_congr_right fun _ => forall_congr' fun name => imp_congr_right fun _ => bound name

end Emitter

/-! ## Tables of records -/

namespace EmitState

variable {expected : OpId → Option Resolution} {id : OpId} {s t : EmitState}

/-- Every record is the expected one. -/
def Sound (expected : OpId → Option Resolution) (s : EmitState) : Prop :=
  ∀ id r, s.resolutions.lookup id = some r → expected id = some r

/-- What has been said still stands. -/
def Kept (s t : EmitState) : Prop :=
  ∀ id r, s.resolutions.lookup id = some r → t.resolutions.lookup id = some r

/-- The expected record is there, or none is expected and there is none. -/
def Settled (expected : OpId → Option Resolution) (id : OpId) (s : EmitState) : Prop :=
  s.resolutions.lookup id = expected id

theorem Kept.trans {r : EmitState} (first : s.Kept t) (second : t.Kept r) : s.Kept r :=
  fun id a found => second id a (first id a found)

theorem Sound.settled_of_none (sound : s.Sound expected) (none : expected id = none) :
    s.Settled expected id := by
  unfold Settled
  rw [none]
  refine Option.eq_none_iff_forall_ne_some.mpr fun r found => ?_
  exact nomatch none.symm.trans (sound id r found)

/-- A record that is settled stays so. -/
theorem Settled.kept (settled : s.Settled expected id) (kept : s.Kept t) (sound : t.Sound expected) :
    t.Settled expected id := by
  cases is : expected id with
  | none => exact sound.settled_of_none is
  | some r => exact (kept id r (settled.trans is)).trans is.symm

end EmitState

/-- What an emission leaves behind: the table is sound again, keeps what it had, and the outcome and
the table are as said. -/
structure Emit.After {α : Type} (expected : OpId → Option Resolution) (m : Emit α) (s : EmitState)
    (Q : α → EmitState → Prop) : Prop where
  sound : (m.run s).2.Sound expected
  kept : s.Kept (m.run s).2
  post : Q (m.run s).1 (m.run s).2

/-- Started with a sound table as said before, the emission leaves one as said after. -/
def Emit.Ensures {α : Type} (expected : OpId → Option Resolution) (P : EmitState → Prop)
    (m : Emit α) (Q : α → EmitState → Prop) : Prop :=
  ∀ s : EmitState, s.Sound expected → P s → Emit.After expected m s Q

namespace Emit.Ensures

variable {α β : Type} {expected : OpId → Option Resolution} {P : EmitState → Prop} {id : OpId}

theorem ret {a : α} {Q : α → EmitState → Prop} (holds : ∀ s, s.Sound expected → P s → Q a s) :
    Ensures expected P (pure a : Emit α) Q :=
  fun s sound before => ⟨sound, fun _ _ found => found, holds s sound before⟩

theorem bind {m : Emit α} {f : α → Emit β} {Q : α → EmitState → Prop} {R : β → EmitState → Prop}
    (first : Ensures expected P m Q) (next : ∀ a, Ensures expected (Q a) (f a) R) :
    Ensures expected P (m >>= f) R := by
  intro s sound before
  have one := first s sound before
  have two := next _ _ one.sound one.post
  exact ⟨two.sound, one.kept.trans two.kept, two.post⟩

theorem weaken {P' : EmitState → Prop} {m : Emit α} {Q R : α → EmitState → Prop}
    (ensures : Ensures expected P m Q) (before : ∀ s, P' s → P s) (after : ∀ a s, Q a s → R a s) :
    Ensures expected P' m R := by
  intro s sound start
  have run := ensures s sound (before s start)
  exact ⟨run.sound, run.kept, after _ _ run.post⟩

/-- A step that records nothing. -/
theorem quiet {m : Emit α} (same : ∀ s, (m.run s).2.resolutions = s.resolutions) :
    Ensures expected P m fun _ _ => True := by
  intro s sound _
  refine ⟨fun id r found => sound id r ?_, fun id r found => ?_, trivial⟩
  · rwa [same] at found
  · rwa [same]

/-- What comes after a record is settled leaves it settled. -/
theorem settled_bind {m : Emit α} {f : α → Emit β}
    (first : Ensures expected P m fun _ s => s.Settled expected id)
    (next : ∀ a, Ensures expected (fun _ => True) (f a) fun _ _ => True) :
    Ensures expected P (m >>= f) fun _ s => s.Settled expected id := by
  refine first.bind fun a s sound settled => ?_
  have run := next a s sound trivial
  exact ⟨run.sound, run.kept, settled.kept run.kept run.sound⟩

theorem foldlM {f : β → α → Emit β} {I : β → Prop} (l : List α)
    (each : ∀ b, I b → ∀ a ∈ l, Ensures expected (fun _ => True) (f b a) fun b' _ => I b') (b : β)
    (start : I b) : Ensures expected (fun _ => True) (l.foldlM f b) fun b' _ => I b' := by
  induction l generalizing b with
  | nil => exact .ret fun _ _ _ => start
  | cons a l ih =>
      rw [List.foldlM_cons]
      refine bind (each b start a List.mem_cons_self) fun b' s sound holds => ?_
      exact ih (fun b holds a member => each b holds a (List.mem_cons_of_mem _ member)) b' holds s
        sound trivial

end Emit.Ensures

/-! ## What is expected -/

namespace Emitter

open Lowering (initLabel)
open Emit (Ensures)

variable (e : Emitter)

/-- A node whose line is a header. -/
def isHeader (n : OpNode) : Bool :=
  match e.syntaxOf n with
  | some (.ifStmt ..) | some (.forStmt ..) | some (.rangeStmt ..) => true
  | _ => n.name == Lowering.elseName

/-- What becomes of the node that feeds a store; without one, the source is printed. -/
def fedVerdict (n : OpNode) : Resolution :=
  ((e.graph.input? n.id initLabel).map e.verdict).getD .byFallback

/-- What is recorded of a node.  A store is resolved like its value, a header and the end of a block
not at all. -/
def expected (n : OpNode) : Option Resolution :=
  if n.kind == .blockEnd then none
  else if n.isDefine then some (e.fedVerdict n)
  else if n.kind == .control then if e.isHeader n then none else some .byFallback
  else if n.operation == Lowering.assignOperation then some (e.fedVerdict n)
  else some (e.verdict n)

def expectedAt (id : OpId) : Option Resolution := (e.graph.node? id).bind e.expected

/-- The size of the syntax that a node stands for. -/
noncomputable def weight (n : OpNode) : Nat := ((e.syntaxOf n).map sizeOf).getD 0

/-- The number of nodes that an operand of the node may be. -/
noncomputable def rank (n : OpNode) : Nat :=
  e.graph.nodes.countP fun m => decide (e.weight m < e.weight n)

/-- A node that is resolved by itself. -/
def IsValue (n : OpNode) : Prop := n.stores = false ∧ n.kind ≠ .control ∧ n.kind ≠ .blockEnd

/-- Nodes are where their numbers say; operand edges bind no other names than those of operands, and
lead from variables or from smaller values; what feeds a store is a value. -/
structure WellFed (e : Emitter) : Prop where
  placed : ∀ n ∈ e.graph.nodes, e.graph.node? n.id = some n
  position : ∀ n ∈ e.graph.nodes, ∀ edge ∈ e.graph.edgesTo n.id, ∀ i, argIndex? edge = some i →
    ∃ j < e.arity n, i = (j : Int)
  operand : ∀ n ∈ e.graph.nodes, ∀ edge ∈ e.graph.edgesTo n.id, ∀ i, argIndex? edge = some i →
    ∀ source, e.graph.node? edge.source = some source → source.isStatement = false →
      IsValue source ∧ e.weight source < e.weight n
  value : ∀ n ∈ e.graph.nodes, ∀ source, e.graph.input? n.id initLabel = some source → IsValue source

variable {e}

theorem expected_of_isValue {n : OpNode} (isValue : IsValue n) :
    e.expected n = some (e.verdict n) := by
  obtain ⟨silent, level, inner⟩ := isValue
  simp only [OpNode.stores, Bool.or_eq_false_iff] at silent
  unfold expected
  rw [if_neg (by simpa using inner), if_neg (by simp [silent.1]), if_neg (by simpa using level),
    if_neg (by simp [silent.2])]

theorem lookup_resolve (id x : OpId) (r : Resolution) (s : EmitState) :
    ((resolve id r).run s).2.resolutions.lookup x =
      (s.resolutions.lookup x).or (if x = id then some r else none) := by
  by_cases known : (s.resolutions.lookup id).isSome = true
  · have same : ((resolve id r).run s).2 = s := if_pos known
    rw [same]
    split
    · rename_i here
      obtain ⟨r', found⟩ := Option.isSome_iff_exists.mp known
      rw [here, found, Option.some_or]
    · rw [Option.or_none]
  · have after : ((resolve id r).run s).2 = { s with resolutions := s.resolutions ++ [(id, r)] } :=
      if_neg known
    rw [after, List.lookup_append, List.lookup_cons, List.lookup_nil]
    by_cases here : x = id
    · simp [here]
    · simp [here, beq_eq_false_iff_ne.mpr here]

/-- A smaller node of the graph has fewer nodes below it. -/
theorem rank_lt {source n : OpNode} (member : source ∈ e.graph.nodes)
    (smaller : e.weight source < e.weight n) : e.rank source < e.rank n := by
  unfold rank
  obtain ⟨front, back, split⟩ := List.append_of_mem member
  have grows (nodes : List OpNode) :
      (nodes.countP fun m => decide (e.weight m < e.weight source)) ≤
        nodes.countP fun m => decide (e.weight m < e.weight n) :=
    List.countP_mono_left fun m _ below => by simp only [decide_eq_true_eq] at below ⊢; omega
  have before := grows front
  have after := grows back
  simp only [split, List.countP_append, List.countP_cons, Nat.lt_irrefl, smaller, decide_true,
    decide_false, Bool.false_eq_true, if_false, if_true]
  omega

theorem rank_le (n : OpNode) : e.rank n ≤ e.graph.slots.length :=
  Nat.le_trans List.countP_le_length (List.length_filterMap_le _ _)

namespace WellFed

variable (fed : e.WellFed) {n : OpNode} {m : Emit String}

include fed

theorem expectedAt_eq (member : n ∈ e.graph.nodes) : e.expectedAt n.id = e.expected n := by
  rw [expectedAt, fed.placed n member]
  rfl

theorem ensures_resolve (member : n ∈ e.graph.nodes) {r : Resolution} (is : e.expected n = some r) :
    Ensures e.expectedAt (fun _ => True) (resolve n.id r) fun _ s => s.Settled e.expectedAt n.id := by
  have here := (fed.expectedAt_eq member).trans is
  intro s sound _
  have sound' : ((resolve n.id r).run s).2.Sound e.expectedAt := by
    intro id r' found
    rw [lookup_resolve, Option.or_eq_some_iff] at found
    rcases found with old | ⟨-, new⟩
    · exact sound id r' old
    · split at new
      · rename_i same
        rw [same, here, new]
      · cases new
  refine ⟨sound', fun id r' found => ?_, ?_⟩
  · rw [lookup_resolve, found, Option.some_or]
  · obtain ⟨r', found⟩ : ∃ r', ((resolve n.id r).run s).2.resolutions.lookup n.id = some r' := by
      rw [lookup_resolve, if_pos rfl]
      cases s.resolutions.lookup n.id <;> exact ⟨_, rfl⟩
    exact found.trans (sound' n.id r' found).symm

theorem ensures_fallback (member : n ∈ e.graph.nodes) (is : e.expected n = some .byFallback) :
    Ensures e.expectedAt (fun _ => True) (e.fallback n) fun _ s => s.Settled e.expectedAt n.id :=
  (fed.ensures_resolve member is).settled_bind fun _ => .ret fun _ _ _ => trivial

/-- The names under which a template is rendered are those of the operands. -/
theorem ensures_bound (member : n ∈ e.graph.nodes) (inner : OpNode → Emit String)
    (each : ∀ source ∈ e.graph.nodes, IsValue source → e.weight source < e.weight n →
      Ensures e.expectedAt (fun _ => True) (inner source) fun _ _ => True) :
    Ensures e.expectedAt (fun _ => True)
      ((e.graph.edgesTo n.id).foldlM (fun (b : Bindings) edge =>
        match argIndex? edge, e.graph.node? edge.source with
        | some i, some source => do
          let value ← if source.isStatement then pure source.variableName else inner source
          return if value == "" then b
            else b.put (holeOf i) (e.asMask n.operation source value)
        | _, _ => pure b) (e.sourceBindings n)) fun b _ => Bindings.Inputs b (e.arity n) := by
  refine .foldlM (I := fun b => Bindings.Inputs b (e.arity n)) _ (fun b inputs edge drawn => ?_) _
    (e.sourceBindings_inputs n)
  split
  · rename_i i source index found
    obtain ⟨j, among, rfl⟩ := fed.position n member edge drawn i index
    have rebound (value : String) : Ensures e.expectedAt (fun _ => True)
        (pure (if value == "" then b else b.put (holeOf j) (e.asMask n.operation source value)))
        fun b _ => Bindings.Inputs b (e.arity n) := by
      refine .ret fun _ _ _ => ?_
      split
      · exact inputs
      · exact inputs.put among _
    split
    · exact Ensures.bind (Q := fun _ _ => True) (.ret fun _ _ _ => trivial) rebound
    · rename_i other
      obtain ⟨isValue, smaller⟩ := fed.operand n member edge drawn j index source found
        (eq_false_of_ne_true other)
      exact (each source (mem_of_node? found) isValue smaller).bind rebound
  · exact .ret fun _ _ _ => inputs

/-- Asked for the text of a value, the emission records its verdict. -/
theorem ensures_apply (depth : Nat) (member : n ∈ e.graph.nodes) (isValue : IsValue n)
    (enough : e.rank n < depth) : Ensures e.expectedAt (fun _ => True) (e.apply depth n)
      fun _ s => s.Settled e.expectedAt n.id := by
  induction depth generalizing n with
  | zero => omega
  | succ depth ih =>
      have is := expected_of_isValue (e := e) isValue
      unfold verdict verdictOn at is
      unfold apply
      split
      · rename_i unmatched
        rw [unmatched] at is
        exact fed.ensures_fallback member is
      · rename_i rule matched
        rw [matched] at is
        dsimp only at is
        split
        · rename_i absent
          rw [absent] at is
          exact (Ensures.quiet fun _ => rfl).bind fun _ => fed.ensures_fallback member is
        · rename_i template there
          rw [there] at is
          dsimp only at is
          have bound := fed.ensures_bound member (e.apply depth) fun source member isValue smaller =>
            (ih member isValue (by have := rank_lt member smaller; omega)).weaken (fun _ => id)
              fun _ _ _ => trivial
          refine bound.bind fun b s sound inputs => ?_
          have renders := render_iff_fills (e := e) (t := template) inputs
          suffices rest : Ensures e.expectedAt (fun _ => True) _
              fun _ s => s.Settled e.expectedAt n.id from rest s sound trivial
          dsimp only
          split
          · rename_i err faulty
            rw [faulty] at renders
            have unfilled : ¬e.fills template (e.arity n) = true := mt renders.mpr (Option.some_ne_none err)
            rw [if_neg unfilled] at is
            exact (Ensures.quiet fun _ => rfl).bind fun _ => fed.ensures_fallback member is
          · rename_i code rendered
            rw [rendered] at renders
            rw [if_pos (renders.mp rfl)] at is
            refine (fed.ensures_resolve member is).settled_bind fun _ => ?_
            exact (Ensures.quiet fun _ => rfl).bind fun _ => .ret fun _ _ _ => trivial

theorem ensures_applyNode (member : n ∈ e.graph.nodes) (isValue : IsValue n) :
    Ensures e.expectedAt (fun _ => True) (e.applyNode n) fun _ s => s.Settled e.expectedAt n.id :=
  fed.ensures_apply _ member isValue (Nat.lt_succ_of_le (rank_le n))

/-- A store that is written with a value is resolved like it. -/
theorem ensures_inherit (member : n ∈ e.graph.nodes) {source : OpNode}
    (input : e.graph.input? n.id initLabel = some source)
    (is : e.expected n = some (e.fedVerdict n)) :
    Ensures e.expectedAt (fun s => s.Settled e.expectedAt source.id) (inherit n.id source.id)
      fun _ s => s.Settled e.expectedAt n.id := by
  intro s sound settled
  have there := mem_of_input? input
  have known : s.resolutions.lookup source.id = some (e.verdict source) := by
    rw [settled, fed.expectedAt_eq there]
    exact expected_of_isValue (fed.value n member source input)
  have run : (inherit n.id source.id).run s = (resolve n.id (e.verdict source)).run s := by
    unfold inherit
    simp [known]
  have after := fed.ensures_resolve member (r := e.verdict source)
    (by rw [is, fedVerdict, input]; rfl) s sound trivial
  exact ⟨run ▸ after.sound, run ▸ after.kept, run ▸ after.post⟩

section Statement

variable (member : n ∈ e.graph.nodes) (inner : ¬(n.kind == .blockEnd) = true)

include member inner

theorem ensures_define (declares : n.isDefine = true) :
    Ensures e.expectedAt (fun _ => True) (e.define n) fun _ s => s.Settled e.expectedAt n.id := by
  have is : e.expected n = some (e.fedVerdict n) := by
    rw [expected, if_neg inner, if_pos declares]
  unfold define
  split
  split
  · rename_i source input
    refine (fed.ensures_applyNode (mem_of_input? input) (fed.value n member source input)).bind
      fun value => ?_
    exact (fed.ensures_inherit member input is).settled_bind fun _ => .ret fun _ _ _ => trivial
  · rename_i unfed
    rw [fedVerdict, unfed] at is
    exact (fed.ensures_resolve member is).settled_bind fun _ => .ret fun _ _ _ => trivial

theorem ensures_control (other : ¬n.isDefine = true) (control : (n.kind == .control) = true) :
    Ensures e.expectedAt (fun _ => True) (e.control n) fun _ s => s.Settled e.expectedAt n.id := by
  have is : e.expected n = if e.isHeader n then none else some .byFallback := by
    rw [expected, if_neg inner, if_neg other, if_pos control]
  have header (isHeader : e.isHeader n = true) (text : String) :
      Ensures e.expectedAt (fun _ => True) (pure text) fun _ s => s.Settled e.expectedAt n.id := by
    refine .ret fun s sound _ => sound.settled_of_none ?_
    rw [fed.expectedAt_eq member, is, if_pos isHeader]
  unfold Emitter.control
  split
  · rename_i syn
    exact header (by simp [isHeader, syn]) _
  · rename_i syn
    exact header (by simp [isHeader, syn]) _
  · rename_i syn
    exact header (by simp [isHeader, syn]) _
  · rename_i syn
    exact header (by simp [isHeader, syn]) _
  · rename_i noIf _ noFor noRange
    have plain : e.isHeader n = (n.name == Lowering.elseName) := by
      unfold isHeader
      split
      · rename_i syn
        exact (noIf _ _ _ _ _ syn).elim
      · rename_i syn
        exact (noFor _ _ _ _ _ syn).elim
      · rename_i syn
        exact (noRange _ _ _ _ _ syn).elim
      · rfl
    split
    · rename_i isElse
      exact header (plain.trans isElse) _
    · rename_i other
      rw [plain, if_neg other] at is
      exact fed.ensures_fallback member is

/-- The line of a statement leaves the record that is expected of it. -/
theorem ensures_statement :
    Ensures e.expectedAt (fun _ => True) (e.statement n) fun _ s => s.Settled e.expectedAt n.id := by
  unfold statement
  split
  · rename_i declares
    exact fed.ensures_define member inner declares
  · rename_i other
    split
    · rename_i control
      exact fed.ensures_control member inner other control
    · rename_i level
      split
      · rename_i assigns
        have is : e.expected n = some (e.fedVerdict n) := by
          rw [expected, if_neg inner, if_neg other, if_neg level, if_pos assigns]
        split
        · rename_i source input
          refine (fed.ensures_applyNode (mem_of_input? input) (fed.value n member source input)).bind
            fun value => ?_
          exact (fed.ensures_inherit member input is).settled_bind fun _ => .ret fun _ _ _ => trivial
        · rename_i unfed
          rw [fedVerdict, unfed] at is
          exact fed.ensures_fallback member is
      · rename_i plain
        refine fed.ensures_applyNode member ⟨?_, by simpa using level, by simpa using inner⟩
        simp [OpNode.stores, other, plain]

end Statement

/-! ## Bodies -/

theorem ensures_writeNode (member : n ∈ e.graph.nodes) (b : BodyState) :
    Ensures e.expectedAt (fun _ => True) (e.writeNode b n) fun _ s =>
      n.isStatement = true → s.Settled e.expectedAt n.id := by
  unfold writeNode
  split
  · rename_i closes
    refine .ret fun _ sound _ _ => sound.settled_of_none ?_
    rw [fed.expectedAt_eq member, expected, if_pos closes]
  · rename_i inner
    split
    · rename_i silent
      exact .ret fun _ _ _ isStatement => absurd isStatement (by simpa using silent)
    · refine Ensures.weaken ?_ (fun _ => id) fun _ _ settled _ => settled
      refine (fed.ensures_statement member inner).settled_bind fun line => ?_
      split
      · exact .ret fun _ _ _ => trivial
      · exact (Ensures.quiet fun _ => rfl).bind fun _ => .ret fun _ _ _ => trivial

theorem ensures_nodes (nodes : List OpNode) (among : ∀ n ∈ nodes, n ∈ e.graph.nodes) (b : BodyState) :
    Ensures e.expectedAt (fun _ => True) (nodes.foldlM e.writeNode b) fun _ s =>
      ∀ n ∈ nodes, n.isStatement = true → s.Settled e.expectedAt n.id := by
  induction nodes generalizing b with
  | nil => exact .ret fun _ _ _ => List.forall_mem_nil _
  | cons n nodes ih =>
      rw [List.foldlM_cons]
      refine (fed.ensures_writeNode (among n List.mem_cons_self) b).bind fun b' s sound first => ?_
      have run := ih (fun n member => among n (List.mem_cons_of_mem _ member)) b' s sound trivial
      refine ⟨run.sound, run.kept, List.forall_mem_cons.mpr ⟨?_, run.post⟩⟩
      exact fun isStatement => (first isStatement).kept run.kept run.sound

/-- What the emission says of its statements is what is expected of them. -/
theorem lookup_resolutions (member : n ∈ e.graph.nodes) (isStatement : n.isStatement = true) :
    e.generate.value.resolutions.lookup n.id = e.expected n := by
  have run := fed.ensures_nodes e.graph.nodes (fun _ => id) {} {} (fun _ _ => nofun) trivial
  exact (run.post n member isStatement).trans (fed.expectedAt_eq member)

end WellFed

end Emitter

end Retarget
