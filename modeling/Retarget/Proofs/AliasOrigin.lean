/-
# Proofs.AliasOrigin -- what a statement can be known by

An enclosing statement has no node in the property graph and is known by one of another statement.
There are three sorts of such names and no others: a branching statement is known by what its block
tests, a declaration by a specification in it, an expression by the statement it makes up
(`AliasOrigin`).  Aliases are only made when a kernel is built, out of its flow graph and its trees,
and forgetting takes some away; so it is these three after every history (`history_aliases`).
-/
import Retarget.Proofs.LayoutHistory
import Retarget.Proofs.SyntaxNumbers

namespace Retarget

open Retarget.Source (Node NodeId Mark)

set_option autoImplicit false
set_option linter.dupNamespace false

/-- Why `owner` is known by `stmt`. -/
inductive AliasOrigin (u : SourceUnit) (owner stmt : NodeId) : Prop where
  /-- The statement decides between the two ways a block goes on. -/
  | branch (k : KernelFn) (listed : k ∈ u.kernels) (flow : FlowGraph)
      (found : u.flowGraph? k = some flow) (b : Block) (among : b ∈ flow.blocks)
      (tests : b.terminator? = some stmt) (owns : b.branch = some owner)
  /-- The declaration holds the specification. -/
  | declaration (d spec : Node) (holds : u.declOf? stmt = some d) (named : d.id = owner)
      (found : u.node? stmt = some spec)
  /-- The statement is this expression. -/
  | expression (m : Mark) (x : Node) (found : u.node? stmt = some (.exprStmt m x))
      (named : x.id = owner)

namespace PropertyGraph

variable {u : SourceUnit} {g : PropertyGraph} {k : KernelFn} {flow : FlowGraph}
  {known : List (NodeId × NodeId)}

/-- Every alias has an origin. -/
def Explained (u : SourceUnit) (known : List (NodeId × NodeId)) : Prop :=
  ∀ owner stmt, (owner, stmt) ∈ known → AliasOrigin u owner stmt

theorem Explained.subset {fewer : List (NodeId × NodeId)} (explained : Explained u known)
    (sub : fewer ⊆ known) : Explained u fewer :=
  fun owner stmt member => explained owner stmt (sub member)

theorem Explained.append {owner stmt : NodeId} (explained : Explained u known)
    (origin : AliasOrigin u owner stmt) : Explained u (known ++ [(owner, stmt)]) := by
  intro o s member
  rcases List.mem_append.mp member with old | new
  · exact explained o s old
  · obtain ⟨rfl, rfl⟩ := Prod.mk.inj (List.mem_singleton.mp new)
    exact origin

theorem Explained.addAlias {owner stmt : NodeId} (explained : Explained u known)
    (origin : AliasOrigin u owner stmt) : Explained u (addAlias known owner stmt) := by
  unfold PropertyGraph.addAlias
  split
  · exact explained
  · exact explained.append origin

theorem Explained.branchAliases (explained : Explained u known) (listed : k ∈ u.kernels)
    (found : u.flowGraph? k = some flow) (index : List (NodeId × Slot)) :
    Explained u (branchAliases flow index known) := by
  apply List.foldlRecOn (motive := Explained u)
  · exact explained
  · intro acc before b among
    split
    · rename_i cond owner tests owns
      split
      · exact before
      · exact before.addAlias (.branch k listed flow found b among tests owns)
    · exact before

theorem Explained.stmtAliases (explained : Explained u known) (stmts : List NodeId) :
    Explained u (stmtAliases u stmts known) := by
  apply List.foldlRecOn (motive := Explained u)
  · exact explained
  · intro acc before n _
    split
    · rename_i found
      split
      · rename_i d holds
        exact before.addAlias (.declaration d _ holds rfl found)
      · exact before
    · rename_i m x found
      exact (before.subset (List.filter_sublist.subset)).append (.expression m x found rfl)
    · exact before

/-! ## Histories -/

theorem aliases_removeNodes (g : PropertyGraph) (slots : List Slot) :
    (g.removeNodes slots).aliases = g.aliases := by
  induction slots generalizing g with
  | nil => rfl
  | cons s slots ih =>
      have rest : g.removeNodes (s :: slots) = (g.removeNode s).removeNodes slots := rfl
      rw [rest, ih, removeNode]
      split <;> rfl

theorem aliases_unlinked (g : PropertyGraph) (k : KernelId) :
    (g.unlinked k).1.aliases = g.aliases := by
  suffices kept : ∀ (records : List CallRecord) (state : PropertyGraph × List CallRecord),
      (records.foldl (unlinkCall k) state).1.aliases = state.1.aliases from kept g.calls (g, [])
  intro records
  induction records with
  | nil => exact fun _ => rfl
  | cons r records ih =>
      intro state
      rw [List.foldl_cons, ih, unlinkCall]
      split
      · exact aliases_removeNodes _ _
      · split
        · exact aliases_removeNodes _ _
        · rfl

theorem Wired.aliases_linkCalls (wired : g.Wired u g.calls) :
    (g.linkCalls u).aliases = g.aliases := by
  have settled : g.Settled [] := nofun
  exact (foldl_linkStep_spec g.calls (g, []) wired settled).2.2.aliases

theorem Wired.aliases_buildKernel (wired : g.Wired u g.calls) (found : u.flowGraph? k = some flow) :
    ∃ index, (g.buildKernel u k).value.aliases =
      PropertyGraph.stmtAliases u flow.statements (PropertyGraph.branchAliases flow index g.aliases) := by
  have same : (g.wireKernel u k flow).aliases = g.aliases :=
    (wireKernel_grown wired.sound u k flow).ext.aliases
  rw [buildKernel_eq found, ← same]
  exact ⟨_, rfl⟩

theorem explained_invariant (u : SourceUnit) : Invariant u fun g => Explained u g.aliases where
  forget g b _ _ explained := by
    refine explained.subset fun e member => ?_
    have left : e ∈ ((g.unlinked b.kernel).1.removeNodes b.slots).aliases :=
      (List.mem_filter.mp (show e ∈ List.filter _ _ from member)).1
    rwa [aliases_removeNodes, aliases_unlinked] at left
  build g k wired listed _ explained := by
    cases found : u.flowGraph? k with
    | none =>
        rw [PropertyGraph.buildKernel, found]
        exact explained
    | some flow =>
        obtain ⟨index, same⟩ := wired.aliases_buildKernel found
        rw [same]
        exact (explained.branchAliases listed found index).stmtAliases _
  link g wired explained := by
    rwa [wired.aliases_linkCalls]

/-- After any history every alias has an origin. -/
theorem history_aliases (u : SourceUnit) (cap : Int) (ops : List (GraphOp u)) :
    Explained u (history u cap ops).aliases :=
  (explained_invariant u).history nofun ops

end PropertyGraph

end Retarget
