/-
# Proofs.ParenthesesAside -- parentheses and what the analyses say

Two kernels that are the same but for parentheses have the same flow graph by other numbers, and
their nodes write and read the same if they have the same bare targets.  So the definitions that
reach a node and all dependences are the same (`parentheses_aside`).  A target in parentheses is
missed: it is read and not written (`parentheses_aside_target`).
-/
import Retarget.Proofs.BareFlow
import Retarget.Proofs.DefUse
import Mathlib.Logic.Equiv.Basic

namespace Retarget

open Retarget.Source (Node NodeId Mark)

set_option autoImplicit false
set_option linter.dupNamespace false

/-! ## Numbers -/

/-- Numbers that are all different become other numbers, which are all different, by a renaming. -/
theorem exists_renaming {α : Type} {old new : α → Nat} {xs : List α} (once : (xs.map old).Nodup)
    (once' : (xs.map new).Nodup) :
    ∃ ρ : Nat → Nat, Function.Injective ρ ∧ ∀ x ∈ xs, new x = ρ (old x) := by
  induction xs with
  | nil => exact ⟨id, Function.injective_id, nofun⟩
  | cons x xs ih =>
      obtain ⟨apart, once⟩ := List.nodup_cons.mp once
      obtain ⟨apart', once'⟩ := List.nodup_cons.mp once'
      obtain ⟨ρ, inj, renames⟩ := ih once once'
      refine ⟨Equiv.swap (ρ (old x)) (new x) ∘ ρ, (Equiv.injective _).comp inj,
        List.forall_mem_cons.mpr ⟨(Equiv.swap_apply_left _ _).symm, fun y among => ?_⟩⟩
      have other : ρ (old y) ≠ ρ (old x) := fun same =>
        apart (inj same ▸ List.mem_map_of_mem among)
      have other' : ρ (old y) ≠ new x := fun same =>
        apart' (same ▸ renames y among ▸ List.mem_map_of_mem among)
      rw [Function.comp_apply, Equiv.swap_apply_of_ne_of_ne other other', renames y among]

theorem FlowGraph.relabel_id (g : FlowGraph) : g.relabel id = g := by
  have same (b : Block) : b.relabel id = b := by simp [Block.relabel]
  exact congrArg FlowGraph.mk ((List.map_congr_left fun b _ => same b).trans (List.map_id _))

/-- The nodes of a flow graph have no parentheses right around them. -/
theorem mem_outermost_of_statement {f : Mark → Mark} {ρ : NodeId → NodeId} {panics : Bool} {b : Node}
    {fallOff s : NodeId} (renumbers : Drafting.Renumbers f ρ panics b)
    (stands : s ∈ (flowGraphOf panics b fallOff).statements) :
    s ∈ b.outermost.map Node.id ∨ s = fallOff := by
  by_contra unknown
  obtain ⟨unlisted, other⟩ := not_or.mp unknown
  -- the graph without parentheses is the same whatever becomes of such a number
  let moved : NodeId → NodeId := fun i => if i = s then ρ s + 1 else ρ i
  have renumbers' : Drafting.Renumbers f moved panics b := by
    refine ⟨fun x below => ?_, renumbers.control⟩
    have apart : x.id ≠ s := fun same => unlisted (List.mem_map.mpr ⟨x, below, same⟩)
    rw [renumbers.number x below]
    exact (if_neg apart).symm
  have last : ρ fallOff = moved fallOff := (if_neg (Ne.symm other)).symm
  have same := congrArg FlowGraph.statements
    ((flowGraphOf_bare renumbers rfl).symm.trans (flowGraphOf_bare renumbers' last))
  rw [FlowGraph.statements_relabel, FlowGraph.statements_relabel] at same
  have here : ρ s = moved s := List.map_inj_left.mp same s stands
  simp [moved] at here

/-! ## Kernels -/

open Drafting (KeepsControl)
open Kernel.Scope (written)

namespace SourceUnit

variable {u : SourceUnit} {k : KernelFn} {b : Node}

/-- What the analyses say of a kernel. -/
def factsOf (u : SourceUnit) (k : KernelFn) (g : FlowGraph) (cap : Nat) : FlowFacts :=
  analyzeFlow g (u.accessTo g.statements) (k.params.map (·.name)) cap

theorem own_nodup (numbered : u.Numbered) (listed : k ∈ u.kernels) (body : k.body = some b) :
    (b.ids ++ [k.fallOff.id]).Nodup := by
  have own := (List.nodup_flatMap.mp numbered.kernels_nodup).1 k listed
  simp only [KernelFn.trees, KernelFn.hasBody, body, Option.toList_some, Option.isSome_some, if_true,
    Node.idsAll_append, Node.idsAll_cons, Node.idsAll_nil, List.append_nil] at own
  refine own.sublist (List.Sublist.append_left ?_ b.ids)
  exact List.singleton_sublist.mpr k.fallOff.id_mem_ids

theorem mem_nodes_of_own (listed : k ∈ u.kernels) (body : k.body = some b) {x : Node}
    (own : x ∈ b.outermost ++ [k.fallOff]) : x ∈ u.nodes := by
  rcases List.mem_append.mp own with inside | last
  · exact mem_nodes_of_tree (tree_of_body listed body) (b.outermost_sublist.subset inside)
  · obtain rfl := List.mem_singleton.mp last
    refine mem_nodes_of_tree (t := k.fallOff) ?_ k.fallOff.self_mem_preorder
    exact List.mem_flatMap.mpr ⟨k, listed, by simp [KernelFn.hasBody, body]⟩

end SourceUnit

/-- Two kernels that are the same but for parentheses around expressions of their bodies, and for
the marks of nodes; `f` leads from the marks of the first to those of the second. -/
structure Reparenthesized (f : Mark → Mark) (u v : SourceUnit) (k l : KernelFn) (b c : Node) :
    Prop where
  numbered : u.Numbered
  numbered' : v.Numbered
  listed : k ∈ u.kernels
  listed' : l ∈ v.kernels
  body : k.body = some b
  body' : l.body = some c
  bodies : b.bare f = c.bare id
  fallOff : k.fallOff.bare f = l.fallOff.bare id
  scope : v.scope = u.scope
  panics : (v.named? "panic").isSome = (u.named? "panic").isSome
  params : l.params.map (·.name) = k.params.map (·.name)
  control : ∀ n ∈ b.outsideLiterals, KeepsControl f (u.named? "panic").isSome n
  control' : ∀ n ∈ c.outsideLiterals, KeepsControl id (v.named? "panic").isSome n

namespace Reparenthesized

variable {f : Mark → Mark} {u v : SourceUnit} {k l : KernelFn} {b c : Node}
  (same : Reparenthesized f u v k l b c)

include same

/-- Without parentheses, the nodes of the two kernels are the same. -/
theorem bares : (b.outermost ++ [k.fallOff]).map (Node.bare f)
    = (c.outermost ++ [l.fallOff]).map (Node.bare id) := by
  rw [List.map_append, List.map_append, ← Node.preorder_bare, ← Node.preorder_bare, same.bodies]
  exact congrArg (_ ++ [·]) same.fallOff

/-- A renaming that leads to the numbers of the second kernel. -/
theorem exists_renaming : ∃ ρ : NodeId → NodeId, Function.Injective ρ ∧
    ∀ x ∈ b.outermost ++ [k.fallOff], (f x.mark).id = ρ x.id := by
  have own := SourceUnit.own_nodup same.numbered same.listed same.body
  have own' := SourceUnit.own_nodup same.numbered' same.listed' same.body'
  refine Retarget.exists_renaming ?_ ?_
  · rw [List.map_append]
    exact own.sublist ((b.outermost_sublist.map Node.id).append_right _)
  · have numbers := congrArg (List.map Node.id) same.bares
    simp only [List.map_map, Function.comp_def, Node.id_bare] at numbers
    rw [numbers, List.map_append]
    exact own'.sublist ((c.outermost_sublist.map Node.id).append_right _)

theorem renumbers {ρ : NodeId → NodeId}
    (renames : ∀ x ∈ b.outermost ++ [k.fallOff], (f x.mark).id = ρ x.id) :
    Drafting.Renumbers f ρ (u.named? "panic").isSome b :=
  ⟨fun x below => renames x (List.mem_append_left _ below), same.control⟩

/-- The flow graph of the second kernel is that of the first by other numbers. -/
theorem flowGraph_eq {g h : FlowGraph} {ρ : NodeId → NodeId} (found : u.flowGraph? k = some g)
    (found' : v.flowGraph? l = some h)
    (renames : ∀ x ∈ b.outermost ++ [k.fallOff], (f x.mark).id = ρ x.id) : h = g.relabel ρ := by
  obtain rfl : flowGraphOf (u.named? "panic").isSome b k.fallOff.id = g := by
    simpa [SourceUnit.flowGraph?, same.body] using found
  obtain rfl : flowGraphOf (v.named? "panic").isSome c l.fallOff.id = h := by
    simpa [SourceUnit.flowGraph?, same.body'] using found'
  have last : l.fallOff.id = ρ k.fallOff.id := by
    have bare := congrArg Node.id same.fallOff
    rw [Node.id_bare, Node.id_bare] at bare
    exact bare.symm.trans (renames _ (by simp))
  have graph := flowGraphOf_bare (same.renumbers renames) last
  have graph' : flowGraphOf (v.named? "panic").isSome (c.bare id) l.fallOff.id
      = (flowGraphOf (v.named? "panic").isSome c l.fallOff.id).relabel id :=
    flowGraphOf_bare ⟨fun _ _ => rfl, same.control'⟩ rfl
  rw [← graph, same.bodies, ← same.panics, graph', FlowGraph.relabel_id]

/-- A node of the flow graph is by the other number a node that is the same without parentheses. -/
theorem node_eq {g : FlowGraph} {ρ : NodeId → NodeId} {s : NodeId} (found : u.flowGraph? k = some g)
    (renames : ∀ x ∈ b.outermost ++ [k.fallOff], (f x.mark).id = ρ x.id) (stands : s ∈ g.statements) :
    ∃ x y, u.node? s = some x ∧ v.node? (ρ s) = some y ∧ x.bare f = y.bare id := by
  obtain rfl : flowGraphOf (u.named? "panic").isSome b k.fallOff.id = g := by
    simpa [SourceUnit.flowGraph?, same.body] using found
  obtain ⟨x, own, rfl⟩ : ∃ x ∈ b.outermost ++ [k.fallOff], x.id = s := by
    rcases mem_outermost_of_statement (same.renumbers renames) stands with inside | rfl
    · obtain ⟨x, below, number⟩ := List.mem_map.mp inside
      exact ⟨x, List.mem_append_left _ below, number⟩
    · exact ⟨k.fallOff, by simp, rfl⟩
  obtain ⟨y, own', bare⟩ := List.mem_map.mp (same.bares ▸ List.mem_map_of_mem own)
  have number : y.id = ρ x.id := by
    have ids := congrArg Node.id bare
    rw [Node.id_bare, Node.id_bare] at ids
    exact ids.trans (renames x own)
  exact ⟨x, y, same.numbered.node?_of_mem (SourceUnit.mem_nodes_of_own same.listed same.body own),
    number ▸ same.numbered'.node?_of_mem (SourceUnit.mem_nodes_of_own same.listed' same.body' own'),
    bare.symm⟩

end Reparenthesized

/-- Whatever expressions of a node are put in parentheses or out of them, it writes the names that
are its bare targets, and reads the same as long as these are the same.  Two kernels that are the
same but for parentheses have the same flow graph by other numbers; and if nodes have the same bare
targets, they write and read the same, and the definitions that reach them and all dependences are
the same by the other numbers. -/
theorem parentheses_aside (scope : Kernel.Scope) (f : Mark → Mark) :
    (∀ n : Node, (scope.defUse n).defs = Text.addNew [] ((written n).filterMap id)) ∧
    (∀ n m : Node, n.bare f = m.bare id → written n = written m →
      scope.defUse n = scope.defUse m) ∧
    ∀ (u v : SourceUnit) (k l : KernelFn) (b c : Node),
      Reparenthesized f u v k l b c →
      ∀ g h, u.flowGraph? k = some g → v.flowGraph? l = some h →
        ∃ ρ : NodeId → NodeId, Function.Injective ρ ∧ h = g.relabel ρ ∧
          (∀ s ∈ g.statements,
            (v.node? (ρ s)).map (Node.bare id) = (u.node? s).map (Node.bare f)) ∧
          ((∀ s ∈ g.statements, (v.node? (ρ s)).map written = (u.node? s).map written) →
            (∀ s ∈ g.statements, v.defUseOf (ρ s) = u.defUseOf s) ∧
            ∀ cap, (u.factsOf k g cap).Renames ρ (v.factsOf l h cap)) := by
  refine ⟨fun n => by rw [scope.defUse_eq]; rfl, fun n m => scope.defUse_congr, ?_⟩
  intro u v k l b c same g h found found'
  obtain ⟨ρ, inj, renames⟩ := same.exists_renaming
  obtain rfl := same.flowGraph_eq found found' renames
  refine ⟨ρ, inj, rfl, fun s stands => ?_, fun targets => ?_⟩
  · obtain ⟨x, y, node, node', bare⟩ := same.node_eq found renames stands
    rw [node, node', Option.map_some, Option.map_some, bare]
  have accessed : ∀ s ∈ g.statements, v.defUseOf (ρ s) = u.defUseOf s := fun s stands => by
    obtain ⟨x, y, node, node', bare⟩ := same.node_eq found renames stands
    have written := targets s stands
    simp only [node, node', Option.map_some, Option.some.injEq] at written
    rw [SourceUnit.defUseOf, SourceUnit.defUseOf, node, node', same.scope]
    exact (u.scope.defUse_congr bare written.symm).symm
  refine ⟨accessed, fun cap => ?_⟩
  have renamed : Access.Renames ρ g.statements (u.accessTo g.statements)
      (v.accessTo (g.relabel ρ).statements) := by
    have listed {s : NodeId} (stands : s ∈ g.statements) : ρ s ∈ (g.relabel ρ).statements := by
      rw [FlowGraph.statements_relabel]
      exact List.mem_map_of_mem stands
    refine ⟨fun s stands => ?_, fun s stands => ?_⟩
    · rw [SourceUnit.defs_accessTo (listed stands), SourceUnit.defs_accessTo stands,
        accessed s stands]
    · rw [SourceUnit.uses_accessTo (listed stands), SourceUnit.uses_accessTo stands,
        accessed s stands]
  rw [SourceUnit.factsOf, SourceUnit.factsOf, same.params]
  exact analyzeFlow_relabel inj renamed _ cap

namespace Wrapped

/-- The body `x = v; if test { x++ }`. -/
def body (v test : Node) : Node :=
  .block ⟨0, 0, 0⟩ [
    .assign ⟨1, 0, 0⟩ .set [.name ⟨2, 0, 0⟩ "x"] [v],
    .ifStmt ⟨4, 0, 0⟩ none test
      (.block ⟨8, 0, 0⟩ [.step ⟨9, 0, 0⟩ true (.name ⟨10, 0, 0⟩ "x")]) none]

def kernel (v test : Node) : KernelFn :=
  { (default : KernelFn) with
    body := some (body v test)
    fallOff := .ret ⟨30, 0, 0⟩ [] }

def unit (v test : Node) : SourceUnit :=
  { file := "", lines := default, scope := {}, kernels := [kernel v test], numbered := rfl }

def one : Node := .literal ⟨3, 0, 0⟩ .int "1"

/-- The condition `x < 2`, its left side given. -/
def below (x : Node) : Node := .binary ⟨5, 0, 0⟩ .lt x (.literal ⟨7, 0, 0⟩ .int "2")

def x : Node := .name ⟨6, 0, 0⟩ "x"

/-- The marks of `1`, `x < 2` and its `x` become those of the parentheses around them. -/
def other (m : Mark) : Mark :=
  if m.id = 3 then ⟨20, 0, 0⟩ else if m.id = 5 then ⟨21, 0, 0⟩
  else if m.id = 6 then ⟨22, 0, 0⟩ else m

end Wrapped

open Wrapped in
/-- In `x = (1); if ((x) < 2) { x++ }` the condition goes by the number of its parentheses. -/
theorem parentheses_aside_condition :
    let wrapped := Node.paren ⟨21, 0, 0⟩ (below (.paren ⟨22, 0, 0⟩ x))
    let v := unit (.paren ⟨20, 0, 0⟩ one) wrapped
    let l := kernel (.paren ⟨20, 0, 0⟩ one) wrapped
    ∃ g ρ, (unit one (below x)).flowGraph? (kernel one (below x)) = some g ∧
      v.flowGraph? l = some (g.relabel ρ) ∧ g.statements = [1, 5, 9, 30] ∧
      g.statements.map ρ = [1, 21, 9, 30] ∧
      ∀ cap, ((unit one (below x)).factsOf (kernel one (below x)) g cap).Renames ρ
        (v.factsOf l (g.relabel ρ) cap) := by
  intro wrapped v l
  have same : Reparenthesized other (unit one (below x)) v (kernel one (below x)) l
      (body one (below x)) (body (.paren ⟨20, 0, 0⟩ one) wrapped) :=
    ⟨by decide, by decide, List.mem_singleton.mpr rfl, List.mem_singleton.mpr rfl, rfl, rfl, rfl,
      rfl, rfl, rfl, rfl, by decide, by decide⟩
  obtain ⟨g, h, found, found', stmts, stmts'⟩ : ∃ g h,
      (unit one (below x)).flowGraph? (kernel one (below x)) = some g ∧ v.flowGraph? l = some h ∧
      g.statements = [1, 5, 9, 30] ∧ h.statements = [1, 21, 9, 30] :=
    ⟨_, _, rfl, rfl, by decide, by decide⟩
  obtain ⟨ρ, -, rfl, -, analysed⟩ :=
    (parentheses_aside {} other).2.2 _ v _ l _ _ same g h found found'
  rw [FlowGraph.statements_relabel] at stmts'
  refine ⟨g, ρ, found, found', stmts, stmts', (analysed fun s stands => ?_).2⟩
  rw [stmts] at stands stmts'
  simp only [List.map_cons, List.map_nil, List.cons.injEq, and_true] at stmts'
  obtain ⟨first, second, third, last⟩ := stmts'
  simp only [List.mem_cons, List.not_mem_nil, or_false] at stands
  rcases stands with rfl | rfl | rfl | rfl
  · rw [first]; decide
  · rw [second]; decide
  · rw [third]; decide
  · rw [last]; decide

/-- The assignment `(x) = 1` reads `x`, where `x = 1` writes it. -/
theorem parentheses_aside_target :
    let plain := Node.assign ⟨1, 0, 0⟩ .set [.name ⟨2, 0, 0⟩ "x"] [Wrapped.one]
    let wrapped := Node.assign ⟨1, 0, 0⟩ .set [.paren ⟨2, 0, 0⟩ (.name ⟨4, 0, 0⟩ "x")] [Wrapped.one]
    plain.bare id = wrapped.bare id ∧ ({} : Kernel.Scope).defUse plain = ⟨["x"], []⟩ ∧
      ({} : Kernel.Scope).defUse wrapped = ⟨[], ["x"]⟩ :=
  ⟨rfl, by decide, by decide⟩

end Retarget
