/-
# Proofs.ExpressionShape -- where expressions stand
-/
import Retarget.Proofs.SyntaxNumbers

namespace Retarget

open Retarget.Source (Node NodeId Mark)

set_option autoImplicit false
set_option linter.dupNamespace false

namespace Source.Node

/-- The nodes below one where the grammar has expressions. -/
def expressions : Node → List Node
  | paren _ x | exprStmt _ x => [x]
  | call _ _ args _ => args
  | assign _ _ _ values => values
  | valueSpec _ _ _ _ values => values
  | ifStmt _ _ cond _ _ => [cond]
  | forStmt _ _ cond _ _ => cond.toList
  | rangeStmt _ _ _ x _ => [x]
  | switchStmt _ _ tag _ => tag.toList
  | caseClause _ values _ => values
  | ret _ results => results
  | _ => []

/-- Expressions stand where the grammar has them. -/
def Phrased (n : Node) : Prop := ∀ x ∈ n.expressions, x.isExpr = true

instance (n : Node) : Decidable n.Phrased := by unfold Phrased; infer_instance

theorem expressions_subset_children (n : Node) : n.expressions ⊆ n.children := by
  intro x member
  cases n <;> simp [expressions, children] at member ⊢ <;> grind

end Source.Node

namespace SourceUnit

/-- Expressions stand where the grammar has them, all over the unit. -/
def Phrased (u : SourceUnit) : Prop := ∀ n ∈ u.nodes, n.Phrased

instance (u : SourceUnit) : Decidable u.Phrased := by unfold Phrased; infer_instance

end SourceUnit

namespace Kernel.Scope

variable (scope : Scope)

theorem strip_subset_preorder (n : Node) : (scope.strip n).preorder ⊆ n.preorder := by
  fun_induction strip scope n with
  | case1 m x ih => exact fun a inner => Node.child_preorder (by simp [Node.children]) (ih inner)
  | case2 m callee x spread converts ih =>
      exact fun a inner => Node.child_preorder (by simp [Node.children]) (ih inner)
  | case3 => exact List.Subset.refl _
  | case4 => exact List.Subset.refl _

theorem strip_mem_preorder {n root : Node} (below : n ∈ root.preorder) :
    scope.strip n ∈ root.preorder :=
  Node.preorder_trans (scope.strip_subset_preorder n (Node.self_mem_preorder _)) below

@[simp] theorem strip_strip (n : Node) : scope.strip (scope.strip n) = scope.strip n := by
  fun_induction strip scope n with
  | case1 m x ih => exact ih
  | case2 m callee x spread converts ih => exact ih
  | case3 m callee x spread plain => rw [strip, if_neg plain]
  | case4 n noParen noCall =>
      unfold strip
      split
      · exact absurd rfl (noParen _ _)
      · exact absurd rfl (noCall _ _ _ _)
      · rfl

theorem strip_isExpr {n : Node} (isExpr : n.isExpr = true)
    (phrased : ∀ m ∈ n.preorder, m.Phrased) : (scope.strip n).isExpr = true := by
  fun_induction strip scope n with
  | case1 m x ih =>
      have below : x ∈ (Node.paren m x).children := by simp [Node.children]
      refine ih (phrased _ (Node.self_mem_preorder _) x (by simp [Node.expressions])) ?_
      exact fun a inner => phrased a (Node.child_preorder below inner)
  | case2 m callee x spread converts ih =>
      have below : x ∈ (Node.call m callee [x] spread).children := by simp [Node.children]
      refine ih (phrased _ (Node.self_mem_preorder _) x (by simp [Node.expressions])) ?_
      exact fun a inner => phrased a (Node.child_preorder below inner)
  | case3 => rfl
  | case4 => exact isExpr

end Kernel.Scope

end Retarget
