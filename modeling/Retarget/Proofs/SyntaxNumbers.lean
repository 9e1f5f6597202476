/-
# Proofs.SyntaxNumbers -- nodes are known by their numbers

The walk over a whole tree meets a node and then walks over its children in order
(`preorder_eq`), so the numbers of a tree are its own followed by those of its children
(`ids_eq`).  A unit is `Numbered` if no number occurs twice in its trees; then a number leads
to the one node that bears it (`node?_of_mem`).
-/
import Retarget.Kernel.Unit
import Mathlib.Data.List.Nodup
import Mathlib.Data.List.Pairwise

namespace Retarget

namespace Source.Node

set_option autoImplicit false
set_option linter.dupNamespace false

/-! ## Children -/

/-- The nodes right below a node, in the order of its slots. -/
def children : Node → List Node
  | name _ _ | literal _ _ _ | empty _ => []
  | paren _ x | unary _ _ x | deref _ x | chanType _ _ x | structType _ x | interfaceType _ x
  | step _ _ x | exprStmt _ x | declStmt _ x => [x]
  | binary _ _ x y | index _ x y | select _ x y | keyValue _ x y | funcLit _ x y
  | mapType _ x y | labeled _ x y => [x, y]
  | call _ x ys _ | instantiate _ x ys => x :: ys
  | slice _ x low high max => x :: (low.toList ++ (high.toList ++ max.toList))
  | typeAssert _ x t => x :: t.toList
  | composite _ t xs => t.toList ++ xs
  | arrayType _ t x => t.toList ++ [x]
  | funcType _ t x r => t.toList ++ x :: r.toList
  | variadic _ x | branch _ _ x => x.toList
  | fieldList _ xs | block _ xs | ret _ xs | decl _ _ xs => xs
  | field _ names t tag => names ++ t :: tag.toList
  | assign _ _ xs ys | caseClause _ xs ys => xs ++ ys
  | ifStmt _ init cond body orElse => init.toList ++ cond :: body :: orElse.toList
  | forStmt _ init cond post body => init.toList ++ (cond.toList ++ (post.toList ++ [body]))
  | rangeStmt _ key value x body => key.toList ++ (value.toList ++ [x, body])
  | switchStmt _ init tag body => init.toList ++ (tag.toList ++ [body])
  | valueSpec _ _ names t values => names ++ (t.toList ++ values)
  | typeSpec _ x params t => x :: (params.toList ++ [t])

/-- What stands in each slot of a node. -/
def slots : Node → List (List Node)
  | name _ _ | literal _ _ _ | empty _ => []
  | paren _ x | unary _ _ x | deref _ x | chanType _ _ x | structType _ x | interfaceType _ x
  | step _ _ x | exprStmt _ x | declStmt _ x => [[x]]
  | binary _ _ x y | index _ x y | select _ x y | keyValue _ x y | funcLit _ x y
  | mapType _ x y | labeled _ x y => [[x], [y]]
  | call _ x ys _ | instantiate _ x ys => [[x], ys]
  | slice _ x low high max => [[x], low.toList, high.toList, max.toList]
  | typeAssert _ x t => [[x], t.toList]
  | composite _ t xs => [t.toList, xs]
  | arrayType _ t x => [t.toList, [x]]
  | funcType _ t x r => [t.toList, [x], r.toList]
  | variadic _ x | branch _ _ x => [x.toList]
  | fieldList _ xs | block _ xs | ret _ xs | decl _ _ xs => [xs]
  | field _ names t tag => [names, [t], tag.toList]
  | assign _ _ xs ys | caseClause _ xs ys => [xs, ys]
  | ifStmt _ init cond body orElse => [init.toList, [cond], [body], orElse.toList]
  | forStmt _ init cond post body => [init.toList, cond.toList, post.toList, [body]]
  | rangeStmt _ key value x body => [key.toList, value.toList, [x], [body]]
  | switchStmt _ init tag body => [init.toList, tag.toList, [body]]
  | valueSpec _ _ names t values => [names, t.toList, values]
  | typeSpec _ x params t => [[x], params.toList, [t]]

theorem flatten_slots (n : Node) : n.slots.flatten = n.children := by
  cases n <;> dsimp only [slots, children] <;>
    simp only [List.flatten_cons, List.flatten_nil, List.append_nil, List.cons_append,
      List.nil_append]

theorem intoAll_eq (enter : Node → Nat → Bool) (yes : Bool) (ns : List Node) :
    intoAll enter yes ns = if yes then ns.flatMap (visit enter) else [] := by
  induction ns with
  | nil => cases yes <;> rfl
  | cons n ns ih =>
      change (if yes then n.visit enter else []) ++ intoAll enter yes ns = _
      rw [ih]
      cases yes <;> rfl

theorem intoOpt_eq (enter : Node → Nat → Bool) (yes : Bool) (n : Option Node) :
    intoOpt enter yes n = if yes then n.toList.flatMap (visit enter) else [] := by
  cases n with
  | none => cases yes <;> rfl
  | some n => exact congrArg (if yes then · else []) (List.append_nil _).symm

/-- A walk meets the node and walks over the slots that it enters. -/
theorem visit_slots (enter : Node → Nat → Bool) (n : Node) :
    n.visit enter = n :: n.slots.zipIdx.flatMap fun slot =>
      if enter n slot.2 then slot.1.flatMap (visit enter) else [] := by
  cases n <;> dsimp only [visit, slots] <;>
    simp only [intoAll_eq, intoOpt_eq, List.zipIdx_cons, List.zipIdx_nil, List.flatMap_cons,
      List.flatMap_nil, List.append_nil, List.append_assoc]

theorem slots_flatMap {α : Type} (f : Node → List α) (n : Node) :
    n.slots.zipIdx.flatMap (fun slot => slot.1.flatMap f) = n.children.flatMap f := by
  rw [← List.flatMap_map, List.zipIdx_map_fst, ← flatten_slots, ← List.flatMap_id,
    List.flatMap_assoc]
  rfl

/-- A walk that enters every slot of a node meets the node and walks over its children. -/
theorem visit_of_open {enter : Node → Nat → Bool} {n : Node}
    (opened : ∀ slot, enter n slot = true) :
    n.visit enter = n :: n.children.flatMap (visit enter) := by
  rw [← slots_flatMap, visit_slots enter n]
  simp only [opened, if_true]

/-- A walk that enters no slot of a node meets only the node. -/
theorem visit_of_closed {enter : Node → Nat → Bool} {n : Node}
    (closed : ∀ slot, enter n slot = false) : n.visit enter = [n] := by
  simp [visit_slots enter n, closed]

/-- A whole tree is walked node first, then child by child. -/
theorem preorder_eq (n : Node) : n.preorder = n :: n.children.flatMap preorder :=
  visit_of_open fun _ => rfl

theorem self_mem_preorder (n : Node) : n ∈ n.preorder := by
  rw [preorder_eq]
  exact List.mem_cons_self

theorem child_preorder {c n a : Node} (child : c ∈ n.children) (below : a ∈ c.preorder) :
    a ∈ n.preorder := by
  rw [preorder_eq]
  exact List.mem_cons_of_mem _ (List.mem_flatMap.mpr ⟨c, child, below⟩)

theorem sizeOf_child {c n : Node} (child : c ∈ n.children) : sizeOf c < sizeOf n := by
  have listed : ∀ l : List Node, c ∈ l → sizeOf c < sizeOf l := fun _ => List.sizeOf_lt_of_mem
  cases n <;> simp [children] at child ⊢ <;> grind

theorem preorder_cases {a n : Node} (below : a ∈ n.preorder) :
    a = n ∨ ∃ c ∈ n.children, a ∈ c.preorder := by
  rw [preorder_eq, List.mem_cons, List.mem_flatMap] at below
  exact below

theorem preorder_trans {a b n : Node} (inner : a ∈ b.preorder) (outer : b ∈ n.preorder) :
    a ∈ n.preorder := by
  rcases preorder_cases outer with rfl | ⟨c, child, below⟩
  · exact inner
  · exact child_preorder child (preorder_trans inner below)
termination_by sizeOf n
decreasing_by exact sizeOf_child child

/-! ## Walks that leave something out -/

/-- A walk that enters only some slots meets the node and what walks over its children meet. -/
theorem mem_visit {enter : Node → Nat → Bool} {a n : Node} (met : a ∈ n.visit enter) :
    a = n ∨ ∃ c ∈ n.children, a ∈ c.visit enter := by
  rw [visit_slots, List.mem_cons, List.mem_flatMap] at met
  refine met.imp_right fun ⟨slot, among, below⟩ => ?_
  split at below
  · obtain ⟨c, within, inner⟩ := List.mem_flatMap.mp below
    rw [← flatten_slots]
    exact ⟨c, List.mem_flatten.mpr ⟨slot.1, List.fst_mem_of_mem_zipIdx among, within⟩, inner⟩
  · cases below

theorem visit_subset_preorder (enter : Node → Nat → Bool) (n : Node) :
    n.visit enter ⊆ n.preorder := by
  intro a met
  rcases mem_visit met with rfl | ⟨c, child, below⟩
  · exact self_mem_preorder a
  · exact child_preorder child (visit_subset_preorder enter c below)
termination_by sizeOf n
decreasing_by exact sizeOf_child child

/-! ## Outside function literals -/

theorem outsideLiterals_eq {n : Node} (opened : n.isFuncLit = false) :
    n.outsideLiterals = n :: n.children.flatMap outsideLiterals :=
  visit_of_open fun _ => by rw [opened, Bool.not_false]

theorem self_mem_outsideLiterals (n : Node) : n ∈ n.outsideLiterals := by
  cases literal : n.isFuncLit with
  | true =>
      rw [outsideLiterals, visit_of_closed fun _ => by rw [literal, Bool.not_true]]
      exact List.mem_cons_self
  | false =>
      rw [outsideLiterals_eq literal]
      exact List.mem_cons_self

theorem outsideLiterals_cases {a n : Node} (met : a ∈ n.outsideLiterals) :
    a = n ∨ n.isFuncLit = false ∧ ∃ c ∈ n.children, a ∈ c.outsideLiterals := by
  cases literal : n.isFuncLit with
  | true =>
      rw [outsideLiterals, visit_of_closed fun _ => by rw [literal, Bool.not_true]] at met
      exact .inl (List.mem_singleton.mp met)
  | false =>
      rw [outsideLiterals_eq literal, List.mem_cons, List.mem_flatMap] at met
      exact met.imp_right fun below => ⟨rfl, below⟩

theorem child_outsideLiterals {a c n : Node} (opened : n.isFuncLit = false)
    (child : c ∈ n.children) (met : a ∈ c.outsideLiterals) : a ∈ n.outsideLiterals := by
  rw [outsideLiterals_eq opened]
  exact List.mem_cons_of_mem _ (List.mem_flatMap.mpr ⟨c, child, met⟩)

theorem outsideLiterals_subset (n : Node) : n.outsideLiterals ⊆ n.preorder :=
  visit_subset_preorder _ n

/-! ## Numbers of a tree -/

/-- The numbers of a tree, in pre-order. -/
def ids (n : Node) : List NodeId := n.preorder.map id

/-- The numbers of several trees. -/
def idsAll (ns : List Node) : List NodeId := ns.flatMap ids

theorem ids_eq (n : Node) : n.ids = n.id :: idsAll n.children := by
  rw [ids, preorder_eq, List.map_cons, List.map_flatMap]
  rfl

@[simp] theorem idsAll_nil : idsAll [] = [] := rfl

@[simp] theorem idsAll_cons (n : Node) (ns : List Node) : idsAll (n :: ns) = n.ids ++ idsAll ns :=
  rfl

@[simp] theorem idsAll_append (ns ms : List Node) : idsAll (ns ++ ms) = idsAll ns ++ idsAll ms :=
  List.flatMap_append

theorem id_mem_ids (n : Node) : n.id ∈ n.ids := by
  rw [ids_eq]
  exact List.mem_cons_self

theorem nodup_of_child {c n : Node} (distinct : n.ids.Nodup) (child : c ∈ n.children) :
    c.ids.Nodup := by
  rw [ids_eq] at distinct
  exact (List.nodup_flatMap.mp (List.nodup_cons.mp distinct).2).1 c child

/-- Two children have no number in common. -/
theorem children_apart {n : Node} (distinct : n.ids.Nodup) :
    n.children.Pairwise fun c d => List.Disjoint c.ids d.ids := by
  rw [ids_eq] at distinct
  exact (List.nodup_flatMap.mp (List.nodup_cons.mp distinct).2).2

/-- A number stands below one child at most. -/
theorem child_unique {c d n : Node} {id : NodeId} (distinct : n.ids.Nodup) (child : c ∈ n.children)
    (child' : d ∈ n.children) (below : id ∈ c.ids) (below' : id ∈ d.ids) : c = d := by
  by_contra different
  have symm : Std.Symm fun c d : Node => List.Disjoint c.ids d.ids :=
    ⟨fun _ _ apart _ here there => apart there here⟩
  exact (children_apart distinct).forall child child' different below below'

theorem ids_subset_idsAll {n : Node} {ns : List Node} (member : n ∈ ns) : n.ids ⊆ idsAll ns :=
  fun _ inner => List.mem_flatMap.mpr ⟨n, member, inner⟩

theorem ids_subset_of_child {c n : Node} (child : c ∈ n.children) : c.ids ⊆ n.ids := by
  rw [ids_eq n]
  exact List.subset_cons_of_subset _ (ids_subset_idsAll child)

theorem id_not_mem_child {c n : Node} (distinct : n.ids.Nodup) (child : c ∈ n.children) :
    n.id ∉ c.ids := by
  rw [ids_eq] at distinct
  exact fun inner => (List.nodup_cons.mp distinct).1 (ids_subset_idsAll child inner)

end Source.Node

open Source (Node NodeId)

set_option autoImplicit false
set_option linter.dupNamespace false

namespace SourceUnit

/-! ## Numbers of a unit -/

/-- Every node of the trees of the unit. -/
def nodes (u : SourceUnit) : List Node := u.trees.flatMap Node.preorder

/-- No number occurs twice in the trees of the unit. -/
def Numbered (u : SourceUnit) : Prop := (u.nodes.map Node.id).Nodup

instance (u : SourceUnit) : Decidable u.Numbered := inferInstanceAs (Decidable (List.Nodup _))

variable {u : SourceUnit}

theorem mem_nodes_of_tree {t n : Node} (tree : t ∈ u.trees) (below : n ∈ t.preorder) : n ∈ u.nodes :=
  List.mem_flatMap.mpr ⟨t, tree, below⟩

theorem tree_of_body {k : KernelFn} {root : Node} (listed : k ∈ u.kernels) (body : k.body = some root) :
    root ∈ u.trees :=
  List.mem_flatMap.mpr ⟨k, listed, by simp [body]⟩

theorem node?_eq_find? (s : NodeId) : u.node? s = u.nodes.find? (·.id == s) := by
  rw [node?, nodes, List.find?_flatMap]
  refine congrArg (List.findSome? · u.trees) (funext fun t => ?_)
  rw [Node.preorder_eq, List.find?_cons]
  by_cases here : t.id == s <;> simp [here]

theorem mem_of_node? {s : NodeId} {n : Node} (found : u.node? s = some n) :
    n ∈ u.nodes ∧ n.id = s := by
  rw [node?_eq_find?] at found
  exact ⟨List.mem_of_find?_eq_some found, by simpa using List.find?_some found⟩

namespace Numbered

variable (numbered : u.Numbered)

include numbered

theorem inj {a b : Node} (left : a ∈ u.nodes) (right : b ∈ u.nodes) (same : a.id = b.id) : a = b :=
  List.inj_on_of_nodup_map numbered left right same

/-- A number leads to the node that bears it. -/
theorem node?_of_mem {n : Node} (member : n ∈ u.nodes) : u.node? n.id = some n := by
  cases found : u.node? n.id with
  | none =>
      rw [node?_eq_find?] at found
      simpa using List.find?_eq_none.mp found n member
  | some m =>
      obtain ⟨below, same⟩ := mem_of_node? found
      rw [numbered.inj below member same]

theorem tree {t : Node} (tree : t ∈ u.trees) : t.ids.Nodup := by
  refine List.Nodup.sublist ?_ numbered
  rw [nodes, List.map_flatMap]
  exact List.sublist_flatten_of_mem (List.mem_map_of_mem tree)

end Numbered

end SourceUnit

end Retarget
