/-
# Proofs.Parentheses -- what parentheses leave alone

A tree without the parentheses around its expressions, whatever its marks (`Node.bare`), mentions
the same variables in the same order (`mentions_bareAs`).  What a node writes are the names that
stand as its targets without parentheses (`written`), and what it reads depends on these and on the
tree without parentheses (`defUse_eq`, `read_bareAs`).  So trees that differ in parentheses only
write and read the same if they have the same bare targets (`defUse_congr`).

A place in the tree without parentheses goes by the number of the parentheses around it: the nodes
that number it are those without parentheses right around them (`outermost`, `ids_bare`).
-/
import Retarget.Proofs.SyntaxNumbers
import Retarget.Proofs.WordList

namespace Retarget

open Retarget.Source (Node NodeId Mark)
open Retarget.Text (addNew)

set_option autoImplicit false
set_option linter.dupNamespace false

namespace Source.Node

/-! ## Trees without parentheses -/

mutual

/-- The tree without the parentheses around its expressions, its root with the mark `r` and every
other node with another mark.  In the place of an expression in parentheses stands the expression
with the mark of its parentheses. -/
def bareAs (f : Mark → Mark) (r : Mark) : Node → Node
  | name _ text => name r text
  | literal _ kind text => literal r kind text
  | paren _ x => if x.isExpr then bareAs f r x else paren r (bareAs f (f x.mark) x)
  | unary _ op x => unary r op (bareAs f (f x.mark) x)
  | deref _ x => deref r (bareAs f (f x.mark) x)
  | binary _ op x y => binary r op (bareAs f (f x.mark) x) (bareAs f (f y.mark) y)
  | call _ callee args spread => call r (bareAs f (f callee.mark) callee) (bareAll f args) spread
  | index _ x i => index r (bareAs f (f x.mark) x) (bareAs f (f i.mark) i)
  | instantiate _ x args => instantiate r (bareAs f (f x.mark) x) (bareAll f args)
  | slice _ x low high max =>
    slice r (bareAs f (f x.mark) x) (bareOpt f low) (bareOpt f high) (bareOpt f max)
  | select _ x sel => select r (bareAs f (f x.mark) x) (bareAs f (f sel.mark) sel)
  | typeAssert _ x t => typeAssert r (bareAs f (f x.mark) x) (bareOpt f t)
  | keyValue _ k v => keyValue r (bareAs f (f k.mark) k) (bareAs f (f v.mark) v)
  | composite _ t elems => composite r (bareOpt f t) (bareAll f elems)
  | funcLit _ t body => funcLit r (bareAs f (f t.mark) t) (bareAs f (f body.mark) body)
  | arrayType _ length elem => arrayType r (bareOpt f length) (bareAs f (f elem.mark) elem)
  | mapType _ k v => mapType r (bareAs f (f k.mark) k) (bareAs f (f v.mark) v)
  | chanType _ d elem => chanType r d (bareAs f (f elem.mark) elem)
  | funcType _ tparams params results =>
    funcType r (bareOpt f tparams) (bareAs f (f params.mark) params) (bareOpt f results)
  | structType _ fields => structType r (bareAs f (f fields.mark) fields)
  | interfaceType _ methods => interfaceType r (bareAs f (f methods.mark) methods)
  | variadic _ elem => variadic r (bareOpt f elem)
  | fieldList _ fields => fieldList r (bareAll f fields)
  | field _ names t tag => field r (bareAll f names) (bareAs f (f t.mark) t) (bareOpt f tag)
  | block _ stmts => block r (bareAll f stmts)
  | assign _ op targets values => assign r op (bareAll f targets) (bareAll f values)
  | step _ up x => step r up (bareAs f (f x.mark) x)
  | exprStmt _ x => exprStmt r (bareAs f (f x.mark) x)
  | ret _ results => ret r (bareAll f results)
  | branch _ kind label => branch r kind (bareOpt f label)
  | labeled _ label stmt =>
    labeled r (bareAs f (f label.mark) label) (bareAs f (f stmt.mark) stmt)
  | ifStmt _ init cond body orElse =>
    ifStmt r (bareOpt f init) (bareAs f (f cond.mark) cond) (bareAs f (f body.mark) body)
      (bareOpt f orElse)
  | forStmt _ init cond post body =>
    forStmt r (bareOpt f init) (bareOpt f cond) (bareOpt f post) (bareAs f (f body.mark) body)
  | rangeStmt _ key value x body =>
    rangeStmt r (bareOpt f key) (bareOpt f value) (bareAs f (f x.mark) x)
      (bareAs f (f body.mark) body)
  | switchStmt _ init tag body =>
    switchStmt r (bareOpt f init) (bareOpt f tag) (bareAs f (f body.mark) body)
  | caseClause _ values body => caseClause r (bareAll f values) (bareAll f body)
  | declStmt _ d => declStmt r (bareAs f (f d.mark) d)
  | empty _ => empty r
  | decl _ kind specs => decl r kind (bareAll f specs)
  | valueSpec _ isConst names t values =>
    valueSpec r isConst (bareAll f names) (bareOpt f t) (bareAll f values)
  | typeSpec _ x tparams t =>
    typeSpec r (bareAs f (f x.mark) x) (bareOpt f tparams) (bareAs f (f t.mark) t)

def bareOpt (f : Mark → Mark) : Option Node → Option Node
  | none => none
  | some n => some (bareAs f (f n.mark) n)

def bareAll (f : Mark → Mark) : List Node → List Node
  | [] => []
  | n :: ns => bareAs f (f n.mark) n :: bareAll f ns

end

/-- The tree without the parentheses around its expressions, with other marks. -/
def bare (f : Mark → Mark) (n : Node) : Node := bareAs f (f n.mark) n

/-- The expression in all parentheses around it. -/
def core : Node → Node
  | paren m x => if x.isExpr then core x else paren m x
  | n => n

/-- The node is a pair of parentheses around an expression. -/
def isWrap : Node → Bool
  | paren _ x => x.isExpr
  | _ => false

variable {f : Mark → Mark} {r : Mark}

theorem toList_bareOpt (n : Option Node) : (bareOpt f n).toList = n.toList.map (bare f) := by
  cases n <;> rfl

theorem bareAll_eq (ns : List Node) : bareAll f ns = ns.map (bare f) := by
  induction ns with
  | nil => rfl
  | cons n ns ih => exact congrArg (bare f n :: ·) ih

theorem core_of_not_isWrap {n : Node} (other : n.isWrap = false) : n.core = n := by
  cases n with
  | paren m x =>
      have expression : x.isExpr = false := other
      exact if_neg (by simp [expression])
  | _ => rfl

theorem isWrap_core (n : Node) : n.core.isWrap = false := by
  cases n with
  | paren m x =>
      dsimp only [core]
      split
      · exact isWrap_core x
      · simpa [isWrap] using ‹¬x.isExpr = true›
  | _ => rfl

theorem bareAs_paren {m : Mark} {x : Node} (expression : x.isExpr = true) :
    bareAs f r (paren m x) = bareAs f r x := if_pos expression

theorem bareAs_other {m : Mark} {x : Node} (other : x.isExpr = false) :
    bareAs f r (paren m x) = paren r (x.bare f) := if_neg (by simp [other])

theorem bareAs_core (n : Node) : bareAs f r n.core = bareAs f r n := by
  cases n with
  | paren m x =>
      cases expression : x.isExpr with
      | true =>
          dsimp only [core]
          rw [if_pos expression, bareAs_core x, bareAs_paren expression]
      | false => rw [core_of_not_isWrap (n := paren m x) expression]
  | _ => rfl

/-- A statement about all nodes holds if it holds of those that are no parentheses around an
expression, and of these if it holds of the expression. -/
theorem core_induction {motive : Node → Prop}
    (other : ∀ n, n.isWrap = false → motive n)
    (wrap : ∀ m x, x.isExpr = true → motive x → motive (paren m x)) (n : Node) : motive n := by
  cases n with
  | paren m x =>
      cases expression : x.isExpr with
      | true => exact wrap m x expression (core_induction other wrap x)
      | false => exact other _ expression
  | _ => exact other _ rfl
termination_by sizeOf n
decreasing_by exact sizeOf_child List.mem_cons_self

/-- What stands below a node has its parentheses removed. -/
theorem children_bareAs (n : Node) : (bareAs f r n).children = n.core.children.map (bare f) := by
  induction n using core_induction with
  | wrap m x expression ih => rw [bareAs_paren expression, ih, core, if_pos expression]
  | other n apart =>
      rw [core_of_not_isWrap apart]
      cases n with
      | paren m x =>
          rw [bareAs_other apart]
          rfl
      | _ =>
          dsimp only [bareAs, children]
          simp only [List.map_cons, List.map_nil, List.map_append, toList_bareOpt, bareAll_eq, bare]

@[simp] theorem mark_bareAs (n : Node) : (bareAs f r n).mark = r := by
  induction n using core_induction with
  | wrap m x expression ih => rw [bareAs_paren expression, ih]
  | other n apart =>
      cases n with
      | paren m x =>
          rw [bareAs_other apart]
          rfl
      | _ => rfl

theorem id_bare (n : Node) : (n.bare f).id = (f n.mark).id := congrArg Mark.id (mark_bareAs n)

@[simp] theorem isExpr_bareAs (n : Node) : (bareAs f r n).isExpr = n.isExpr := by
  induction n using core_induction with
  | wrap m x expression ih => rw [bareAs_paren expression, ih, expression]; rfl
  | other n apart =>
      cases n with
      | paren m x =>
          rw [bareAs_other apart]
          rfl
      | _ => rfl

theorem sizeOf_core_le (n : Node) : sizeOf n.core ≤ sizeOf n := by
  induction n using core_induction with
  | wrap m x expression ih =>
      rw [core, if_pos expression]
      exact Nat.le_trans ih (Nat.le_of_lt (sizeOf_child (List.mem_singleton.mpr rfl)))
  | other n apart => exact Nat.le_of_eq (congrArg sizeOf (core_of_not_isWrap apart))

theorem sizeOf_core_child {c n : Node} (child : c ∈ n.core.children) : sizeOf c < sizeOf n :=
  Nat.lt_of_lt_of_le (sizeOf_child child) n.sizeOf_core_le

/-- The nodes without parentheses right around them, from the root down. -/
def outermost (n : Node) : List Node :=
  n :: n.core.children.attach.flatMap fun ⟨c, _⟩ => outermost c
termination_by sizeOf n
decreasing_by exact sizeOf_core_child ‹_›

theorem outermost_eq (n : Node) : n.outermost = n :: n.core.children.flatMap outermost := by
  rw [outermost]
  simp

/-- They are what is left without parentheses. -/
theorem preorder_bare (n : Node) : (n.bare f).preorder = n.outermost.map (bare f) := by
  rw [preorder_eq, bare, children_bareAs, outermost_eq, List.map_cons, List.map_flatMap,
    List.flatMap_map]
  refine congrArg (_ :: List.flatten ·) (List.map_congr_left fun c child => ?_)
  have smaller := sizeOf_core_child child
  exact preorder_bare c
termination_by sizeOf n
decreasing_by exact smaller

theorem ids_bare (n : Node) : (n.bare f).ids = n.outermost.map fun x => (f x.mark).id := by
  rw [ids, preorder_bare, List.map_map]
  exact List.map_congr_left fun x _ => x.id_bare

theorem outermost_sublist (n : Node) : n.outermost.Sublist n.preorder := by
  cases wrap : n.isWrap with
  | false =>
      have inner (ns : List Node) (each : ∀ c ∈ ns, c.outermost.Sublist c.preorder) :
          (ns.flatMap outermost).Sublist (ns.flatMap preorder) := by
        induction ns with
        | nil => exact List.Sublist.refl _
        | cons c ns ih =>
            obtain ⟨first, others⟩ := List.forall_mem_cons.mp each
            exact first.append (ih others)
      rw [outermost_eq, preorder_eq, core_of_not_isWrap wrap]
      refine (inner _ fun c child => ?_).cons_cons n
      have smaller := sizeOf_child child
      exact outermost_sublist c
  | true =>
      cases n with
      | paren m x =>
          have inner : x.outermost.Sublist x.preorder := outermost_sublist x
          have expression : x.isExpr = true := wrap
          have below : (x.core.children.flatMap outermost).Sublist x.preorder := by
            rw [outermost_eq] at inner
            exact (List.sublist_cons_self x _).trans inner
          have all : (paren m x).children.flatMap preorder = x.preorder := List.append_nil _
          rw [outermost_eq, preorder_eq, all]
          dsimp only [core]
          rw [if_pos expression]
          exact below.cons_cons _
      | _ => cases wrap
termination_by sizeOf n
decreasing_by
  · exact smaller
  · exact sizeOf_child List.mem_cons_self

theorem child_outermost {c n a : Node} (other : n.isWrap = false) (child : c ∈ n.children)
    (below : a ∈ c.outermost) : a ∈ n.outermost := by
  rw [outermost_eq, core_of_not_isWrap other]
  exact List.mem_cons_of_mem n (List.mem_flatMap.mpr ⟨c, child, below⟩)

theorem self_mem_outermost (n : Node) : n ∈ n.outermost := by
  rw [outermost_eq]
  exact List.mem_cons_self

theorem name?_bareAs {n : Node} (other : n.isWrap = false) : (bareAs f r n).name? = n.name? := by
  cases n with
  | paren m x =>
      rw [bareAs_other other]
      rfl
  | _ => rfl

theorem name?_unparen_bareAs {r : Mark} (n : Node) : (bareAs f r n).unparen.name? = n.unparen.name? := by
  cases n with
  | paren m x =>
      cases expression : x.isExpr with
      | true =>
          rw [bareAs_paren expression]
          exact name?_unparen_bareAs x
      | false =>
          rw [bareAs_other expression]
          exact name?_unparen_bareAs x
  | _ => rfl
termination_by sizeOf n
decreasing_by all_goals exact sizeOf_child List.mem_cons_self

end Source.Node

namespace Kernel.Scope

variable (scope : Scope)

open Source.Node (bareAs bare bareAll bareAs_paren bareAs_other children_bareAs)

variable {f : Mark → Mark} {r : Mark}

/-! ## Mentions -/

theorem isTypeExpr_bareAs {r : Mark} (n : Node) : scope.isTypeExpr (bareAs f r n) = scope.isTypeExpr n := by
  cases n with
  | paren m x =>
      cases expression : x.isExpr with
      | true =>
          rw [bareAs_paren expression]
          exact isTypeExpr_bareAs x
      | false =>
          rw [bareAs_other expression]
          exact isTypeExpr_bareAs x
  | deref m x => exact isTypeExpr_bareAs x
  | _ => rfl
termination_by sizeOf n
decreasing_by all_goals exact Node.sizeOf_child List.mem_cons_self

theorem converts_bareAs (callee : Node) (args : List Node) :
    scope.converts (bareAs f r callee) (args.map (bare f)) = scope.converts callee args := by
  rw [converts, converts, isTypeExpr_bareAs, List.length_map]

/-- The nodes right below one in which variables can be mentioned. -/
def mentioning : Node → List Node
  | .funcLit .. => []
  | .call _ callee args _ =>
    if scope.converts callee args || callee.unparen.name?.isSome then args else callee :: args
  | .select _ x _ => [x]
  | .composite _ _ elems => elems
  | .keyValue _ _ value => [value]
  | n => n.children

theorem mentioning_subset (n : Node) : scope.mentioning n ⊆ n.children := by
  cases n with
  | funcLit => exact List.nil_subset _
  | call m callee args spread =>
      dsimp only [mentioning, Node.children]
      split
      · exact List.subset_cons_self _ _
      · exact List.Subset.refl _
  | select m x field => exact List.cons_subset_cons x (List.nil_subset _)
  | keyValue m key value => exact List.subset_cons_self _ _
  | composite m t elems => exact List.subset_append_right _ _
  | _ => exact List.Subset.refl _

theorem mentioning_bareAs {n : Node} (other : n.isWrap = false) :
    scope.mentioning (bareAs f r n) = (scope.mentioning n).map (bare f) := by
  have plain : (bareAs f r n).children = n.children.map (bare f) := by
    rw [children_bareAs, Node.core_of_not_isWrap other]
  cases n with
  | paren m x =>
      rw [bareAs_other other]
      rfl
  | call m callee args spread =>
      change scope.mentioning (.call r (callee.bare f) (bareAll f args) spread) = _
      simp only [Node.bareAll_eq, mentioning, bare, converts_bareAs, Node.name?_unparen_bareAs]
      split <;> rfl
  | composite m t elems => exact Node.bareAll_eq elems
  | select | keyValue => rfl
  | funcLit => rfl
  | _ => exact plain

/-- The names mentioned as variables might be, in order. -/
def mentions (n : Node) : List String := (n.visit scope.refersThrough).filterMap Node.name?

theorem visit_refersThrough (n : Node) : n.visit scope.refersThrough =
    n :: (scope.mentioning n).flatMap (Node.visit scope.refersThrough) := by
  cases n with
  | funcLit => exact Node.visit_of_closed fun _ => rfl
  | call m callee args spread =>
      rw [Node.visit_slots]
      refine congrArg (_ :: ·) ?_
      show (if (!scope.converts callee args && callee.unparen.name?.isNone) = true then
          [callee].flatMap _ else []) ++ (args.flatMap _ ++ []) = List.flatMap _
        (if (scope.converts callee args || callee.unparen.name?.isSome) = true then args
          else callee :: args)
      rw [List.append_nil, List.flatMap_singleton]
      cases scope.converts callee args <;> cases callee.unparen.name? <;> rfl
  | select | keyValue | composite =>
      rw [Node.visit_slots]
      exact congrArg (_ :: ·) (List.append_nil _)
  | _ => exact Node.visit_of_open fun _ => rfl

theorem mentions_eq (n : Node) :
    scope.mentions n = n.name?.toList ++ (scope.mentioning n).flatMap scope.mentions := by
  rw [mentions, visit_refersThrough, List.filterMap_cons, List.filterMap_flatMap]
  cases n.name? <;> rfl

/-- Parentheses hide no mention of a variable. -/
theorem mentions_bareAs {r : Mark} (n : Node) : scope.mentions (bareAs f r n) = scope.mentions n := by
  cases wrap : n.isWrap with
  | false =>
      rw [mentions_eq, mentions_eq scope n, Node.name?_bareAs wrap, scope.mentioning_bareAs wrap,
        List.flatMap_map]
      refine congrArg (_ ++ List.flatten ·) (List.map_congr_left fun c among => ?_)
      have smaller := Node.sizeOf_child (scope.mentioning_subset n among)
      exact mentions_bareAs c
  | true =>
      cases n with
      | paren m x =>
          have through : scope.mentions (.paren m x) = scope.mentions x := by
            rw [mentions_eq]
            simp [mentioning, Node.children, Node.name?]
          rw [bareAs_paren wrap, through]
          exact mentions_bareAs x
      | _ => cases wrap
termination_by sizeOf n
decreasing_by
  · exact smaller
  · exact Node.sizeOf_child List.mem_cons_self

/-! ## What is written and read -/

/-- The variables below a node, once for every mention. -/
def occurrences (n : Node) : List String := (scope.mentions n).filter scope.isVariable

theorem occurrences_bareAs (n : Node) : scope.occurrences (bareAs f r n) = scope.occurrences n :=
  congrArg (List.filter scope.isVariable) (scope.mentions_bareAs n)

/-- Names written and read, with repetition. -/
def DefUse.of (defs uses : List String) : DefUse := ⟨addNew [] defs, addNew [] uses⟩

theorem DefUse.of_append (d e r s : List String) :
    (DefUse.of d r).append (DefUse.of e s) = DefUse.of (d ++ e) (r ++ s) := by
  simp only [of, append, Text.addNew_addNew, ← Text.addNew_append, List.append_nil]

theorem DefUse.foldl_of {α : Type} {f : α → DefUse} {d r : α → List String}
    (each : ∀ x, f x = DefUse.of (d x) (r x)) (xs : List α) (e s : List String) :
    xs.foldl (fun acc x => acc.append (f x)) (DefUse.of e s)
      = DefUse.of (e ++ xs.flatMap d) (s ++ xs.flatMap r) := by
  induction xs generalizing e s with
  | nil => simp
  | cons x xs ih =>
      rw [List.foldl_cons, each, of_append, ih, List.append_assoc, List.append_assoc]
      rfl

theorem refs_eq (n : Node) : (⟨[], scope.refs n⟩ : DefUse) = DefUse.of [] (scope.occurrences n) := rfl

theorem useAll_eq (nodes : List Node) :
    scope.useAll nodes = DefUse.of [] (nodes.flatMap scope.occurrences) :=
  (DefUse.foldl_of scope.refs_eq nodes [] []).trans
    (congrArg (DefUse.of · _) (List.flatMap_eq_nil_iff.mpr fun _ _ => rfl))

/-- What an assignment reads of a target, given the name it writes there. -/
def readOfTarget (updates : Bool) (target : Node) : Option String → List String
  | some name => if updates then [name] else []
  | none => scope.occurrences target

theorem targetDefUse_eq (updates : Bool) (target : Node) :
    scope.targetDefUse updates target = DefUse.of (definedName? target).toList
      (scope.readOfTarget updates target (definedName? target)) := by
  cases target with
  | name m text =>
      by_cases blank : text = "_"
      · subst blank
        rfl
      · cases updates <;> simp [targetDefUse, definedName?, blank, readOfTarget, DefUse.of, addNew]
  | _ => rfl

theorem specDefUse_eq (names values : List Node) :
    scope.specDefUse names values = DefUse.of (names.filterMap definedName?)
      (values.flatMap scope.occurrences) := by
  rw [specDefUse, useAll_eq]
  exact (DefUse.of_append _ _ [] _).trans (by simp)

/-- The names and the values of a declaration. -/
def declared : Node → List (Option String) × List Node
  | .valueSpec _ _ names _ values => (names.map definedName?, values)
  | _ => ([], [])

/-- The names that stand as the targets of a node without parentheses, target by target. -/
def written : Node → List (Option String)
  | .assign _ _ targets _ => targets.map definedName?
  | .step _ _ x => [x.name?]
  | .valueSpec _ _ names _ _ => names.map definedName?
  | .declStmt _ (.decl _ _ specs) => specs.flatMap fun s => (declared s).1
  | .rangeStmt _ key value _ _ => (key.toList ++ value.toList).map definedName?
  | _ => []

/-- What a node reads, once for every mention, given the names that are its targets. -/
def read (names : List (Option String)) : Node → List String
  | .assign _ op targets values =>
    (targets.zip names).flatMap (fun (t, name) => scope.readOfTarget op.isUpdate t name) ++
      values.flatMap scope.occurrences
  | .step _ _ x =>
    match names with
    | [some name] => [name]
    | _ => scope.occurrences x
  | .valueSpec _ _ _ _ values => values.flatMap scope.occurrences
  | .declStmt _ (.decl _ _ specs) =>
    specs.flatMap fun s => (declared s).2.flatMap scope.occurrences
  | .rangeStmt _ _ _ x _ | .ifStmt _ _ x _ _ | .forStmt _ _ (some x) _ _ => scope.occurrences x
  | .forStmt _ _ none _ _ => []
  | n => scope.occurrences n

theorem flatMap_zip_map {α β γ : Type} (f : α → β) (g : α × β → List γ) (xs : List α) :
    (xs.zip (xs.map f)).flatMap g = xs.flatMap fun x => g (x, f x) := by
  induction xs with
  | nil => rfl
  | cons x xs ih => rw [List.map_cons, List.zip_cons_cons, List.flatMap_cons, ih, List.flatMap_cons]

/-- A node writes its bare targets and reads the rest. -/
theorem defUse_eq (n : Node) :
    scope.defUse n = DefUse.of ((written n).filterMap id) (scope.read (written n) n) := by
  cases n with
  | assign m op targets values =>
      have folded := DefUse.foldl_of (scope.targetDefUse_eq op.isUpdate) targets [] []
      dsimp only [defUse, written, read]
      rw [useAll_eq, flatMap_zip_map, List.filterMap_map, List.filterMap_eq_flatMap_toList]
      refine (congrArg (DefUse.append · _) folded).trans ((DefUse.of_append _ _ _ _).trans ?_)
      rw [List.nil_append, List.nil_append, List.append_nil]
      rfl
  | step m up x => cases x <;> rfl
  | valueSpec m isConst names t values =>
      dsimp only [defUse, written]
      rw [specDefUse_eq, List.filterMap_map]
      rfl
  | declStmt m d =>
      cases d with
      | decl dm kind specs =>
          have folded := DefUse.foldl_of (f := fun s => DefUse.of ((declared s).1.filterMap id)
            ((declared s).2.flatMap scope.occurrences)) (fun _ => rfl) specs [] []
          rw [List.nil_append, List.nil_append] at folded
          dsimp only [defUse, written, read]
          rw [List.filterMap_flatMap]
          refine (congrArg (List.foldl · (DefUse.of [] []) specs)
            (funext₂ fun acc s => ?_)).trans folded
          cases s with
          | valueSpec m isConst names t values =>
              dsimp only [declared]
              rw [specDefUse_eq, List.filterMap_map]
              rfl
          | _ => rfl
      | _ => rfl
  | rangeStmt m key value x body =>
      dsimp only [defUse, written]
      rw [List.filterMap_map]
      rfl
  | forStmt m init cond post body => cases cond <;> rfl
  | _ => rfl

theorem readOfTarget_bareAs (updates : Bool) (target : Node) (name : Option String) :
    scope.readOfTarget updates (bareAs f r target) name = scope.readOfTarget updates target name := by
  cases name with
  | none => exact scope.occurrences_bareAs target
  | some name => rfl

/-- The node is read part by part. -/
def isParted : Node → Bool
  | .assign .. | .step .. | .valueSpec .. | .declStmt _ (.decl ..) | .rangeStmt .. | .ifStmt ..
  | .forStmt .. => true
  | _ => false

theorem read_whole (names : List (Option String)) {n : Node} (whole : isParted n = false) :
    scope.read names n = scope.occurrences n := by
  cases n with
  | declStmt m d => cases d <;> first | rfl | cases whole
  | _ => first | rfl | cases whole

theorem isParted_of_isExpr {n : Node} (expression : n.isExpr = true) : isParted n = false := by
  cases n <;> first | rfl | cases expression

theorem flatMap_bareAll (ns : List Node) :
    (bareAll f ns).flatMap scope.occurrences = ns.flatMap scope.occurrences := by
  simp only [Node.bareAll_eq, List.flatMap_map, bare, occurrences_bareAs]

theorem declared_bare (s : Node) :
    (declared (s.bare f)).2.flatMap scope.occurrences = (declared s).2.flatMap scope.occurrences := by
  have apart {n : Node} (expression : n.isExpr = true) : declared n = ([], []) := by
    cases n <;> first | rfl | cases expression
  cases s with
  | valueSpec m isConst names t values => exact scope.flatMap_bareAll values
  | paren m x =>
      have bare : declared ((Node.paren m x).bare f) = ([], []) := apart (Node.isExpr_bareAs _)
      rw [bare]
      rfl
  | _ => rfl

theorem read_bareAs (names : List (Option String)) (n : Node) :
    scope.read names (bareAs f r n) = scope.read names n := by
  cases n with
  | paren m x =>
      rw [scope.read_whole names (isParted_of_isExpr (Node.isExpr_bareAs _)),
        scope.read_whole names rfl, occurrences_bareAs]
  | assign m op targets values =>
      change scope.read names (.assign r op (bareAll f targets) (bareAll f values)) = _
      dsimp only [read]
      rw [flatMap_bareAll]
      simp only [Node.bareAll_eq, List.zip_map_left, List.flatMap_map, Prod.map, id, bare,
        readOfTarget_bareAs]
  | step m up x =>
      change scope.read names (.step r up (x.bare f)) = _
      dsimp only [read, bare]
      simp only [occurrences_bareAs]
  | valueSpec m isConst ns t values => exact scope.flatMap_bareAll values
  | declStmt m d =>
      cases d with
      | paren dm x =>
          have apart {d : Node} {r : Mark} (expression : d.isExpr = true) :
              isParted (.declStmt r d) = false := by
            cases d <;> first | rfl | cases expression
          exact (scope.read_whole names (apart (Node.isExpr_bareAs _))).trans
            (scope.occurrences_bareAs (.declStmt m _))
      | decl dm kind specs =>
          change scope.read names (.declStmt r (.decl (f dm) kind (bareAll f specs))) = _
          dsimp only [read]
          simp only [Node.bareAll_eq, List.flatMap_map, declared_bare]
      | _ => exact (scope.read_whole names rfl).trans (scope.occurrences_bareAs (.declStmt m _))
  | forStmt m init cond post body => cases cond <;> first | rfl | exact scope.occurrences_bareAs _
  | rangeStmt m key value x body => exact scope.occurrences_bareAs x
  | ifStmt m init cond body orElse => exact scope.occurrences_bareAs cond
  | _ => exact (scope.read_whole names rfl).trans (scope.occurrences_bareAs _)

/-- Trees that differ in parentheses and marks only write and read the same if they have the same
bare targets. -/
theorem defUse_congr {n m : Node} (same : n.bare f = m.bare id) (targets : written n = written m) :
    scope.defUse n = scope.defUse m := by
  have reads : scope.read (written m) (n.bare f) = scope.read (written m) n := scope.read_bareAs _ n
  have reads' : scope.read (written m) (m.bare id) = scope.read (written m) m :=
    scope.read_bareAs _ m
  rw [defUse_eq, defUse_eq scope m, targets, ← reads, same, reads']

end Kernel.Scope

end Retarget
