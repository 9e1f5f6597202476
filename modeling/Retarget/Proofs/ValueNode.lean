/-
# Proofs.ValueNode -- the nodes of values that are stored

A declaration or assignment of one variable is fed by the node of its value, if that has one.  Which
values have one is decided by their syntax alone (`Drawn.stands_iff`): those that lowering takes for
operands, a call of an intrinsic or a floating-point operator.  Other nodes do not stand for a value,
because every draft that is no operand belongs to a header or to a plain statement (`lower_sorts`),
and two plain statements that lowering reaches share no syntax (`Held.unique`).
-/
import Retarget.Proofs.StoredValue
import Mathlib.Data.List.Pairwise

namespace Retarget

open Retarget.Source (Node NodeId Mark)

set_option autoImplicit false
set_option linter.dupNamespace false

namespace Source.Node

/-! ## Statements that lowering reaches -/

/-- The second node is reached from the first one through statements that hold others. -/
inductive Held : Node → Node → Prop
  | here (n : Node) : Held n n
  | inside {n c s : Node} : n.isCompound = true → c ∈ n.children → Held c s → Held n s

namespace Held

variable {n s t : Node}

theorem child {c : Node} (held : Held n s) (compound : s.isCompound = true) (child : c ∈ s.children) :
    Held n c := by
  induction held with
  | here n => exact .inside compound child (.here c)
  | inside outer inner _ ih => exact .inside outer inner (ih compound child)

theorem mem_preorder (held : Held n s) : s ∈ n.preorder := by
  induction held with
  | here n => exact n.self_mem_preorder
  | inside _ inner _ ih => exact child_preorder inner ih

theorem ids_subset (held : Held n s) : s.ids ⊆ n.ids := by
  intro id inner
  obtain ⟨a, below, rfl⟩ := List.mem_map.mp inner
  exact List.mem_map_of_mem (preorder_trans below held.mem_preorder)

end Held

/-- Plain statements that are reached from one tree are the same if they share a number. -/
theorem Held.unique {n s t : Node} (distinct : n.ids.Nodup) (first : Held n s) (second : Held n t)
    (plain : s.isCompound = false) (plain' : t.isCompound = false) {id : NodeId}
    (left : id ∈ s.ids) (right : id ∈ t.ids) : s = t := by
  induction first with
  | here n =>
      cases second with
      | here => rfl
      | inside compound => exact absurd (compound.symm.trans plain) nofun
  | inside compound child inner ih =>
      cases second with
      | here => exact absurd (compound.symm.trans plain') nofun
      | inside _ child' inner' =>
          obtain rfl := child_unique distinct child child' (inner.ids_subset left)
            (inner'.ids_subset right)
          exact ih (nodup_of_child distinct child) inner' plain left

/-! ## Statements that store one value -/

/-- A statement that declares one variable or sets it, and the value that it stores. -/
inductive Storing : Node → Option Node → Prop
  | spec {md dm sm : Mark} {kind : Source.DeclKind} {isConst : Bool} {x : Node} {type : Option Node}
      {values : List Node} : kind ≠ .type → values.length ≤ 1 →
      Storing (.declStmt md (.decl dm kind [.valueSpec sm isConst [x] type values])) values.head?
  | short {ms mx : Mark} {var : String} {v : Node} :
      Storing (.assign ms .define [.name mx var] [v]) (some v)
  | set {ms mx : Mark} {var : String} {v : Node} :
      Storing (.assign ms .set [.name mx var] [v]) (some v)

namespace Storing

variable {s v : Node} {init : Option Node}

theorem isExpr (stores : Storing s init) : s.isExpr = false := by cases stores <;> rfl

theorem isCompound (stores : Storing s init) : s.isCompound = false := by cases stores <;> rfl

/-- The value stands in the statement where the grammar has expressions. -/
theorem value (stores : Storing s (some v)) : ∃ n ∈ s.preorder, v ∈ n.expressions := by
  generalize is : some v = init at stores
  cases stores with
  | @spec md dm sm kind isConst x type values _ _ =>
      refine ⟨.valueSpec sm isConst [x] type values, ?_, List.mem_of_head? is.symm⟩
      refine child_preorder (List.mem_singleton_self _) ?_
      exact child_preorder (List.mem_singleton_self _) (self_mem_preorder _)
  | short | set => exact ⟨_, self_mem_preorder _, by simp [expressions, Option.some.inj is]⟩

end Storing

end Source.Node

/-- A node that declares or sets a variable. -/
def OpNode.stores (n : OpNode) : Bool := n.isDefine || n.operation == Lowering.assignOperation

/-! ## Operands -/

theorem Kernel.Scope.strip_mem_outsideLiterals (scope : Kernel.Scope) (n : Node) :
    scope.strip n ∈ n.outsideLiterals := by
  fun_induction Kernel.Scope.strip scope n with
  | case1 m x ih =>
      exact List.mem_cons_of_mem _ ih
  | case2 m callee x spread converts ih =>
      refine List.mem_cons_of_mem _ (List.mem_append_right _ ?_)
      exact List.mem_append_left _ ih
  | case3 => exact Source.Node.self_mem_outsideLiterals _
  | case4 n => exact n.self_mem_outsideLiterals

namespace Lowering

open Source.Node (Held Storing)

variable {u : SourceUnit} {k : KernelFn} {counted : Bool} {n s v : Node} {d : Draft}

/-- The operation that the node of a value would have. -/
def valueOperation (u : SourceUnit) (v : Node) : String :=
  match u.scope.strip v with
  | .binary _ op _ _ => op.text
  | x => Kernel.calleeName x

/-- A value has a node of its own exactly if what is stripped of it is an operand. -/
theorem producesNode_iff (counted : Bool) : producesNode u k v = true ↔
    ∃ d, operandDraft? u k counted (u.scope.strip v) = some d := by
  have again := u.scope.strip_strip v
  unfold producesNode operandDraft?
  split
  · rename_i m callee args spread stripped
    rw [stripped] at again
    simp only [Kernel.Scope.isVectorCall, again, Kernel.Scope.isConversion]
    split <;> simp_all
  · split <;> simp_all
  · simp

theorem operandDraft?_operation (made : operandDraft? u k counted (u.scope.strip v) = some d) :
    d.node.operation = valueOperation u v := by
  unfold operandDraft? at made
  unfold valueOperation
  split at made
  · split at made
    · rename_i stripped _
      rw [← Option.some.inj made, stripped]
      rfl
    · cases made
  · split at made
    · rename_i stripped _
      rw [stripped, ← Option.some.inj made]
      rfl
    · cases made
  · cases made

/-- No operand is an operation of a statement. -/
theorem Draft.IsOperand.operation_ne (operand : d.IsOperand u k) (reserved : String)
    (plain : Text.contains reserved Kernel.vectorMark = false)
    (other : ∀ op : Source.BinaryOp, op.text ≠ reserved) : d.node.operation ≠ reserved := by
  obtain ⟨counted, n, made⟩ := operand
  unfold operandDraft? at made
  split at made
  · split at made
    · rename_i marked
      rw [Bool.and_eq_true] at marked
      rw [← Option.some.inj made]
      rintro rfl
      exact Bool.false_ne_true (plain.symm.trans marked.2)
    · cases made
  · split at made
    · exact Option.some.inj made ▸ other _
    · cases made
  · cases made

theorem Draft.IsOperand.stores (operand : d.IsOperand u k) : d.node.stores = false := by
  have declares := operand.operation_ne OpNode.defineOperation (by decide)
    fun op => by cases op <;> decide
  have assigns := operand.operation_ne assignOperation (by decide) fun op => by cases op <;> decide
  simp [OpNode.stores, OpNode.isDefine, declares, assigns]

/-! ## Sorts of drafts -/

/-- What the names of a draft come from. -/
inductive Draft.OfSort (u : SourceUnit) (k : KernelFn) (root : Node) (d : Draft) : Prop
  | silent : d.names = [] → d.OfSort u k root
  | header (n : Node) : n ∈ root.preorder → n.isCompound = true → d.names = [n.id] →
      d.OfSort u k root
  | operand : d.IsOperand u k → d.OfSort u k root
  | statement (s : Node) : root.Held s → d.Heads u k s → d.names ⊆ s.ids →
      d.OfSort u k root

/-- The names of the drafts of a tree are among its numbers. -/
theorem names_subset_ids (member : d ∈ lower u k counted n) : d.names ⊆ n.ids := by
  intro c named
  rcases List.mem_append.mp named with own | covered
  · obtain ⟨a, origin, rfl⟩ := List.mem_map.mp own
    exact List.mem_map_of_mem ((lower_bears n counted d member).among a (Option.mem_toList.mp origin))
  · rcases lower_covers n counted d member c covered with ⟨a, below, rfl, -⟩ | ⟨a, below, rfl, -⟩
    all_goals exact List.mem_map_of_mem below

theorem lower_sorts (root : Node) (counted : Bool) :
    ∀ d ∈ lower u k counted root, d.OfSort u k root := by
  have composes : Composes u k root.Held (∀ d ∈ ·, d.OfSort u k root) := {
    child := fun n held compound c child => held.child compound child
    nil := List.forall_mem_nil _
    append := fun _ _ first second => List.forall_mem_append.mpr ⟨first, second⟩
    blockEnd := fun _ => List.forall_mem_singleton.mpr (.silent rfl)
    elseHeader := fun _ => List.forall_mem_singleton.mpr (.silent rfl)
    header := fun n _ held hasHeader => List.forall_mem_singleton.mpr
      (.header n held.mem_preorder (Node.isCompound_of_hasHeader hasHeader) rfl)
    operand := fun _ _ _ d member => .operand (operands_operand d member)
    plain := fun n counted held plain d member => by
      have operands := @tail_lower_operand u k counted n plain
      have within := names_subset_ids member
      cases drafts : lower u k counted n with
      | nil => simp [drafts] at member
      | cons first rest =>
          rw [drafts] at member operands
          rcases List.mem_cons.mp member with rfl | later
          · exact .statement n held ⟨plain, counted, by rw [drafts]; rfl⟩ within
          · exact .operand (operands d later) }
  exact composes.lower root (.here root) counted

/-! ## Stores -/

/-- The node of a store heads the nodes of a statement that stores one value. -/
structure Draft.StoresIn (u : SourceUnit) (k : KernelFn) (root : Node) (drafts : List Draft)
    (d : Draft) (s : Node) (init : Option Node) : Prop where
  held : root.Held s
  storing : Storing s init
  initializer : initializer? d = init
  origin : d.origin = some s
  heads : d.Heads u k s
  operands : ∃ counted, optOperands u k counted init ⊆ drafts

theorem initializer?_of_storing {init : Option Node} (storing : Storing s init)
    (stores : d.node.stores = true) (origin : d.origin = some s) : initializer? d = init := by
  have operation : ¬(d.node.operation != OpNode.defineOperation &&
      d.node.operation != assignOperation) = true := by
    simpa [OpNode.stores, OpNode.isDefine, or_iff_not_imp_left] using stores
  unfold initializer?
  rw [if_neg operation, origin]
  cases storing with
  | spec other few => simp [singleSpec?_of_few other few]
  | short | set => rfl

theorem generic_stores : ∀ d ∈ generic u k counted n, d.node.stores = false :=
  List.forall_mem_cons.mpr ⟨rfl, fun d member => (operands_operand d member).stores⟩

/-- The call of an intrinsic has the operation that it would have as an operand. -/
theorem exists_operand_of_vector {x : Node} {m : Mark} {callee : Node} {args : List Node} {spread : Bool}
    (stripped : u.scope.strip x = .call m callee args spread)
    (isVector : u.scope.isVectorCall (.call m callee args spread) = true) :
    ∃ d : Draft, d.IsOperand u k ∧
      d.node.operation = Kernel.calleeName (.call m callee args spread) := by
  have produces : producesNode u k x = true := by rwa [producesNode, stripped]
  obtain ⟨d, made⟩ := (producesNode_iff false).mp produces
  refine ⟨d, ⟨false, _, made⟩, ?_⟩
  rw [operandDraft?_operation made, valueOperation, stripped]

theorem exprStmt_stores {x : Node} : ∀ d ∈ exprStmt u k counted n x, d.node.stores = false := by
  unfold exprStmt
  split
  · rename_i m callee args spread stripped
    refine List.forall_mem_cons.mpr ⟨?_, fun d member => ?_⟩
    · split
      · rename_i isVector
        obtain ⟨d, operand, operation⟩ := exists_operand_of_vector (k := k) stripped isVector
        have other := operand.stores
        rw [OpNode.stores, OpNode.isDefine, operation] at other
        exact other
      · rfl
    · obtain ⟨arg, -, inner⟩ := List.mem_flatMap.mp member
      exact (operands_operand d inner).stores
  · exact generic_stores

/-- The drafts of a statement store nothing, or the first one stores the value of the statement. -/
def HeadsStore (u : SourceUnit) (k : KernelFn) (counted : Bool) (n : Node)
    (drafts : List Draft) : Prop :=
  ∀ d ∈ drafts, d.node.stores = true → ∃ init, Storing n init ∧ d.origin = some n ∧
    drafts.head? = some d ∧ optOperands u k counted init ⊆ drafts

theorem headsStore_silent {drafts : List Draft} (silent : ∀ d ∈ drafts, d.node.stores = false) :
    HeadsStore u k counted n drafts := by
  intro d member stores
  rw [silent d member] at stores
  cases stores

theorem headsStore_cons {init : Option Node} (storing : Storing n init) (origin : d.origin = some n) :
    HeadsStore u k counted n (d :: optOperands u k counted init) := by
  intro d' member stores
  rcases List.mem_cons.mp member with rfl | operand
  · exact ⟨init, storing, origin, rfl, List.subset_cons_self _ _⟩
  · rw [(optOperands_operand d' operand).stores] at stores
    cases stores

theorem headsStore_plain (plain : n.isCompound = false) :
    HeadsStore u k counted n (lower u k counted n) := by
  refine lower_plain_cases (P := HeadsStore u k counted n) plain
    (headsStore_silent (List.forall_mem_nil _)) ?_ ?_ ?_ fun _ => headsStore_silent generic_stores
  · rintro m decl rfl
    unfold declStmt
    split
    · rename_i spec var init single
      obtain ⟨dm, kind, sm, isConst, x, type, values, rfl, -, -, rfl, few⟩ := singleSpec?_eq single
      refine headsStore_cons (.spec ?_ few) rfl
      rintro rfl
      cases single
    · exact headsStore_silent generic_stores
  · rintro m op targets values rfl
    unfold assign
    split
    · rename_i same
      cases same
      exact headsStore_cons .short rfl
    · rename_i value same
      cases same
      split
      · have single : operands u k counted value = optOperands u k counted (some value) := by
          simp [optOperands]
        rw [single]
        exact headsStore_cons .set rfl
      · exact headsStore_silent generic_stores
    · exact headsStore_silent generic_stores
  · intro m x _
    exact headsStore_silent exprStmt_stores

/-- Every store of a tree is one of a statement that lowering reaches. -/
theorem lower_stores (root : Node) (counted : Bool) : ∀ d ∈ lower u k counted root,
    d.node.stores = true → ∃ s init, d.StoresIn u k root (lower u k counted root) s init := by
  have composes : Composes u k root.Held fun drafts => ∀ d ∈ drafts, d.node.stores = true →
      ∃ s init, d.StoresIn u k root drafts s init := {
    child := fun n held compound c child => held.child compound child
    nil := List.forall_mem_nil _
    append := fun front back first second d member stores => by
      rcases List.mem_append.mp member with before | after
      · obtain ⟨s, init, within⟩ := first d before stores
        obtain ⟨counted, sub⟩ := within.operands
        exact ⟨s, init, { within with operands :=
          ⟨counted, List.subset_append_of_subset_left _ sub⟩ }⟩
      · obtain ⟨s, init, within⟩ := second d after stores
        obtain ⟨counted, sub⟩ := within.operands
        exact ⟨s, init, { within with operands :=
          ⟨counted, List.subset_append_of_subset_right _ sub⟩ }⟩
    blockEnd := fun _ => List.forall_mem_singleton.mpr nofun
    elseHeader := fun _ => List.forall_mem_singleton.mpr nofun
    header := fun _ _ _ _ => List.forall_mem_singleton.mpr nofun
    operand := fun _ _ _ d member stores => by
      rw [(operands_operand d member).stores] at stores
      cases stores
    plain := fun n counted held plain d member stores => by
      obtain ⟨init, storing, origin, heads, sub⟩ := headsStore_plain plain d member stores
      exact ⟨n, init, held, storing, initializer?_of_storing storing stores origin, origin,
        ⟨plain, counted, heads⟩, counted, sub⟩ }
  exact composes.lower root (.here root) counted

/-- The node of a statement that stores one value stands for the statement. -/
theorem origin_of_storing {init : Option Node} (storing : Storing s init)
    (heads : d.Heads u k s) : d.origin = some s := by
  obtain ⟨-, counted, first⟩ := heads
  cases storing with
  | spec other few =>
      dsimp only [lower] at first
      simp only [declStmt, singleSpec?_of_few other few] at first
      exact Option.some.inj first ▸ rfl
  | short => exact Option.some.inj first ▸ rfl
  | set =>
      dsimp only [lower] at first
      rw [assign] at first
      split at first <;> exact Option.some.inj first ▸ rfl

theorem operandDraft?_origin (made : operandDraft? u k counted n = some d) : d.origin = some n := by
  unfold operandDraft? at made
  split at made
  · split at made
    · exact Option.some.inj made ▸ rfl
    · cases made
  · split at made
    · exact Option.some.inj made ▸ rfl
    · cases made
  · cases made

end Lowering

/-! ## Values of a kernel -/

/-- The value that a node is written with is the one that its statement stores. -/
theorem Emitter.initializer?_of_storing {e : Emitter} {m : OpNode} {s : Node} {init : Option Node}
    (syn : e.syntaxOf m = some s) (storing : s.Storing init) : e.initializer? m = init := by
  rw [initializer?, syn]
  cases storing with
  | @spec md dm sm kind isConst x type values other few =>
      match values, few with
      | [], _ | [v], _ => rfl
  | short | set => rfl

namespace Emitter.Drawn

open Lowering (draftsOf StandsFor initLabel Draft operandDraft? producesNode valueOperation)

variable {e : Emitter} {cpg : PropertyGraph} {root : Node} (drawn : e.Drawn cpg root)
  {d : Draft} {s v : Node}

include drawn

/-- Only an operand stands for a value that is stored. -/
theorem operand_of_named (within : d.StoresIn e.unit e.kernel root
      (draftsOf e.unit e.kernel) s (some v)) {d' : Draft} (member : d' ∈ draftsOf e.unit e.kernel)
    (named : (e.unit.scope.strip v).id ∈ d'.names) :
    ∃ counted, operandDraft? e.unit e.kernel counted (e.unit.scope.strip v) = some d' := by
  obtain ⟨n, inner, stands⟩ := within.storing.value
  have reached := within.held.mem_preorder
  obtain ⟨below, isExpr⟩ := drawn.expression (Node.preorder_trans inner reached) stands
  have stripped := drawn.strip_isExpr below isExpr
  have there := drawn.mem_nodes (e.unit.scope.strip_mem_preorder below)
  rcases Lowering.lower_sorts root false d' (drawn.drafted ▸ member) with
    silent | ⟨n, inside, compound, names⟩ | ⟨counted, n, made⟩ | ⟨t, held, heads, names⟩
  · rw [silent] at named
    cases named
  · rw [names, List.mem_singleton] at named
    obtain rfl := drawn.numbered.inj there (drawn.mem_nodes inside) named
    rw [Node.isCompound_of_isExpr stripped] at compound
    cases compound
  · rw [(Lowering.operandDraft?_names made).1, List.mem_singleton] at named
    have inside := (drawn.bears member).among n (Lowering.operandDraft?_origin made)
    obtain rfl := drawn.numbered.inj there (drawn.mem_nodes inside) named
    exact ⟨counted, made⟩
  · -- the statement would be the store itself, whose node stands for no expression
    have own : (e.unit.scope.strip v).id ∈ s.ids := by
      refine List.mem_map_of_mem (Node.preorder_trans (e.unit.scope.strip_mem_preorder ?_) inner)
      exact Node.child_preorder (n.expressions_subset_children stands) v.self_mem_preorder
    have distinct := drawn.numbered.tree (SourceUnit.tree_of_body drawn.listed drawn.body)
    obtain rfl := held.unique distinct within.held heads.1 within.storing.isCompound
      (names named) own
    exact absurd named (drawn.strip_not_named below isExpr member
      (Lowering.origin_of_storing within.storing heads) within.storing.isExpr)

/-- A stored value has a node exactly if lowering takes what is stripped of it for an operand. -/
theorem stands_iff (within : d.StoresIn e.unit e.kernel root
      (draftsOf e.unit e.kernel) s (some v)) :
    (∃ source, StandsFor e.unit e.kernel source v) ↔ producesNode e.unit e.kernel v = true := by
  constructor
  · rintro ⟨_, i, d', -, listed, named⟩
    obtain ⟨counted, made⟩ := drawn.operand_of_named within (List.mem_of_getElem? listed) named
    exact (Lowering.producesNode_iff counted).mpr ⟨d', made⟩
  · intro produces
    obtain ⟨counted, sub⟩ := within.operands
    obtain ⟨d', made⟩ := (Lowering.producesNode_iff counted).mp produces
    have operand : d' ∈ Lowering.optOperands e.unit e.kernel counted (some v) := by
      refine List.mem_flatMap.mpr ⟨v, Option.mem_toList.mpr rfl, ?_⟩
      exact List.mem_filterMap.mpr ⟨_, e.unit.scope.strip_mem_outsideLiterals v, made⟩
    obtain ⟨i, listed⟩ := List.getElem?_of_mem (sub operand)
    refine ⟨i, i, d', rfl, listed, ?_⟩
    rw [(Lowering.operandDraft?_names made).1]
    exact List.mem_singleton_self _

/-- A node that stores is fed by the node of its value, exactly if that has one. -/
theorem fed_cases {m : OpNode} (member : m ∈ e.graph.nodes) (stores : m.stores = true) :
    (e.graph.input? m.id initLabel = none ∧
      (e.initializer? m).filter (producesNode e.unit e.kernel) = none) ∨
    ∃ v source j d counted, (e.initializer? m).filter (producesNode e.unit e.kernel) = some v ∧
      e.graph.input? m.id initLabel = some source ∧ (draftsOf e.unit e.kernel)[j]? = some d ∧
      source.unmarked = (d.placed j).unmarked ∧
      operandDraft? e.unit e.kernel counted (e.unit.scope.strip v) = some d := by
  obtain ⟨i, d, id, listed, same⟩ := drawn.exists_draft member
  have drafted := List.mem_of_getElem? listed
  have stored : d.node.stores = true := by
    rwa [OpNode.stores, OpNode.isDefine, ← (operation_eq same).1]
  obtain ⟨s, init, within⟩ := Lowering.lower_stores root false d (drawn.drafted ▸ drafted) stored
  rw [← drawn.drafted] at within
  rw [initializer?_of_storing ((drawn.syntaxOf_eq same drafted).trans within.origin) within.storing]
  cases init with
  | none => exact Or.inl ⟨drawn.unfed listed id (by simp [within.initializer]), rfl⟩
  | some v =>
      rw [Option.filter_some]
      by_cases produces : producesNode e.unit e.kernel v = true
      · obtain ⟨n, inner, stands⟩ := within.storing.value
        obtain ⟨below, isExpr⟩ :=
          drawn.expression (Node.preorder_trans inner within.held.mem_preorder) stands
        have apart := drawn.strip_not_named below isExpr drafted within.origin
          within.storing.isExpr
        obtain ⟨source, _, input, here, j, d', rfl, listed', named⟩ := drawn.fed_node listed id
          within.initializer apart ((drawn.stands_iff within).mpr produces)
        obtain ⟨counted, made⟩ :=
          drawn.operand_of_named within (List.mem_of_getElem? listed') named
        exact Or.inr ⟨v, source, j, d', counted, if_pos produces, input, listed',
          drawn.unmarked_eq here listed', made⟩
      · exact Or.inl ⟨drawn.unfed_value listed id within.initializer
          (mt (drawn.stands_iff within).mp produces), if_neg produces⟩

/-- What feeds a store has the operation of its value and stands for that. -/
theorem fed_source {m : OpNode} (member : m ∈ e.graph.nodes) (stores : m.stores = true) :
    (e.graph.input? m.id initLabel).map (fun source => (source.operation, e.syntaxOf source)) =
      ((e.initializer? m).filter (producesNode e.unit e.kernel)).map fun v =>
        (valueOperation e.unit v, some (e.unit.scope.strip v)) := by
  rcases drawn.fed_cases member stores with ⟨unfed, none⟩ |
    ⟨v, source, j, d, counted, value, input, listed, same, made⟩
  · rw [unfed, none]
    rfl
  · rw [value, input, Option.map_some, Option.map_some, (operation_eq same).1,
      Lowering.operandDraft?_operation made, drawn.syntaxOf_eq same (List.mem_of_getElem? listed),
      Lowering.operandDraft?_origin made]

end Emitter.Drawn

end Retarget
