/-
# Proofs.LoweredNames -- a statement that writes has one node

A node of a lowered kernel stands for its own syntax and for a little more: a declaration of one
variable also for its specification, a call also for the statement it makes up.  Statements lie
side by side or one below the other, so where the numbers of a tree are distinct no two nodes
stand for one statement that writes (`lower_namesOnce`), and the table leads from its number back
to its node (`NamesOnce.lookup`).

Syntax that writes nothing may well have two nodes: a call that is a statement and the same call
as an operand.  Nothing flows out of these.
-/
import Retarget.Proofs.OperandEdges
import Retarget.Proofs.StatementShape
import Retarget.Proofs.ExpressionShape

namespace Retarget

open Retarget.Source (Node NodeId Mark)

set_option autoImplicit false
set_option linter.dupNamespace false

/-- Statements and specifications that may write a variable. -/
def Source.Node.writes : Node → Bool
  | .assign .. | .step .. | .rangeStmt .. | .declStmt .. | .valueSpec .. => true
  | _ => false

/-- Statements with a header of their own. -/
def Source.Node.hasHeader : Node → Bool
  | .ifStmt .. | .forStmt .. | .rangeStmt .. => true
  | _ => false

theorem Source.Node.isCompound_of_hasHeader {n : Node} (hasHeader : n.hasHeader = true) :
    n.isCompound = true := by
  cases n <;> first | rfl | cases hasHeader

namespace Lowering

variable {u : SourceUnit} {k : KernelFn} {writer : NodeId → Prop} {front back drafts : List Draft}
  {inside ids : List NodeId}

/-! ## Names of drafts -/

/-- No two drafts stand for one writer, and those they stand for are among `ids`. -/
structure NamesOnce (writer : NodeId → Prop) (ids : List NodeId) (drafts : List Draft) : Prop where
  once : drafts.Pairwise fun d e => ∀ s ∈ d.names, s ∈ e.names → ¬writer s
  within : ∀ d ∈ drafts, ∀ s ∈ d.names, writer s → s ∈ ids

namespace NamesOnce

/-- Drafts that stand for no writer. -/
theorem silent (each : ∀ d ∈ drafts, ∀ s ∈ d.names, ¬writer s) : NamesOnce writer ids drafts where
  once := List.pairwise_of_forall_mem_list fun d member _ _ s named _ => each d member s named
  within d member s named writes := absurd writes (each d member s named)

theorem nil : NamesOnce writer ids [] := silent (List.forall_mem_nil _)

theorem single {d : Draft} (within : ∀ s ∈ d.names, writer s → s ∈ ids) :
    NamesOnce writer ids [d] where
  once := List.pairwise_singleton _ _
  within := by simpa using within

theorem mono (once : NamesOnce writer inside drafts) (sub : inside ⊆ ids) :
    NamesOnce writer ids drafts where
  once := once.once
  within d member s named writes := sub (once.within d member s named writes)

theorem append {others : List NodeId} (first : NamesOnce writer ids front)
    (second : NamesOnce writer others back) (apart : ids.Disjoint others) :
    NamesOnce writer (ids ++ others) (front ++ back) where
  once := by
    refine List.pairwise_append.mpr ⟨first.once, second.once, ?_⟩
    intro d left e right s here there writes
    exact apart (first.within d left s here writes) (second.within e right s there writes)
  within d member s named writes := by
    rcases List.mem_append.mp member with left | right
    · exact List.mem_append_left _ (first.within d left s named writes)
    · exact List.mem_append_right _ (second.within d right s named writes)

/-- Drafts that stand for no writer may stand anywhere. -/
theorem append_silent (first : NamesOnce writer ids front)
    (each : ∀ d ∈ back, ∀ s ∈ d.names, ¬writer s) : NamesOnce writer ids (front ++ back) := by
  have rest : NamesOnce writer [] back := silent each
  simpa using first.append rest (List.disjoint_nil_right _)

end NamesOnce

/-! ## Single statements -/

/-- Only what may write is a writer. -/
def Apt (writer : NodeId → Prop) (n : Node) : Prop :=
  ∀ a ∈ n.preorder, a.writes = false → ¬writer a.id

theorem Apt.below {a n : Node} (apt : Apt writer n) (sub : a.preorder ⊆ n.preorder) :
    Apt writer a := fun b inner => apt b (sub inner)

theorem Apt.child {c n : Node} (apt : Apt writer n) (child : c ∈ n.children) : Apt writer c :=
  apt.below fun _ below => Node.child_preorder child below

theorem operandDraft?_names {counted : Bool} {n : Node} {d : Draft}
    (made : operandDraft? u k counted n = some d) : d.names = [n.id] ∧ n.writes = false := by
  unfold operandDraft? at made
  split at made
  · split at made
    · cases made
      exact ⟨rfl, rfl⟩
    · cases made
  · split at made
    · cases made
      exact ⟨rfl, rfl⟩
    · cases made
  · cases made

theorem operands_silent {counted : Bool} {n : Node} (apt : Apt writer n) :
    ∀ d ∈ operands u k counted n, ∀ s ∈ d.names, ¬writer s := by
  intro d member s named
  obtain ⟨a, met, made⟩ := List.mem_filterMap.mp member
  obtain ⟨names, silent⟩ := operandDraft?_names made
  rw [names, List.mem_singleton] at named
  exact named ▸ apt a (Node.visit_subset_preorder _ n met) silent

theorem optOperands_silent {counted : Bool} {n : Option Node} (apt : ∀ c ∈ n.toList, Apt writer c) :
    ∀ d ∈ optOperands u k counted n, ∀ s ∈ d.names, ¬writer s := by
  intro d member
  obtain ⟨c, there, inner⟩ := List.mem_flatMap.mp member
  exact operands_silent (apt c there) d inner

/-- A node of its own, and what lies below it. -/
theorem NamesOnce.headed {d : Draft} (within : ∀ s ∈ d.names, s ∈ ids)
    (each : ∀ e ∈ drafts, ∀ s ∈ e.names, ¬writer s) : NamesOnce writer ids (d :: drafts) :=
  (NamesOnce.single fun s named _ => within s named).append_silent each

/-- A statement that holds no others gives nothing, or the nodes of one of four sorts. -/
theorem lower_plain_cases {P : List Draft → Prop} {counted : Bool} {n : Node}
    (plain : n.isCompound = false) (empty : P [])
    (declares : ∀ m decl, n = .declStmt m decl → P (declStmt u k counted n decl))
    (assigns : ∀ m op targets values, n = .assign m op targets values → P (assign u k counted n))
    (calls : ∀ m x, n = .exprStmt m x → P (exprStmt u k counted n x))
    (other : (∀ m decl, n ≠ .declStmt m decl) → P (generic u k counted n)) :
    P (lower u k counted n) := by
  cases n with
  | empty => exact empty
  | block | labeled | ifStmt | forStmt | rangeStmt => cases plain
  | declStmt m decl => exact declares m decl rfl
  | assign m op targets values => exact assigns m op targets values rfl
  | exprStmt m x => exact calls m x rfl
  | _ => exact other fun m decl same => nomatch same

theorem generic_namesOnce {counted : Bool} {n : Node} (apt : Apt writer n) :
    NamesOnce writer n.ids (generic u k counted n) := by
  refine .headed (fun s named => ?_) (operands_silent apt)
  rw [List.mem_singleton.mp named]
  exact n.id_mem_ids

theorem define_namesOnce {counted : Bool} {n : Node} {var : String} {init : Option Node}
    {covers : List NodeId} (within : ∀ s ∈ covers, s ∈ n.ids) (apt : ∀ c ∈ init.toList, Apt writer c) :
    NamesOnce writer n.ids (define u k counted n var init covers) := by
  refine .headed (fun s named => ?_) (optOperands_silent apt)
  rcases List.mem_cons.mp named with rfl | covered
  · exact n.id_mem_ids
  · exact within s covered

theorem assign_namesOnce {counted : Bool} {n : Node} (apt : Apt writer n) :
    NamesOnce writer n.ids (assign u k counted n) := by
  unfold assign
  split
  · exact define_namesOnce (List.forall_mem_nil _) fun c there => apt.child (by simp_all [Node.children])
  · split
    · refine .headed (fun s named => ?_) (operands_silent (apt.child (by simp [Node.children])))
      rw [List.mem_singleton.mp named]
      exact Node.id_mem_ids _
    · exact generic_namesOnce apt
  · exact generic_namesOnce apt

theorem exprStmt_namesOnce {counted : Bool} {m : Mark} {x : Node} (apt : Apt writer (.exprStmt m x)) :
    NamesOnce writer (Node.exprStmt m x).ids (exprStmt u k counted (.exprStmt m x) x) := by
  unfold exprStmt
  split
  · rename_i mark callee args spread stripped
    have below : (Node.call mark callee args spread).preorder ⊆ (Node.exprStmt m x).preorder := by
      intro a inner
      refine Node.child_preorder (c := x) (by simp [Node.children]) ?_
      exact u.scope.strip_subset_preorder x (stripped ▸ inner)
    have args_silent : ∀ d ∈ args.flatMap (operands u k counted), ∀ s ∈ d.names, ¬writer s := by
      intro d member
      obtain ⟨arg, there, inner⟩ := List.mem_flatMap.mp member
      exact operands_silent ((apt.below below).child (List.mem_cons_of_mem _ there)) d inner
    have call_mem : mark.id ∈ (Node.exprStmt m x).ids :=
      List.mem_map.mpr ⟨_, below (Node.self_mem_preorder _), rfl⟩
    have x_mem : x.id ∈ (Node.exprStmt m x).ids := by
      simp [Node.ids_eq (.exprStmt m x), Node.children, x.id_mem_ids]
    have within : ∀ s ∈ [mark.id, m.id, x.id], s ∈ (Node.exprStmt m x).ids := by
      simp [call_mem, x_mem, show m.id ∈ (Node.exprStmt m x).ids from Node.id_mem_ids _]
    refine .headed (fun s named => within s ?_) args_silent
    split at named <;> exact named
  · exact generic_namesOnce apt

/-- A declaration of one variable is one specification of one name with at most one value. -/
theorem singleSpec?_eq {decl : Node} {spec : NodeId} {var : String} {init : Option Node}
    (single : singleSpec? decl = some (spec, var, init)) :
    ∃ m kind s isConst name t values, decl = .decl m kind [.valueSpec s isConst [name] t values] ∧
      spec = s.id ∧ var = name.name?.getD "" ∧ init = values.head? ∧ values.length ≤ 1 := by
  unfold singleSpec? at single
  split at single
  · cases single
  · split at single
    · cases single
    · rename_i few
      cases single
      exact ⟨_, _, _, _, _, _, _, rfl, rfl, rfl, rfl, Nat.le_of_not_lt few⟩
  · cases single

theorem singleSpec?_of_few {dm sm : Mark} {kind : Source.DeclKind} {isConst : Bool} {x : Node}
    {type : Option Node} {values : List Node} (other : kind ≠ .type) (few : values.length ≤ 1) :
    singleSpec? (.decl dm kind [.valueSpec sm isConst [x] type values]) =
      some (sm.id, x.name?.getD "", values.head?) := by
  cases kind <;> simp_all [singleSpec?]

theorem declStmt_namesOnce {counted : Bool} {m : Mark} {decl : Node}
    (apt : Apt writer (.declStmt m decl)) :
    NamesOnce writer (Node.declStmt m decl).ids (declStmt u k counted (.declStmt m decl) decl) := by
  unfold declStmt
  split
  · rename_i spec var init single
    obtain ⟨dm, kind, sm, isConst, name, t, values, rfl, rfl, rfl, rfl, few⟩ := singleSpec?_eq single
    refine define_namesOnce (fun s covered => ?_) fun c there => ?_
    · obtain rfl := List.mem_singleton.mp covered
      have spec := Node.id_mem_ids (.valueSpec sm isConst [name] t values)
      exact Node.ids_subset_of_child (List.mem_singleton_self _)
        (Node.ids_subset_of_child (List.mem_singleton_self _) spec)
    · have value : c ∈ values := List.mem_of_head? (Option.mem_toList.mp there)
      have inner : Apt writer (.valueSpec sm isConst [name] t values) :=
        (apt.child (List.mem_singleton_self _)).child (List.mem_singleton_self _)
      exact inner.child (by simp [Node.children, value])
  · exact generic_namesOnce apt

/-! ## Statements of statements -/

theorem header_namesOnce {counted : Bool} {n : Node} {className : String} (member : n.id ∈ ids)
    (each : ∀ d ∈ drafts, ∀ s ∈ d.names, ¬writer s) :
    NamesOnce writer ids (header counted (some n) className :: drafts) :=
  .headed (fun s named => by rwa [List.mem_singleton.mp named]) each

/-- A block end and the header of an `else` stand for nothing. -/
theorem NamesOnce.append_end {counted : Bool} (first : NamesOnce writer ids drafts) :
    NamesOnce writer ids (drafts ++ [blockEnd counted]) :=
  first.append_silent (by simp [blockEnd, draft, Draft.names])

/-- What stands for a node itself, and then for a child of it. -/
theorem NamesOnce.append_child {n c : Node} {back : List Draft} (own : NamesOnce writer [n.id] drafts)
    (inner : NamesOnce writer c.ids back) (distinct : n.ids.Nodup) (child : c ∈ n.children) :
    NamesOnce writer n.ids (drafts ++ back) :=
  (own.append inner (List.singleton_disjoint.mpr (Node.id_not_mem_child distinct child))).mono
    (List.cons_subset.mpr ⟨n.id_mem_ids, Node.ids_subset_of_child child⟩)

/-- Statements that hold no others. -/
theorem lower_plain_namesOnce {counted : Bool} {n : Node} (plain : n.isCompound = false)
    (apt : Apt writer n) : NamesOnce writer n.ids (lower u k counted n) := by
  refine lower_plain_cases plain .nil ?_ ?_ ?_ fun _ => generic_namesOnce apt
  · rintro m decl rfl
    exact declStmt_namesOnce apt
  · rintro m op targets values rfl
    exact assign_namesOnce apt
  · rintro m x rfl
    exact exprStmt_namesOnce apt

section Parts

variable {counted : Bool} {m : Mark} {init cond post orElse key value : Option Node}
  {test x body : Node}

theorem ifStmt_namesOnce (distinct : (Node.ifStmt m init test body orElse).ids.Nodup)
    (apt : Apt writer (.ifStmt m init test body orElse))
    (first : NamesOnce writer (Node.idsAll init.toList) (lowerOpt u k counted init))
    (inner : NamesOnce writer body.ids (lower u k counted body))
    (other : NamesOnce writer (Node.idsAll orElse.toList) (lowerElse u k counted orElse)) :
    NamesOnce writer (Node.ifStmt m init test body orElse).ids
      (lower u k counted (.ifStmt m init test body orElse)) := by
  have head : NamesOnce writer [m.id] (header counted (some (.ifStmt m init test body orElse))
      (Node.ifStmt m init test body orElse).className :: operands u k counted test) :=
    header_namesOnce List.mem_cons_self (operands_silent (apt.child (by simp [Node.children])))
  rw [Node.ids_eq] at distinct ⊢
  simp only [Node.children, Node.idsAll_append, Node.idsAll_cons, Node.id, Node.mark] at distinct ⊢
  simp only [List.nodup_cons, List.nodup_append', List.mem_append, List.disjoint_append_right,
    not_or] at distinct
  obtain ⟨⟨ownInit, -, ownBody, ownElse⟩, -, ⟨-, ⟨-, -, bodyElse⟩, -, -⟩, -, initBody, initElse⟩ :=
    distinct
  have disjoint₁ := List.disjoint_singleton.mpr ownInit
  have disjoint₂ := List.disjoint_append_left.mpr ⟨initBody, List.singleton_disjoint.mpr ownBody⟩
  have disjoint₃ := List.disjoint_append_left.mpr ⟨List.disjoint_append_left.mpr
    ⟨initElse, List.singleton_disjoint.mpr ownElse⟩, bodyElse⟩
  refine (((first.append head disjoint₁).append inner disjoint₂).append other disjoint₃).mono ?_
  intro s member
  simp only [List.mem_append, List.mem_cons, List.not_mem_nil, or_false] at member ⊢
  rcases member with ((part | part) | part) | part <;> simp [part]

theorem forStmt_namesOnce (distinct : (Node.forStmt m init cond post body).ids.Nodup)
    (apt : Apt writer (.forStmt m init cond post body))
    (inner : NamesOnce writer body.ids
      (lower u k (counted || (Node.forStmt m init cond post body).className == "ForStmt") body)) :
    NamesOnce writer (Node.forStmt m init cond post body).ids
      (lower u k counted (.forStmt m init cond post body)) := by
  have optional {o : Option Node} (part : o = init ∨ o = cond) : ∀ c ∈ o.toList, Apt writer c := by
    intro c there
    refine apt.child ?_
    rcases part with rfl | rfl <;> simp [Node.children, Option.mem_toList.mp there]
  have head : NamesOnce writer [m.id] (header counted (some (.forStmt m init cond post body))
      (Node.forStmt m init cond post body).className ::
        (optOperands u k counted init ++ optOperands u k counted cond)) := by
    refine header_namesOnce List.mem_cons_self fun d member => ?_
    rcases List.mem_append.mp member with left | right
    · exact optOperands_silent (optional (.inl rfl)) d left
    · exact optOperands_silent (optional (.inr rfl)) d right
  exact head.append_child inner distinct (by simp [Node.children])

theorem rangeStmt_namesOnce (distinct : (Node.rangeStmt m key value x body).ids.Nodup)
    (apt : Apt writer (.rangeStmt m key value x body))
    (inner : NamesOnce writer body.ids (lower u k counted body)) :
    NamesOnce writer (Node.rangeStmt m key value x body).ids
      (lower u k counted (.rangeStmt m key value x body)) := by
  have head : NamesOnce writer [m.id] (header counted (some (.rangeStmt m key value x body))
      (Node.rangeStmt m key value x body).className :: operands u k counted x) :=
    header_namesOnce List.mem_cons_self (operands_silent (apt.child (by simp [Node.children])))
  exact head.append_child inner distinct (by simp [Node.children])

theorem else_namesOnce {n : Node} (inner : NamesOnce writer n.ids (lower u k counted n)) :
    NamesOnce writer (Node.idsAll [n]) (lowerElse u k counted (some n)) := by
  have head : NamesOnce writer [] [header counted none elseName] := .single (List.forall_mem_nil _)
  dsimp only [lowerElse]
  rw [Node.idsAll_cons, Node.idsAll_nil, List.append_nil]
  have whole := head.append inner (List.disjoint_nil_left _)
  split
  · exact whole.append_end
  · exact whole.append_silent (List.forall_mem_nil _)

end Parts

mutual

theorem lower_namesOnce (counted : Bool) (n : Node) (distinct : n.ids.Nodup) (apt : Apt writer n) :
    NamesOnce writer n.ids (lower u k counted n) := by
  have below {c : Node} (child : c ∈ n.children) := Node.nodup_of_child distinct child
  cases n with
  | block m stmts =>
      rw [Node.ids_eq] at distinct ⊢
      have inner := lowerAll_namesOnce counted stmts (List.nodup_cons.mp distinct).2 fun c => apt.child
      exact inner.append_end.mono (List.subset_cons_self _ _)
  | labeled m label stmt =>
      have inner := lower_namesOnce counted stmt (below (by simp [Node.children]))
        (apt.child (by simp [Node.children]))
      refine inner.mono ?_
      simp [Node.ids_eq (.labeled m label stmt), Node.children]
  | ifStmt m init test body orElse =>
      have optional {o : Option Node} (part : o = init ∨ o = orElse) {c : Node} (there : c ∈ o) :
          c ∈ (Node.ifStmt m init test body orElse).children := by
        rcases part with rfl | rfl <;> simp [Node.children, Option.mem_def.mp there]
      refine ifStmt_namesOnce distinct apt ?_ ?_ ?_
      · exact lowerOpt_namesOnce counted init (fun c there => below (optional (.inl rfl) there))
          fun c there => apt.child (optional (.inl rfl) there)
      · exact lower_namesOnce counted body (below (by simp [Node.children]))
          (apt.child (by simp [Node.children]))
      · exact lowerElse_namesOnce counted orElse (fun c there => below (optional (.inr rfl) there))
          fun c there => apt.child (optional (.inr rfl) there)
  | forStmt m init cond post body =>
      exact forStmt_namesOnce distinct apt (lower_namesOnce _ body (below (by simp [Node.children]))
        (apt.child (by simp [Node.children])))
  | rangeStmt m key value x body =>
      exact rangeStmt_namesOnce distinct apt (lower_namesOnce _ body (below (by simp [Node.children]))
        (apt.child (by simp [Node.children])))
  | _ => exact lower_plain_namesOnce rfl apt

theorem lowerOpt_namesOnce (counted : Bool) (n : Option Node) (distinct : ∀ c ∈ n, c.ids.Nodup)
    (apt : ∀ c ∈ n, Apt writer c) :
    NamesOnce writer (Node.idsAll n.toList) (lowerOpt u k counted n) := by
  cases n with
  | none => exact .nil
  | some n =>
      refine (lower_namesOnce counted n (distinct n rfl) (apt n rfl)).mono ?_
      simp

theorem lowerElse_namesOnce (counted : Bool) (n : Option Node) (distinct : ∀ c ∈ n, c.ids.Nodup)
    (apt : ∀ c ∈ n, Apt writer c) :
    NamesOnce writer (Node.idsAll n.toList) (lowerElse u k counted n) := by
  cases n with
  | none => exact .nil
  | some n => exact else_namesOnce (lower_namesOnce counted n (distinct n rfl) (apt n rfl))

theorem lowerAll_namesOnce (counted : Bool) (ns : List Node) (distinct : (Node.idsAll ns).Nodup)
    (apt : ∀ c ∈ ns, Apt writer c) :
    NamesOnce writer (Node.idsAll ns) (lowerAll u k counted ns) := by
  cases ns with
  | nil => exact .nil
  | cons n ns =>
      rw [Node.idsAll_cons] at distinct ⊢
      obtain ⟨first, rest, apart⟩ := List.nodup_append'.mp distinct
      exact (lower_namesOnce counted n first (apt n (by simp))).append
        (lowerAll_namesOnce counted ns rest fun c there => apt c (by simp [there])) apart

end

/-! ## What drafts stand for -/

/-- What holds of the drafts of plain statements, of headers, operands and closing nodes, and of
what stands one after another, holds of the drafts of a tree. -/
structure Composes (u : SourceUnit) (k : KernelFn) (among : Node → Prop)
    (Q : List Draft → Prop) : Prop where
  child : ∀ n, among n → n.isCompound = true → ∀ c ∈ n.children, among c
  nil : Q []
  append : ∀ front back, Q front → Q back → Q (front ++ back)
  blockEnd : ∀ counted, Q [blockEnd counted]
  elseHeader : ∀ counted, Q [header counted none elseName]
  header : ∀ n counted, among n → n.hasHeader = true → Q [header counted (some n) n.className]
  operand : ∀ n counted, among n → Q (operands u k counted n)
  plain : ∀ n counted, among n → n.isCompound = false → Q (lower u k counted n)

namespace Composes

variable {among : Node → Prop} {Q : List Draft → Prop} {counted : Bool} {m : Mark}
  {init cond post orElse key value : Option Node} {test x body : Node}

theorem optOperands (composes : Composes u k among Q) (counted : Bool) {n : Option Node}
    (inside : ∀ c ∈ n, among c) : Q (optOperands u k counted n) := by
  cases n with
  | none => exact composes.nil
  | some n =>
      have single : Lowering.optOperands u k counted (some n) = operands u k counted n := by
        simp [Lowering.optOperands]
      exact single ▸ composes.operand n counted (inside n rfl)

theorem ifStmt (composes : Composes u k among Q) (inside : among (.ifStmt m init test body orElse))
    (first : Q (lowerOpt u k counted init)) (inner : Q (lower u k counted body))
    (other : Q (lowerElse u k counted orElse)) :
    Q (lower u k counted (.ifStmt m init test body orElse)) := by
  dsimp only [lower]
  have tested := composes.operand test counted (composes.child _ inside rfl _ (by simp [Node.children]))
  have head := composes.append _ _ (composes.header _ counted inside rfl) tested
  exact composes.append _ _ (composes.append _ _ (composes.append _ _ first head) inner) other

theorem forStmt (composes : Composes u k among Q) (inside : among (.forStmt m init cond post body))
    (inner : ∀ counted, Q (lower u k counted body)) :
    Q (lower u k counted (.forStmt m init cond post body)) := by
  have optional {o : Option Node} (part : o = init ∨ o = cond) : ∀ c ∈ o, among c := by
    intro c there
    refine composes.child _ inside rfl c ?_
    rcases part with rfl | rfl <;> simp [Node.children, Option.mem_def.mp there]
  dsimp only [lower]
  have first := composes.append _ _ (composes.header _ counted inside rfl)
    (composes.optOperands counted (optional (.inl rfl)))
  have head := composes.append _ _ first (composes.optOperands counted (optional (.inr rfl)))
  exact composes.append _ _ head (inner _)

theorem rangeStmt (composes : Composes u k among Q) (inside : among (.rangeStmt m key value x body))
    (inner : Q (lower u k counted body)) :
    Q (lower u k counted (.rangeStmt m key value x body)) := by
  dsimp only [lower]
  have ranged := composes.operand x counted (composes.child _ inside rfl _ (by simp [Node.children]))
  exact composes.append _ _ (composes.append _ _ (composes.header _ counted inside rfl) ranged) inner

theorem otherwise (composes : Composes u k among Q) {n : Node} (inner : Q (lower u k counted n)) :
    Q (lowerElse u k counted (some n)) := by
  have whole := composes.append _ _ (composes.elseHeader counted) inner
  dsimp only [lowerElse]
  split
  · exact composes.append _ _ whole (composes.blockEnd counted)
  · exact composes.append _ _ whole composes.nil

mutual

theorem lower (composes : Composes u k among Q) (n : Node) (inside : among n) (counted : Bool) :
    Q (lower u k counted n) := by
  have below {c : Node} (compound : n.isCompound = true) (child : c ∈ n.children) :=
    composes.child n inside compound c child
  cases n with
  | block m stmts =>
      have inner := Composes.lowerAll composes stmts (fun c there => below rfl there) counted
      exact composes.append _ _ inner (composes.blockEnd counted)
  | labeled m label stmt =>
      exact Composes.lower composes stmt (below rfl (by simp [Node.children])) counted
  | ifStmt m init test body orElse =>
      have optional {o : Option Node} (part : o = init ∨ o = orElse) : ∀ c ∈ o, among c := by
        intro c there
        refine below rfl ?_
        rcases part with rfl | rfl <;> simp [Node.children, Option.mem_def.mp there]
      exact composes.ifStmt inside (Composes.lowerOpt composes init (optional (.inl rfl)) counted)
        (Composes.lower composes body (below rfl (by simp [Node.children])) counted)
        (Composes.lowerElse composes orElse (optional (.inr rfl)) counted)
  | forStmt m init cond post body =>
      exact composes.forStmt inside
        (Composes.lower composes body (below rfl (by simp [Node.children])))
  | rangeStmt m key value x body =>
      exact composes.rangeStmt inside
        (Composes.lower composes body (below rfl (by simp [Node.children])) counted)
  | _ => exact composes.plain _ counted inside rfl

theorem lowerOpt (composes : Composes u k among Q) (n : Option Node) (inside : ∀ c ∈ n, among c)
    (counted : Bool) : Q (lowerOpt u k counted n) := by
  cases n with
  | none => exact composes.nil
  | some n => exact Composes.lower composes n (inside n rfl) counted

theorem lowerElse (composes : Composes u k among Q) (n : Option Node) (inside : ∀ c ∈ n, among c)
    (counted : Bool) : Q (lowerElse u k counted n) := by
  cases n with
  | none => exact composes.nil
  | some n => exact composes.otherwise (Composes.lower composes n (inside n rfl) counted)

theorem lowerAll (composes : Composes u k among Q) (ns : List Node) (inside : ∀ c ∈ ns, among c)
    (counted : Bool) : Q (lowerAll u k counted ns) := by
  cases ns with
  | nil => exact composes.nil
  | cons n ns =>
      exact composes.append _ _
        (Composes.lower composes n (inside n List.mem_cons_self) counted)
        (Composes.lowerAll composes ns (fun c there => inside c (List.mem_cons_of_mem _ there)) counted)

end

end Composes

/-- What holds of the drafts of every part of a tree holds of the drafts of the tree. -/
structure Holds (u : SourceUnit) (k : KernelFn) (among : Node → Prop) (P : Draft → Prop) : Prop where
  child : ∀ n, among n → ∀ c ∈ n.children, among c
  blockEnd : ∀ counted, P (blockEnd counted)
  elseHeader : ∀ counted, P (header counted none elseName)
  header : ∀ n counted, among n → n.isCompound = true → P (header counted (some n) n.className)
  operand : ∀ n counted, among n → ∀ d ∈ operands u k counted n, P d
  plain : ∀ n counted, among n → n.isCompound = false → ∀ d ∈ lower u k counted n, P d

theorem Holds.lower {among : Node → Prop} {P : Draft → Prop} (holds : Holds u k among P) (n : Node)
    (inside : among n) (counted : Bool) : ∀ d ∈ lower u k counted n, P d := by
  have composes : Composes u k among (∀ d ∈ ·, P d) := {
    child := fun n inside _ => holds.child n inside
    nil := List.forall_mem_nil _
    append := fun _ _ first second => List.forall_mem_append.mpr ⟨first, second⟩
    blockEnd := fun counted => by simpa using holds.blockEnd counted
    elseHeader := fun counted => by simpa using holds.elseHeader counted
    header := fun n counted inside hasHeader => by
      simpa using holds.header n counted inside (Node.isCompound_of_hasHeader hasHeader)
    operand := holds.operand
    plain := holds.plain }
  exact composes.lower n inside counted

/-! ## Origins -/

/-- What a draft says of the syntax it stands for. -/
structure Draft.Bears (root : Node) (d : Draft) : Prop where
  stmt : d.node.stmt = d.origin.map (·.id)
  among : ∀ n ∈ d.origin, n ∈ root.preorder
  /-- A declaration of one variable stands for its specification, too. -/
  spec : ∀ m decl spec var init, d.origin = some (.declStmt m decl) →
    singleSpec? decl = some (spec, var, init) → spec ∈ d.names

section Bears

variable {root n : Node} {counted : Bool} {d : Draft}

theorem operands_bear (inside : n ∈ root.preorder) : ∀ d ∈ operands u k counted n, d.Bears root := by
  intro d member
  obtain ⟨a, met, made⟩ := List.mem_filterMap.mp member
  have below := Node.preorder_trans (Node.visit_subset_preorder _ n met) inside
  suffices shape : d.node.stmt = some a.id ∧ d.origin = some a ∧ a.writes = false by
    refine ⟨by rw [shape.1, shape.2.1]; rfl, by simpa [shape.2.1] using below, ?_⟩
    intro m decl spec var init origin
    rw [shape.2.1] at origin
    cases origin
    cases shape.2.2
  unfold operandDraft? at made
  split at made
  · split at made
    · cases made
      exact ⟨rfl, rfl, rfl⟩
    · cases made
  · split at made
    · cases made
      exact ⟨rfl, rfl, rfl⟩
    · cases made
  · cases made

theorem optOperands_bear {o : Option Node} (inside : ∀ c ∈ o, c ∈ root.preorder) :
    ∀ d ∈ optOperands u k counted o, d.Bears root := by
  intro d member
  obtain ⟨c, there, inner⟩ := List.mem_flatMap.mp member
  exact operands_bear (inside c (Option.mem_toList.mp there)) d inner

/-- A draft for a node that is no declaration. -/
theorem bears_of_origin (stmt : d.node.stmt = some n.id) (origin : d.origin = some n)
    (inside : n ∈ root.preorder) (other : ∀ m decl, n ≠ .declStmt m decl) : d.Bears root where
  stmt := by rw [stmt, origin]; rfl
  among := by simpa [origin] using inside
  spec m decl _ _ _ same := absurd (Option.some.inj (origin.symm.trans same)) (other m decl)

theorem bears_of_none (stmt : d.node.stmt = none) (origin : d.origin = none) : d.Bears root where
  stmt := by rw [stmt, origin]; rfl
  among := by simp [origin]
  spec := by simp [origin]

theorem generic_bears (inside : n ∈ root.preorder) (other : ∀ m decl, n ≠ .declStmt m decl) :
    ∀ d ∈ generic u k counted n, d.Bears root :=
  List.forall_mem_cons.mpr ⟨bears_of_origin rfl rfl inside other, operands_bear inside⟩

theorem assign_bears {m : Mark} {op : Source.AssignOp} {targets values : List Node}
    (inside : Node.assign m op targets values ∈ root.preorder) :
    ∀ d ∈ assign u k counted (.assign m op targets values), d.Bears root := by
  have value {v : Node} (member : v ∈ values) : v ∈ root.preorder :=
    Node.preorder_trans (Node.child_preorder (by simp [Node.children, member]) v.self_mem_preorder) inside
  unfold assign
  split
  · rename_i same
    cases same
    refine List.forall_mem_cons.mpr ⟨bears_of_origin rfl rfl inside (by simp), optOperands_bear ?_⟩
    simpa using value (List.mem_singleton_self _)
  · rename_i same
    cases same
    split
    · exact List.forall_mem_cons.mpr
        ⟨bears_of_origin rfl rfl inside (by simp), operands_bear (value (List.mem_singleton_self _))⟩
    · exact generic_bears inside (by simp)
  · exact generic_bears inside (by simp)

theorem exprStmt_bears {m : Mark} {x : Node} (inside : Node.exprStmt m x ∈ root.preorder) :
    ∀ d ∈ exprStmt u k counted (.exprStmt m x) x, d.Bears root := by
  unfold exprStmt
  split
  · rename_i mark callee args spread stripped
    have call : Node.call mark callee args spread ∈ root.preorder := by
      refine Node.preorder_trans (Node.child_preorder (c := x) (by simp [Node.children]) ?_) inside
      exact u.scope.strip_subset_preorder x (stripped ▸ Node.self_mem_preorder _)
    refine List.forall_mem_cons.mpr ⟨?_, fun d member => ?_⟩
    · split <;> exact bears_of_origin rfl rfl call (by simp)
    · obtain ⟨arg, there, inner⟩ := List.mem_flatMap.mp member
      refine operands_bear (Node.preorder_trans ?_ call) d inner
      exact Node.child_preorder (List.mem_cons_of_mem _ there) arg.self_mem_preorder
  · exact generic_bears inside (by simp)

theorem declStmt_bears {m : Mark} {decl : Node} (inside : Node.declStmt m decl ∈ root.preorder) :
    ∀ d ∈ declStmt u k counted (.declStmt m decl) decl, d.Bears root := by
  unfold declStmt
  split
  · rename_i spec var init single
    refine List.forall_mem_cons.mpr ⟨⟨rfl, by simpa [draft] using inside, ?_⟩, optOperands_bear ?_⟩
    · intro m' decl' spec' var' init' origin again
      cases origin
      rw [single] at again
      cases again
      exact List.mem_cons_of_mem _ (List.mem_singleton_self _)
    · obtain ⟨dm, kind, sm, isConst, name, t, values, rfl, -, -, rfl, -⟩ := singleSpec?_eq single
      intro c there
      have value : c ∈ values := List.mem_of_head? there
      refine Node.preorder_trans ?_ inside
      refine Node.child_preorder (List.mem_singleton_self _) ?_
      refine Node.child_preorder (List.mem_singleton_self _) ?_
      exact Node.child_preorder (by simp [Node.children, value]) c.self_mem_preorder
  · rename_i several
    refine List.forall_mem_cons.mpr ⟨⟨rfl, by simpa [genericDraft, draft] using inside, ?_⟩,
      operands_bear inside⟩
    intro m' decl' spec' var' init' origin again
    cases origin
    rw [several] at again
    cases again

end Bears

theorem lower_bears (root : Node) (counted : Bool) : ∀ d ∈ lower u k counted root, d.Bears root := by
  have holds : Holds u k (· ∈ root.preorder) (Draft.Bears root) := {
    child := fun n inside c child => Node.preorder_trans (Node.child_preorder child c.self_mem_preorder) inside
    blockEnd := fun _ => bears_of_none rfl rfl
    elseHeader := fun _ => bears_of_none rfl rfl
    header := fun n _ inside compound => bears_of_origin rfl rfl inside fun m decl same => by
      rw [same] at compound
      cases compound
    operand := fun n _ inside => operands_bear inside
    plain := fun n counted inside plain => by
      refine lower_plain_cases (P := fun drafts => ∀ d ∈ drafts, d.Bears root) plain (List.forall_mem_nil _) ?_ ?_ ?_
        (generic_bears inside)
      · rintro m decl rfl
        exact declStmt_bears inside
      · rintro m op targets values rfl
        exact assign_bears inside
      · rintro m x rfl
        exact exprStmt_bears inside }
  exact holds.lower root root.self_mem_preorder counted

/-! ## The table -/

/-- The number of a writer leads back to the node that stands for it. -/
theorem NamesOnce.lookup (once : NamesOnce writer ids drafts) {i : Nat} {d : Draft} {s : NodeId}
    (listed : drafts[i]? = some d) (named : s ∈ d.names) (writes : writer s) :
    (nodeTable drafts).lookup s = some (i : OpId) := by
  obtain ⟨source, found⟩ := exists_lookup listed named
  obtain ⟨j, e, rfl, listed', named'⟩ := mem_nodeTable found
  obtain ⟨here, rfl⟩ := List.getElem?_eq_some_iff.mp listed
  obtain ⟨there, rfl⟩ := List.getElem?_eq_some_iff.mp listed'
  have pairs := List.pairwise_iff_getElem.mp once.once
  rcases Nat.lt_trichotomy i j with before | rfl | after
  · exact absurd writes (pairs i j here there before s named named')
  · exact found
  · exact absurd writes (pairs j i there here after s named' named)

end Lowering

end Retarget
