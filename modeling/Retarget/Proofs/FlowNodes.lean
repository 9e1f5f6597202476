/-
# Proofs.FlowNodes -- a flow graph holds each node of a body at most once

A statement is threaded into blocks by a program that changes a draft.  What the program adds to
the blocks is counted: no number comes in more often than it occurs in the statement (`Adds`).
The count does not care into which blocks nodes go and in which order, so it holds for every
statement, jumps and labels included (`stmt_adds`); the clause of a switch that is threaded last
is counted when it is threaded.

Dropping blocks drops nodes and never repeats one.  So where the numbers of a tree are distinct,
those of its flow graph are (`statements_nodup`), and they are numbers of the body or that of the
return implied at its end (`mem_statements`).
-/
import Retarget.Flow.Build
import Retarget.Proofs.SyntaxNumbers
import Mathlib.Data.List.Flatten
import Mathlib.Data.List.Pairwise

namespace Retarget

open Retarget.Source (Node NodeId Mark BranchKind)

set_option autoImplicit false
set_option linter.dupNamespace false

/-- The nodes of a draft, block by block. -/
def FlowDraft.nodes (d : FlowDraft) : List NodeId := d.blocks.flatMap (·.nodes)

namespace Drafting

/-! ## Counting -/

/-- The program brings no number in more often than it occurs in `ids`. -/
def Adds {α : Type} (ids : List NodeId) (p : Drafting α) : Prop :=
  ∀ d i, (p.run d).2.nodes.count i ≤ d.nodes.count i + ids.count i

variable {α β : Type} {p : Drafting α} {f : α → Drafting β} {a b ids : List NodeId}

namespace Adds

theorem ret (x : α) : Adds [] (pure x : Drafting α) := fun _ _ => Nat.le_refl _

theorem mono (adds : Adds a p) (le : ∀ i, a.count i ≤ b.count i) : Adds b p := fun d i =>
  Nat.le_trans (adds d i) (Nat.add_le_add_left (le i) _)

theorem bind (first : Adds a p) (next : ∀ x, Adds b (f x)) : Adds (a ++ b) (p >>= f) := by
  intro d i
  have one := first d i
  have two := next (p.run d).1 (p.run d).2 i
  rw [List.count_append]
  exact Nat.le_trans two (by omega)

theorem weaken (none : Adds [] p) : Adds ids p := none.mono fun _ => Nat.zero_le _

/-- A step that adds nothing. -/
theorem after (first : Adds [] p) (next : ∀ x, Adds ids (f x)) : Adds ids (p >>= f) :=
  first.bind next

/-- A last step that adds nothing. -/
theorem before (first : Adds ids p) (next : ∀ x, Adds [] (f x)) : Adds ids (p >>= f) :=
  (first.bind next).mono fun i => by simp

theorem ite {c : Prop} [Decidable c] {q : Drafting α} (one : Adds ids p) (two : Adds ids q) :
    Adds ids (if c then p else q) := by
  split
  · exact one
  · exact two

end Adds

/-! ## Steps -/

theorem newBlock_adds (kind : BlockKind) (owner : Option NodeId) : Adds [] (newBlock kind owner) := by
  intro d i
  change List.count i ((d.blocks ++ [({ kind := kind, owner := owner } : DraftBlock)]).flatMap
    (·.nodes)) ≤ _
  simp [FlowDraft.nodes]

theorem count_modify (blocks : List DraftBlock) (current : Nat) (f : DraftBlock → DraftBlock) (i : NodeId) (extra : Nat)
    (each : ∀ b : DraftBlock, (f b).nodes.count i ≤ b.nodes.count i + extra) :
    ((blocks.modify current f).flatMap (·.nodes)).count i ≤
      (blocks.flatMap (·.nodes)).count i + extra := by
  induction blocks generalizing current with
  | nil => simp
  | cons b blocks ih =>
      cases current with
      | zero =>
          have := each b
          simp only [List.modify_zero_cons, List.flatMap_cons, List.count_append]
          omega
      | succ current =>
          have := ih current
          simp only [List.modify_succ_cons, List.flatMap_cons, List.count_append]
          omega

theorem modifyCurrent_adds (change : DraftBlock → DraftBlock) (each : ∀ b i, (change b).nodes.count i ≤ b.nodes.count i + ids.count i) :
    Adds ids (modifyCurrent change) := fun d i => count_modify d.blocks d.current change i _ fun b => each b i

theorem add_adds (n : NodeId) : Adds [n] (add n) :=
  modifyCurrent_adds _ fun _ _ => Nat.le_of_eq List.count_append

theorem jump_adds (target : Nat) : Adds [] (jump target) := modifyCurrent_adds _ fun _ _ => Nat.le_refl _

theorem goOn_adds (block : Nat) : Adds [] (goOn block) := fun _ _ => Nat.le_refl _

theorem cutOff_adds (owner : NodeId) : Adds [] (cutOff owner) :=
  (newBlock_adds _ _).after fun _ => goOn_adds _

theorem labelNamed_adds (name : String) : Adds [] (labelNamed name) := by
  refine Adds.after (fun _ _ => Nat.le_refl _) fun d => ?_
  split
  · exact .ret _
  · exact (newBlock_adds _ _).after fun _ => Adds.after (fun _ _ => Nat.le_refl _) fun _ => .ret _

theorem placeLabel_adds (l : DraftLabel) (owner : NodeId) : Adds [] (placeLabel l owner) :=
  (jump_adds _).after fun _ => (goOn_adds _).after fun _ => modifyCurrent_adds _ fun _ _ => Nat.le_refl _

theorem aim_adds (label : Option String) (exit : Nat) (next : Option Nat) : Adds [] (aim label exit next) := by
  cases label with
  | none => exact .ret _
  | some name => exact fun _ _ => Nat.le_refl _

theorem jumpTarget_adds (targets : List JumpTargets) (kind : BranchKind) (label : Option String) :
    Adds [] (jumpTarget targets kind label) := by
  have named {γ : Type} (name : String) (read : DraftLabel → γ) :
      Adds [] (do return read (← labelNamed name) : Drafting γ) :=
    (labelNamed_adds name).after fun _ => .ret _
  unfold jumpTarget
  split
  · exact named _ _
  · exact named _ _
  · exact named _ _
  · exact .ret _
  · exact .ret _
  · exact .ret _
  · exact .ret _

theorem branch_adds (targets : List JumpTargets) (id : NodeId) (kind : BranchKind)
    (label : Option Node) : Adds [] (branch targets id kind label) := by
  refine (jumpTarget_adds _ _ _).after fun t => ?_
  have leave (t : Nat) : Adds [] (do jump t; cutOff id : Drafting Unit) :=
    (jump_adds t).after fun _ => cutOff_adds id
  split
  · exact (Adds.ret _).after leave
  · exact (newBlock_adds _ _).after leave

theorem forM_add_adds (ns : List NodeId) : Adds ns (ns.forM add) := by
  induction ns with
  | nil => exact .ret _
  | cons n ns ih => exact (add_adds n).bind fun _ => ih

theorem caseTests_adds (clause : NodeId) (body : Nat) (values : List Node) :
    Adds (values.map Node.id) (caseTests clause body values) := by
  induction values with
  | nil => exact .ret _
  | cons v values ih =>
      refine (newBlock_adds _ _).after fun next => ?_
      exact (add_adds v.id).bind fun _ => (jump_adds _).after fun _ => (jump_adds _).after fun _ =>
        (goOn_adds _).after fun _ => ih

theorem clauseBlock_adds (reserved : Option Nat) (clause : Node) (following : Option Node)
    (done : Nat) : Adds [] (clauseBlock reserved clause following done) := by
  have goesTo {m : Drafting Nat} (adds : Adds [] m) (body : Nat) :
      Adds [] (do return (body, ← m) : Drafting (Nat × Nat)) :=
    adds.after fun _ => .ret _
  cases following with
  | none =>
      have next := goesTo (Adds.ret done)
      cases reserved with
      | none => exact (newBlock_adds _ _).after next
      | some b => exact (Adds.ret _).after next
  | some c =>
      have next := goesTo (newBlock_adds .switchCaseBody (some c.id))
      cases reserved with
      | none => exact (newBlock_adds _ _).after next
      | some b => exact (Adds.ret _).after next

/-! ## Statements -/

theorem count_id_le (n : Node) (i : NodeId) : [n.id].count i ≤ n.ids.count i := by
  rw [Node.ids_eq, List.count_cons, List.count_cons]
  simp

theorem count_map_id_le (ns : List Node) (i : NodeId) :
    (ns.map Node.id).count i ≤ (Node.idsAll ns).count i := by
  induction ns with
  | nil => exact Nat.le_refl _
  | cons n ns ih =>
      have head := count_id_le n i
      simp only [List.map_cons, Node.idsAll_cons, List.count_append, List.count_cons, List.count_nil]
        at head ⊢
      omega

/-- A statement holds at least what its children hold. -/
theorem count_children_le (n : Node) (i : NodeId) :
    (Node.idsAll n.children).count i ≤ n.ids.count i := by
  rw [Node.ids_eq, List.count_cons]
  exact Nat.le_add_right _ _

section Parts

variable {panics : Bool} {targets : List JumpTargets} {label : Option String} {m : Mark}
  {init cond post orElse key value tag : Option Node} {test x body : Node}

theorem ifStmt_adds (first : Adds (Node.idsAll init.toList) (stmtOpt panics targets init))
    (inner : Adds body.ids (stmt panics targets none body))
    (other : Adds (Node.idsAll orElse.toList) (stmtOpt panics targets orElse)) :
    Adds (Node.ifStmt m init test body orElse).ids
      (stmt panics targets label (.ifStmt m init test body orElse)) := by
  have whole : Adds (Node.idsAll init.toList ++ ([test.id] ++ (body.ids ++ Node.idsAll orElse.toList)))
      (stmt panics targets label (.ifStmt m init test body orElse)) := by
    dsimp only [stmt]
    refine first.bind fun _ => (newBlock_adds _ _).after fun then_ => (newBlock_adds _ _).after
      fun done => .ite ((newBlock_adds _ _).after fun else_ => ?_) ((Adds.ret _).after fun else_ => ?_)
    all_goals
      refine (add_adds _).bind fun _ => (jump_adds _).after fun _ => (jump_adds _).after fun _ =>
        (goOn_adds _).after fun _ => inner.bind fun _ => (jump_adds _).after fun _ => .ite ?_ ?_
      · exact (goOn_adds _).after fun _ => other.before fun _ => (jump_adds _).after fun _ =>
          goOn_adds _
      · exact (goOn_adds _).weaken
  refine whole.mono fun i => Nat.le_trans ?_ (count_children_le _ i)
  have := count_id_le test i
  simp only [Node.children, Node.idsAll_append, Node.idsAll_cons, List.count_append]
  omega

theorem forStmt_adds (first : Adds (Node.idsAll init.toList) (stmtOpt panics targets init))
    (inner : ∀ targets, Adds body.ids (stmt panics targets none body))
    (last : Adds (Node.idsAll post.toList) (stmtOpt panics targets post)) :
    Adds (Node.forStmt m init cond post body).ids
      (stmt panics targets label (.forStmt m init cond post body)) := by
  have whole : Adds (Node.idsAll init.toList ++
        (cond.toList.map Node.id ++ (body.ids ++ Node.idsAll post.toList)))
      (stmt panics targets label (.forStmt m init cond post body)) := by
    dsimp only [stmt]
    refine first.bind fun _ => (newBlock_adds _ _).after fun inside => (newBlock_adds _ _).after
      fun done => .ite ((newBlock_adds _ _).after fun test => ?_) ((Adds.ret _).after fun test => ?_)
    all_goals
      refine .ite ((newBlock_adds _ _).after fun again => ?_) ((Adds.ret _).after fun again => ?_)
    all_goals
      have turn := (inner ({ exit := some done, next := some again } :: targets)).bind fun _ =>
        (jump_adds again).after fun _ => Adds.ite (c := post.isSome = true)
          ((goOn_adds again).after fun _ => last.before fun _ => (jump_adds test).after fun _ =>
            goOn_adds done) (goOn_adds done).weaken
      refine (aim_adds _ _ _).after fun _ => (jump_adds _).after fun _ => (goOn_adds _).after
        fun _ => ?_
      cases cond with
      | none => exact turn
      | some c =>
          exact (add_adds _).bind fun _ => (jump_adds _).after fun _ => (jump_adds _).after fun _ =>
            (goOn_adds _).after fun _ => turn
  refine whole.mono fun i => Nat.le_trans ?_ (count_children_le _ i)
  have test := count_map_id_le cond.toList i
  simp only [Node.children, Node.idsAll_append, Node.idsAll_cons, Node.idsAll_nil, List.count_append,
    List.append_nil]
  omega

theorem rangeStmt_adds (inner : ∀ targets, Adds body.ids (stmt panics targets none body)) :
    Adds (Node.rangeStmt m key value x body).ids
      (stmt panics targets label (.rangeStmt m key value x body)) := by
  have whole : Adds ([m.id] ++ body.ids)
      (stmt panics targets label (.rangeStmt m key value x body)) := by
    dsimp only [stmt]
    exact (newBlock_adds _ _).after fun test => (jump_adds _).after fun _ => (goOn_adds _).after
      fun _ => (newBlock_adds _ _).after fun inside => (newBlock_adds _ _).after fun done =>
      (add_adds _).bind fun _ => (jump_adds _).after fun _ => (jump_adds _).after fun _ =>
      (aim_adds _ _ _).after fun _ => (goOn_adds _).after fun _ => (inner _).before fun _ =>
      (jump_adds _).after fun _ => goOn_adds _
  refine whole.mono fun i => ?_
  rw [Node.ids_eq (.rangeStmt ..)]
  simp only [Node.children, Node.idsAll_append, Node.idsAll_cons, Node.idsAll_nil, List.count_append,
    List.append_nil, List.count_cons, List.count_nil, Node.id, Node.mark]
  omega

theorem switchStmt_adds (first : Adds (Node.idsAll init.toList) (stmtOpt panics targets init))
    (inner : ∀ done, Adds body.ids (clauses panics targets done body)) :
    Adds (Node.switchStmt m init tag body).ids
      (stmt panics targets label (.switchStmt m init tag body)) := by
  have whole : Adds (Node.idsAll init.toList ++ (tag.toList.map Node.id ++ body.ids))
      (stmt panics targets label (.switchStmt m init tag body)) := by
    have rest := (newBlock_adds .switchDone (some m.id)).after fun done =>
      (aim_adds label done none).after fun _ => (inner done).before fun _ => (jump_adds done).after
      fun _ => goOn_adds done
    dsimp only [stmt]
    refine first.bind fun _ => ?_
    cases tag with
    | none => exact rest
    | some t => exact (add_adds _).bind fun _ => rest
  refine whole.mono fun i => Nat.le_trans ?_ (count_children_le _ i)
  have test := count_map_id_le tag.toList i
  simp only [Node.children, Node.idsAll_append, Node.idsAll_cons, Node.idsAll_nil, List.count_append,
    List.append_nil]
  omega

/-- A list of clauses is threaded in part; the rest is left in the program it returns. -/
def AddsLater (ids : List NodeId) (p : Drafting (Option (Drafting Unit))) : Prop :=
  ∀ d, ∃ now later : List NodeId, (∀ i, now.count i + later.count i ≤ ids.count i) ∧
    (∀ i, (p.run d).2.nodes.count i ≤ d.nodes.count i + now.count i) ∧
    ∀ q ∈ (p.run d).1, Adds later q

namespace AddsLater

variable {p : Drafting (Option (Drafting Unit))} {f : α → Drafting (Option (Drafting Unit))}
  {first : Drafting α}

theorem nothing : AddsLater [] (pure none) := fun _ =>
  ⟨[], [], fun _ => Nat.le_refl _, fun _ => Nat.le_refl _, nofun⟩

theorem mono (adds : AddsLater a p) (le : ∀ i, a.count i ≤ b.count i) : AddsLater b p := by
  intro d
  obtain ⟨now, later, bound, threaded, rest⟩ := adds d
  exact ⟨now, later, fun i => Nat.le_trans (bound i) (le i), threaded, rest⟩

theorem bind (adds : Adds a first) (next : ∀ x, AddsLater b (f x)) :
    AddsLater (a ++ b) (first >>= f) := by
  intro d
  obtain ⟨now, later, bound, threaded, rest⟩ := next (first.run d).1 (first.run d).2
  refine ⟨a ++ now, later, fun i => ?_, fun i => ?_, rest⟩
  · have := bound i
    simp only [List.count_append]
    omega
  · have one := adds d i
    rw [List.count_append]
    exact Nat.le_trans (threaded i) (by omega)

theorem after (adds : Adds [] first) (next : ∀ x, AddsLater ids (f x)) :
    AddsLater ids (first >>= f) := bind adds next

/-- A default clause waits for the others, unless a later one takes its place. -/
theorem default {here : Drafting Unit} (rest : AddsLater b p) (waits : Adds a here) :
    AddsLater (a ++ b) (p >>= fun later => pure (later.or (some here))) := by
  intro d
  obtain ⟨now, later, bound, threaded, left⟩ := rest d
  refine ⟨now, a ++ later, fun i => ?_, threaded, fun q listed => ?_⟩
  · have := bound i
    simp only [List.count_append]
    omega
  · have listed : q ∈ ((p.run d).1).or (some here) := listed
    cases found : (p.run d).1 with
    | none =>
        obtain rfl : here = q := by simpa [found] using listed
        exact waits.mono fun i => by simp
    | some r =>
        obtain rfl : r = q := by simpa [found] using listed
        exact (left r found).mono fun i => by simp

/-- Everything is threaded in the end. -/
theorem finish (adds : AddsLater ids p) : Adds ids (do
    match ← p with
    | some last => last
    | none => return) := by
  intro d i
  obtain ⟨now, later, bound, threaded, rest⟩ := adds d
  have whole := bound i
  have first := threaded i
  change ((match (p.run d).1 with
    | some last => last
    | none => pure () : Drafting Unit).run (p.run d).2).2.nodes.count i ≤ _
  cases found : (p.run d).1 with
  | none =>
      change (p.run d).2.nodes.count i ≤ _
      omega
  | some last =>
      have second := rest last found (p.run d).2 i
      exact Nat.le_trans second (by omega)

end AddsLater

theorem clause_addsLater {done : Nat} {reserved : Option Nat} {values stmts rest : List Node}
    (inner : ∀ targets, Adds (Node.idsAll stmts) (stmtAll panics targets stmts))
    (others : ∀ reserved, AddsLater (Node.idsAll rest) (clauseAll panics targets done reserved rest)) :
    AddsLater (Node.idsAll (.caseClause m values stmts :: rest))
      (clauseAll panics targets done reserved (.caseClause m values stmts :: rest)) := by
  have whole : AddsLater (values.map Node.id ++ (Node.idsAll stmts ++ Node.idsAll rest))
      (clauseAll panics targets done reserved (.caseClause m values stmts :: rest)) := by
    unfold clauseAll
    refine .after (clauseBlock_adds _ _ _ _) fun (body, after) => ?_
    cases values with
    | nil =>
        exact (others _).default ((jump_adds _).after fun _ => (goOn_adds _).after fun _ => inner _)
    | cons v values =>
        refine .bind (caseTests_adds _ _ _) fun _ => ?_
        refine .after (fun _ _ => Nat.le_refl _) fun _ => ?_
        exact .after (goOn_adds _) fun _ => .bind (inner _) fun _ => .after (jump_adds _) fun _ =>
          .after (goOn_adds _) fun _ => others _
  refine whole.mono fun i => ?_
  have tests := count_map_id_le values i
  have below := count_children_le (.caseClause m values stmts) i
  simp only [Node.children, Node.idsAll_append, Node.idsAll_cons, List.count_append] at below ⊢
  omega

end Parts

theorem count_specNode?_le (specs : List Node) (i : NodeId) :
    (specs.filterMap specNode?).count i ≤ (Node.idsAll specs).count i := by
  refine Nat.le_trans (List.Sublist.count_le i ?_) (count_map_id_le specs i)
  induction specs with
  | nil => exact .slnil
  | cons s specs ih =>
      rw [List.filterMap_cons]
      unfold specNode?
      split
      · exact ih.cons _
      · rename_i found
        split at found
        · cases found
          exact ih.cons_cons _
        · cases found

theorem declStmt_adds {panics : Bool} {targets : List JumpTargets} {label : Option String} {m : Mark}
    {decl : Node} :
    Adds (Node.declStmt m decl).ids (stmt panics targets label (.declStmt m decl)) := by
  cases decl with
  | decl dm kind specs =>
      dsimp only [stmt]
      refine Adds.ite (.mono (forM_add_adds _) fun i => ?_) (Adds.ret _).weaken
      refine Nat.le_trans (count_specNode?_le specs i) ?_
      have inner := count_children_le (.decl dm kind specs) i
      have outer := count_children_le (.declStmt m (.decl dm kind specs)) i
      simp only [Node.children, Node.idsAll_cons, Node.idsAll_nil, List.append_nil] at inner outer
      exact Nat.le_trans inner outer
  | _ =>
      dsimp only [stmt]
      exact (add_adds _).mono fun i => count_id_le (.declStmt m _) i

theorem exprStmt_adds {panics : Bool} {targets : List JumpTargets} {label : Option String} {m : Mark}
    {x : Node} : Adds (Node.exprStmt m x).ids (stmt panics targets label (.exprStmt m x)) := by
  dsimp only [stmt]
  refine Adds.mono (a := [m.id]) ?_ fun i => count_id_le (.exprStmt m x) i
  exact (add_adds _).before fun _ => .ite (cutOff_adds _) (.ret _)

mutual

theorem stmt_adds (panics : Bool) (targets : List JumpTargets) (label : Option String) (n : Node) :
    Adds n.ids (stmt panics targets label n) := by
  cases n with
  | block m stmts =>
      dsimp only [stmt]
      exact (stmtAll_adds panics targets stmts).mono fun i => count_children_le (.block m stmts) i
  | labeled m l s =>
      dsimp only [stmt]
      refine Adds.mono ?_ fun i => count_children_le (.labeled m l s) i
      refine (labelNamed_adds _).after fun _ => (placeLabel_adds _ _).after fun _ => ?_
      refine (stmt_adds panics targets _ s).mono fun i => ?_
      simp [Node.children, List.count_append]
  | ret m results =>
      dsimp only [stmt]
      exact ((add_adds _).before fun _ => cutOff_adds _).mono fun i => count_id_le (.ret m results) i
  | branch m kind l =>
      dsimp only [stmt]
      exact (branch_adds _ _ _ _).weaken
  | ifStmt m init test body orElse =>
      exact ifStmt_adds (stmtOpt_adds panics targets init) (stmt_adds panics targets none body)
        (stmtOpt_adds panics targets orElse)
  | forStmt m init cond post body =>
      exact forStmt_adds (stmtOpt_adds panics targets init)
        (fun targets => stmt_adds panics targets none body) (stmtOpt_adds panics targets post)
  | rangeStmt m key value x body =>
      exact rangeStmt_adds fun targets => stmt_adds panics targets none body
  | switchStmt m init tag body =>
      exact switchStmt_adds (stmtOpt_adds panics targets init)
        fun done => clauses_adds panics targets done body
  | declStmt => exact declStmt_adds
  | exprStmt => exact exprStmt_adds
  | _ =>
      dsimp only [stmt]
      exact (add_adds _).mono fun i => count_id_le _ i

theorem stmtAll_adds (panics : Bool) (targets : List JumpTargets) (ns : List Node) :
    Adds (Node.idsAll ns) (stmtAll panics targets ns) := by
  cases ns with
  | nil => exact .ret _
  | cons n ns => exact (stmt_adds panics targets none n).bind fun _ => stmtAll_adds panics targets ns

theorem stmtOpt_adds (panics : Bool) (targets : List JumpTargets) (n : Option Node) :
    Adds (Node.idsAll n.toList) (stmtOpt panics targets n) := by
  cases n with
  | none => exact .ret _
  | some n => exact (stmt_adds panics targets none n).mono fun i => by simp

theorem clauses_adds (panics : Bool) (targets : List JumpTargets) (done : Nat) (n : Node) :
    Adds n.ids (clauses panics targets done n) := by
  cases n with
  | block m list =>
      unfold clauses
      exact (clauseAll_adds panics targets done none list).finish.mono fun i =>
        count_children_le (.block m list) i
  | _ => exact (Adds.ret _).weaken

theorem clauseAll_adds (panics : Bool) (targets : List JumpTargets) (done : Nat)
    (reserved : Option Nat) (ns : List Node) :
    AddsLater (Node.idsAll ns) (clauseAll panics targets done reserved ns) := by
  cases ns with
  | nil => exact .nothing
  | cons n ns =>
      cases n with
      | caseClause m values stmts =>
          exact clause_addsLater (fun targets => stmtAll_adds panics targets stmts)
            fun reserved => clauseAll_adds panics targets done reserved ns
      | _ =>
          unfold clauseAll
          exact (clauseAll_adds panics targets done reserved ns).mono fun i => by
            simp [List.count_append]

end

end Drafting

/-! ## Flow graphs -/

namespace FlowDraft

variable (d : FlowDraft)

/-- The nodes of the block with this number, if there is one. -/
def nodesAt (i : Nat) : List NodeId := ((d.blocks[i]?).map (·.nodes)).getD []

theorem flatMap_nodesAt : (List.range d.blocks.length).flatMap d.nodesAt = d.nodes := by
  obtain ⟨blocks, current, labels⟩ := d
  suffices all : ∀ bs : List DraftBlock, (List.range bs.length).flatMap
      (fun i => ((bs[i]?).map (·.nodes)).getD []) = bs.flatMap (·.nodes) from all blocks
  intro bs
  induction bs with
  | nil => rfl
  | cons b bs ih =>
      rw [List.length_cons, List.range_succ_eq_map, List.flatMap_cons, List.flatMap_map,
        List.flatMap_cons, ← ih]
      rfl

/-- Numbering the blocks anew keeps their nodes. -/
theorem statements_finish (live : List Nat) :
    (d.finish live).statements = live.flatMap d.nodesAt := by
  simp only [FlowGraph.statements, finish, List.flatMap_append, List.flatMap_cons, List.flatMap_nil,
    List.append_nil, List.filterMap_eq_flatMap_toList, List.flatMap_assoc]
  refine List.flatMap_congr fun i _ => ?_
  unfold nodesAt
  cases d.blocks[i]? <;> simp

theorem statements_finish_sublist {live : List Nat} (kept : live.Sublist (List.range d.blocks.length)) :
    (d.finish live).statements.Sublist d.nodes := by
  rw [statements_finish, ← flatMap_nodesAt]
  exact kept.flatMap _

end FlowDraft

/-- A flow graph has no node more often than the body and the return implied at its end. -/
theorem count_statements_le (panics : Bool) (body : Node) (fallOff i : NodeId) :
    (flowGraphOf panics body fallOff).statements.count i ≤ (body.ids ++ [fallOff]).count i := by
  let program : Drafting Unit := do
    let _ ← Drafting.newBlock .body none
    Drafting.stmt panics [] none body
  have threaded : Drafting.Adds body.ids program :=
    (Drafting.newBlock_adds _ _).after fun _ => Drafting.stmt_adds panics [] none body
  let draft := (program.run {}).2
  have start : draft.nodes.count i ≤ body.ids.count i := by
    simpa [FlowDraft.nodes] using threaded {} i
  have closing : ((Drafting.add fallOff).run draft).2.nodes.count i
      ≤ draft.nodes.count i + [fallOff].count i := Drafting.add_adds fallOff draft i
  have same : ((Drafting.add fallOff).run draft).2.blocks.length = draft.blocks.length :=
    List.length_modify ..
  let live := (List.range draft.blocks.length).filter (explore draft.succs draft.blocks.length [0]).contains
  have kept : live.Sublist (List.range draft.blocks.length) := List.filter_sublist
  rw [List.count_append]
  change ((if live.contains draft.current then ((Drafting.add fallOff).run draft).2 else draft).finish
    live).statements.count i ≤ _
  split
  · have below := ((Drafting.add fallOff).run draft).2.statements_finish_sublist (same ▸ kept)
    have := below.count_le i
    omega
  · have below := draft.statements_finish_sublist kept
    have := below.count_le i
    omega

/-! ## Kernels of a unit -/

namespace KernelFn

/-- The trees of a kernel: its body and the return implied at its end. -/
def trees (k : KernelFn) : List Node := k.body.toList ++ if k.hasBody then [k.fallOff] else []

end KernelFn

namespace SourceUnit

variable {u : SourceUnit} {k k' : KernelFn} {flow flow' : FlowGraph} {s : NodeId}

theorem count_flowGraph?_le (found : u.flowGraph? k = some flow) (i : NodeId) :
    flow.statements.count i ≤ (Node.idsAll k.trees).count i := by
  obtain ⟨body, has, rfl⟩ := Option.map_eq_some_iff.mp found
  have bound := count_statements_le (u.named? "panic").isSome body k.fallOff.id i
  have last := Drafting.count_id_le k.fallOff i
  simp only [KernelFn.trees, KernelFn.hasBody, has, Option.toList_some, Option.isSome_some, if_true,
    Node.idsAll_append, Node.idsAll_cons, Node.idsAll_nil, List.append_nil, List.count_append] at bound ⊢
  omega

theorem mem_ids_of_statement (found : u.flowGraph? k = some flow) (stands : s ∈ flow.statements) :
    s ∈ Node.idsAll k.trees :=
  List.count_pos_iff.mp (Nat.lt_of_lt_of_le (List.count_pos_iff.mpr stands) (count_flowGraph?_le found s))

namespace Numbered

variable (numbered : u.Numbered)

include numbered

theorem kernels_nodup : (u.kernels.flatMap fun k => Node.idsAll k.trees).Nodup := by
  have same : u.nodes.map Node.id = u.kernels.flatMap fun k => Node.idsAll k.trees := by
    rw [nodes, trees, List.flatMap_assoc, List.map_flatMap]
    refine List.flatMap_congr fun k _ => ?_
    rw [List.map_flatMap]
    rfl
  exact same ▸ numbered

/-- No node stands twice in the flow graph of a kernel. -/
theorem statements_nodup (listed : k ∈ u.kernels) (found : u.flowGraph? k = some flow) :
    flow.statements.Nodup := by
  have own := (List.nodup_flatMap.mp numbered.kernels_nodup).1 k listed
  refine List.nodup_iff_count_le_one.mpr fun i => ?_
  exact Nat.le_trans (count_flowGraph?_le found i) (List.nodup_iff_count_le_one.mp own i)

/-- A node stands in the flow graph of one kernel at most. -/
theorem kernel_eq_of_statement (listed : k ∈ u.kernels) (listed' : k' ∈ u.kernels)
    (found : u.flowGraph? k = some flow) (found' : u.flowGraph? k' = some flow')
    (stands : s ∈ flow.statements) (stands' : s ∈ flow'.statements) : k = k' := by
  have apart := (List.nodup_flatMap.mp numbered.kernels_nodup).2
  have : Std.Symm fun k k' : KernelFn => (Node.idsAll k.trees).Disjoint (Node.idsAll k'.trees) :=
    ⟨fun _ _ disjoint _ here there => disjoint there here⟩
  by_contra different
  exact apart.forall listed listed' different (mem_ids_of_statement found stands)
    (mem_ids_of_statement found' stands')

end Numbered

end SourceUnit

end Retarget
