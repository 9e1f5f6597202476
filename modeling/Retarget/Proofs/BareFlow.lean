/-
# Proofs.BareFlow -- the flow graph of a body without parentheses

The flow graph of a body without parentheses is that of the body by other numbers, each of which
goes to a node without parentheses right around it (`flowGraphOf_bare`): threading a statement
without parentheses does to a draft with other numbers what threading the statement does to the
draft (`Follows`).  Only labels and calls that never return are told by what they look like
(`KeepsControl`).
-/
import Retarget.Proofs.FlowDraft
import Retarget.Proofs.FlowNodes
import Retarget.Proofs.FlowRenaming
import Retarget.Proofs.Parentheses
import Mathlib.Data.Option.Basic

namespace Retarget

open Retarget.Source (Node NodeId Mark BranchKind)

set_option autoImplicit false
set_option linter.dupNamespace false

/-! ## Drafts with other numbers -/

def DraftBlock.relabel (ρ : NodeId → NodeId) (b : DraftBlock) : DraftBlock :=
  { b with nodes := b.nodes.map ρ, owner := b.owner.map ρ }

def FlowDraft.relabel (ρ : NodeId → NodeId) (d : FlowDraft) : FlowDraft :=
  { d with blocks := d.blocks.map (DraftBlock.relabel ρ) }

namespace Drafting

variable {ρ : NodeId → NodeId} {f : Mark → Mark} {α β γ δ : Type}

/-- The second program does to the draft with other numbers what the first does to the draft, with
related results. -/
def Follows (ρ : NodeId → NodeId) (R : α → β → Prop) (p : Drafting α) (q : Drafting β) : Prop :=
  ∀ d, R (p.run d).1 (q.run (d.relabel ρ)).1 ∧ (q.run (d.relabel ρ)).2 = (p.run d).2.relabel ρ

/-- With the same results. -/
abbrev Mirrors (ρ : NodeId → NodeId) (p q : Drafting α) : Prop := Follows ρ Eq p q

theorem Follows.bind {R : α → β → Prop} {S : γ → δ → Prop} {p : Drafting α} {q : Drafting β}
    {f : α → Drafting γ} {g : β → Drafting δ} (first : Follows ρ R p q)
    (next : ∀ x y, R x y → Follows ρ S (f x) (g y)) : Follows ρ S (p >>= f) (q >>= g) := by
  intro d
  obtain ⟨related, drafts⟩ := first d
  have rest := next _ _ related (p.run d).2
  rw [← drafts] at rest
  exact rest

namespace Follows

theorem ret {R : α → β → Prop} {x : α} {y : β} (related : R x y) : Follows ρ R (pure x) (pure y) :=
  fun _ => ⟨related, rfl⟩

theorem ite {R : α → β → Prop} {c : Prop} [Decidable c] {p p' : Drafting α} {q q' : Drafting β}
    (one : Follows ρ R p q) (two : Follows ρ R p' q') :
    Follows ρ R (if c then p else p') (if c then q else q') := by
  split
  · exact one
  · exact two

end Follows

variable {p q : Drafting α}

theorem Mirrors.bind {S : γ → δ → Prop} {f : α → Drafting γ} {g : α → Drafting δ} (first : Mirrors ρ p q)
    (next : ∀ x, Follows ρ S (f x) (g x)) : Follows ρ S (p >>= f) (q >>= g) :=
  Follows.bind first fun x _ same => same ▸ next x

/-! ## Steps -/

theorem push_relabel (d : FlowDraft) (kind : BlockKind) (owner : Option NodeId) :
    push (d.relabel ρ) kind (owner.map ρ) = (push d kind owner).relabel ρ := by
  simp only [push, FlowDraft.relabel, List.map_append]
  rfl

theorem newBlock_mirrors (kind : BlockKind) {owner owner' : NodeId} (own : owner' = ρ owner) :
    Mirrors ρ (newBlock kind (some owner)) (newBlock kind (some owner')) := fun d =>
  ⟨(List.length_map _).symm, own ▸ push_relabel d kind (some owner)⟩

theorem map_modify {f f' : DraftBlock → DraftBlock}
    (commutes : ∀ b : DraftBlock, f' (b.relabel ρ) = (f b).relabel ρ) (blocks : List DraftBlock)
    (i : Nat) : (blocks.map (DraftBlock.relabel ρ)).modify i f'
      = (blocks.modify i f).map (DraftBlock.relabel ρ) := by
  induction blocks generalizing i with
  | nil => simp
  | cons b blocks ih =>
      cases i with
      | zero => simp [commutes]
      | succ i => simp [ih]

theorem modifyCurrent_mirrors {f f' : DraftBlock → DraftBlock}
    (commutes : ∀ b : DraftBlock, f' (b.relabel ρ) = (f b).relabel ρ) :
    Mirrors ρ (modifyCurrent f) (modifyCurrent f') := fun d =>
  ⟨rfl, congrArg (FlowDraft.mk · _ _) (map_modify commutes d.blocks d.current)⟩

theorem add_mirrors {n n' : NodeId} (number : n' = ρ n) : Mirrors ρ (add n) (add n') :=
  modifyCurrent_mirrors fun b => by simp [DraftBlock.relabel, number]

theorem jump_mirrors (target : Nat) : Mirrors ρ (jump target) (jump target) :=
  modifyCurrent_mirrors fun _ => rfl

theorem goOn_mirrors (block : Nat) : Mirrors ρ (goOn block) (goOn block) := fun _ => ⟨rfl, rfl⟩

theorem cutOff_mirrors {owner owner' : NodeId} (own : owner' = ρ owner) :
    Mirrors ρ (cutOff owner) (cutOff owner') :=
  (newBlock_mirrors _ own).bind fun _ => goOn_mirrors _

theorem labelNamed_mirrors (name : String) : Mirrors ρ (labelNamed name) (labelNamed name) := by
  intro d
  have labels : (d.relabel ρ).labels = d.labels := rfl
  rw [labelNamed_run, labelNamed_run, labels]
  cases d.labels.find? (·.name == name) with
  | some l => exact ⟨rfl, rfl⟩
  | none =>
      have length : (d.relabel ρ).blocks.length = d.blocks.length := List.length_map _
      simp only [mention, length, labels]
      refine ⟨trivial, ?_⟩
      rw [show (none : Option NodeId) = Option.map ρ none from rfl, push_relabel]
      rfl

theorem placeLabel_mirrors (l : DraftLabel) {owner owner' : NodeId} (own : owner' = ρ owner) :
    Mirrors ρ (placeLabel l owner) (placeLabel l owner') :=
  (jump_mirrors _).bind fun _ => (goOn_mirrors _).bind fun _ => modifyCurrent_mirrors fun b => by
    cases named : b.owner <;> simp [DraftBlock.relabel, named, own]

theorem aim_mirrors (label : Option String) (exit : Nat) (next : Option Nat) :
    Mirrors ρ (aim label exit next) (aim label exit next) := by
  cases label with
  | none => exact .ret rfl
  | some name => exact fun _ => ⟨rfl, rfl⟩

theorem jumpTarget_mirrors (targets : List JumpTargets) (kind : BranchKind) (label : Option String) :
    Mirrors ρ (jumpTarget targets kind label) (jumpTarget targets kind label) := by
  have named (name : String) {f : DraftLabel → Option Nat} :
      Mirrors ρ (do return f (← labelNamed name)) (do return f (← labelNamed name)) :=
    (labelNamed_mirrors name).bind fun l => Follows.ret rfl
  cases kind <;> cases label <;> first
    | exact .ret rfl
    | exact named _

theorem branch_mirrors (targets : List JumpTargets) {id id' : NodeId} (own : id' = ρ id)
    (kind : BranchKind) {label label' : Option Node}
    (named : label'.bind Node.name? = label.bind Node.name?) :
    Mirrors ρ (branch targets id kind label) (branch targets id' kind label') := by
  unfold branch
  rw [named]
  refine (jumpTarget_mirrors _ _ _).bind fun t => ?_
  cases t with
  | some t => exact (jump_mirrors _).bind fun _ => cutOff_mirrors own
  | none =>
      exact (newBlock_mirrors _ own).bind fun _ =>
        (jump_mirrors _).bind fun _ => cutOff_mirrors own

theorem forM_add_mirrors (ns : List NodeId) : Mirrors ρ (ns.forM add) ((ns.map ρ).forM add) := by
  induction ns with
  | nil => exact .ret rfl
  | cons n ns ih => exact (add_mirrors rfl).bind fun _ => ih

theorem caseTests_mirrors {clause clause' : NodeId} (own : clause' = ρ clause) (body : Nat)
    {values : List Node} (numbers : ∀ v ∈ values, (v.bare f).id = ρ v.id) :
    Mirrors ρ (caseTests clause body values) (caseTests clause' body (Node.bareAll f values)) := by
  induction values with
  | nil => exact .ret rfl
  | cons v values ih =>
      obtain ⟨here, others⟩ := List.forall_mem_cons.mp numbers
      exact (newBlock_mirrors _ own).bind fun next => (add_mirrors here).bind fun _ =>
        (jump_mirrors _).bind fun _ => (jump_mirrors _).bind fun _ => (goOn_mirrors _).bind fun _ =>
          ih others

theorem clauseBlock_mirrors {reserved : Option Nat} {clause clause' : Node}
    {following following' : Option Node} {done : Nat} (own : clause'.id = ρ clause.id)
    (numbers : following'.map Node.id = following.map fun c => ρ c.id) :
    Mirrors ρ (clauseBlock reserved clause following done)
      (clauseBlock reserved clause' following' done) := by
  unfold clauseBlock
  cases following with
  | none =>
      obtain rfl : following' = none := by simpa using numbers
      cases reserved with
      | some b => exact .ret rfl
      | none => exact (newBlock_mirrors _ own).bind fun _ => .ret rfl
  | some c =>
      obtain ⟨c', rfl, same⟩ : ∃ c', following' = some c' ∧ c'.id = ρ c.id := by
        simpa [Option.map_eq_some_iff] using numbers
      cases reserved with
      | some b => exact (newBlock_mirrors _ same).bind fun _ => .ret rfl
      | none =>
          exact (newBlock_mirrors _ own).bind fun _ => (newBlock_mirrors _ same).bind fun _ =>
            .ret rfl

/-! ## Statements -/

/-- What control depends on is told by a node without parentheses as by the node: the name of a
label, and whether a call returns. -/
def KeepsControl (f : Mark → Mark) (panics : Bool) : Node → Prop
  | .exprStmt _ x => neverReturns panics (x.bare f) = neverReturns panics x
  | .labeled _ l _ => (l.bare f).name? = l.name?
  | .branch _ _ (some l) => (l.bare f).name? = l.name?
  | _ => True

instance (f : Mark → Mark) (panics : Bool) (n : Node) : Decidable (KeepsControl f panics n) := by
  unfold KeepsControl
  split <;> infer_instance

/-- The numbers of the other marks are the new numbers, and control is kept. -/
structure Renumbers (f : Mark → Mark) (ρ : NodeId → NodeId) (panics : Bool) (n : Node) : Prop where
  number : ∀ x ∈ n.outermost, (f x.mark).id = ρ x.id
  control : ∀ x ∈ n.outsideLiterals, KeepsControl f panics x

namespace Renumbers

variable {panics : Bool} {n c : Node}

theorem self (renumbers : Renumbers f ρ panics n) : (n.bare f).id = ρ n.id :=
  n.id_bare.trans (renumbers.number n n.self_mem_outermost)

theorem child (renumbers : Renumbers f ρ panics n) (statement : n.isExpr = false)
    (child : c ∈ n.children) : Renumbers f ρ panics c := by
  have plain : n.isWrap = false ∧ n.isFuncLit = false := by
    cases n <;> first | exact ⟨rfl, rfl⟩ | cases statement
  exact ⟨fun x below => renumbers.number x (Node.child_outermost plain.1 child below),
    fun x below => renumbers.control x (Node.child_outsideLiterals plain.2 child below)⟩

end Renumbers

theorem stmt_of_isExpr {panics : Bool} {targets : List JumpTargets} {label : Option String} {n : Node}
    (expression : n.isExpr = true) : stmt panics targets label n = add n.id := by
  cases n <;> first | rfl | cases expression

theorem specNode?_bare {s : Node} (number : (s.bare f).id = ρ s.id) :
    specNode? (s.bare f) = (specNode? s).map ρ := by
  have apart {n : Node} (expression : n.isExpr = true) : specNode? n = none := by
    cases n <;> first | rfl | cases expression
  cases s with
  | valueSpec => exact congrArg some number
  | paren m x => exact apart (Node.isExpr_bareAs _)
  | _ => rfl

/-- The clauses left for the end. -/
abbrev MirrorsLater (ρ : NodeId → NodeId) (p q : Drafting (Option (Drafting Unit))) : Prop :=
  Follows ρ (Option.Rel (Mirrors ρ)) p q

section Parts

variable {panics : Bool} {targets : List JumpTargets} {label : Option String} {m : Mark}
  {init cond post orElse key value tag : Option Node} {test x body : Node}

theorem ifStmt_mirrors (renumbers : Renumbers f ρ panics (.ifStmt m init test body orElse))
    (first : Mirrors ρ (stmtOpt panics targets init) (stmtOpt panics targets (Node.bareOpt f init)))
    (inner : Mirrors ρ (stmt panics targets none body) (stmt panics targets none (body.bare f)))
    (last : Mirrors ρ (stmtOpt panics targets orElse)
      (stmtOpt panics targets (Node.bareOpt f orElse))) :
    Mirrors ρ (stmt panics targets label (.ifStmt m init test body orElse))
      (stmt panics targets label (.ifStmt (f m) (Node.bareOpt f init) (test.bare f) (body.bare f)
        (Node.bareOpt f orElse))) := by
  have own : (f m).id = ρ m.id := renumbers.number _ (Node.self_mem_outermost _)
  have number : (test.bare f).id = ρ test.id :=
    (renumbers.child (c := test) rfl (by simp [Node.children])).self
  have else_ : (Node.bareOpt f orElse).isSome = orElse.isSome := by cases orElse <;> rfl
  dsimp only [stmt]
  rw [else_]
  refine first.bind fun _ => (newBlock_mirrors _ own).bind fun then_ =>
    (newBlock_mirrors _ own).bind fun done => .ite ((newBlock_mirrors _ own).bind fun other => ?_)
      (Mirrors.bind (.ret rfl) fun other => ?_)
  all_goals
    refine (add_mirrors number).bind fun _ => (jump_mirrors _).bind fun _ => (jump_mirrors _).bind
      fun _ => (goOn_mirrors _).bind fun _ => inner.bind fun _ => (jump_mirrors _).bind fun _ =>
      .ite ?_ (goOn_mirrors _)
    exact (goOn_mirrors _).bind fun _ => last.bind fun _ => (jump_mirrors _).bind fun _ =>
      goOn_mirrors _

theorem forStmt_mirrors (renumbers : Renumbers f ρ panics (.forStmt m init cond post body))
    (first : Mirrors ρ (stmtOpt panics targets init) (stmtOpt panics targets (Node.bareOpt f init)))
    (inner : ∀ targets,
      Mirrors ρ (stmt panics targets none body) (stmt panics targets none (body.bare f)))
    (last : Mirrors ρ (stmtOpt panics targets post) (stmtOpt panics targets (Node.bareOpt f post))) :
    Mirrors ρ (stmt panics targets label (.forStmt m init cond post body))
      (stmt panics targets label (.forStmt (f m) (Node.bareOpt f init) (Node.bareOpt f cond)
        (Node.bareOpt f post) (body.bare f))) := by
  have own : (f m).id = ρ m.id := renumbers.number _ (Node.self_mem_outermost _)
  have isSome (n : Option Node) : (Node.bareOpt f n).isSome = n.isSome := by cases n <;> rfl
  dsimp only [stmt]
  rw [isSome, isSome]
  refine first.bind fun _ => (newBlock_mirrors _ own).bind fun inside =>
    (newBlock_mirrors _ own).bind fun done => .ite ((newBlock_mirrors _ own).bind fun test => ?_)
      (Mirrors.bind (.ret rfl) fun test => ?_)
  all_goals
    refine .ite ((newBlock_mirrors _ own).bind fun again => ?_)
      (Mirrors.bind (.ret rfl) fun again => ?_)
  all_goals
    have turn := (inner ({ exit := some done, next := some again } :: targets)).bind fun _ =>
      (jump_mirrors again).bind fun _ => Follows.ite (c := post.isSome = true)
        ((goOn_mirrors again).bind fun _ => last.bind fun _ => (jump_mirrors test).bind fun _ =>
          goOn_mirrors done) (goOn_mirrors done)
    refine (aim_mirrors _ _ _).bind fun _ => (jump_mirrors _).bind fun _ => (goOn_mirrors _).bind
      fun _ => ?_
    cases cond with
    | none => exact turn
    | some c =>
        have number : (c.bare f).id = ρ c.id :=
          (renumbers.child (c := c) rfl (by simp [Node.children])).self
        exact (add_mirrors number).bind fun _ => (jump_mirrors _).bind fun _ =>
          (jump_mirrors _).bind fun _ => (goOn_mirrors _).bind fun _ => turn

theorem rangeStmt_mirrors (renumbers : Renumbers f ρ panics (.rangeStmt m key value x body))
    (inner : ∀ targets,
      Mirrors ρ (stmt panics targets none body) (stmt panics targets none (body.bare f))) :
    Mirrors ρ (stmt panics targets label (.rangeStmt m key value x body))
      (stmt panics targets label (.rangeStmt (f m) (Node.bareOpt f key) (Node.bareOpt f value)
        (x.bare f) (body.bare f))) := by
  have own : (f m).id = ρ m.id := renumbers.number _ (Node.self_mem_outermost _)
  dsimp only [stmt]
  exact (newBlock_mirrors _ own).bind fun test => (jump_mirrors _).bind fun _ =>
    (goOn_mirrors _).bind fun _ => (newBlock_mirrors _ own).bind fun inside =>
    (newBlock_mirrors _ own).bind fun done => (add_mirrors own).bind fun _ =>
    (jump_mirrors _).bind fun _ => (jump_mirrors _).bind fun _ => (aim_mirrors _ _ _).bind fun _ =>
    (goOn_mirrors _).bind fun _ => (inner _).bind fun _ => (jump_mirrors _).bind fun _ =>
    goOn_mirrors _

theorem switchStmt_mirrors (renumbers : Renumbers f ρ panics (.switchStmt m init tag body))
    (first : Mirrors ρ (stmtOpt panics targets init) (stmtOpt panics targets (Node.bareOpt f init)))
    (inner : ∀ done, Mirrors ρ (clauses panics targets done body)
      (clauses panics targets done (body.bare f))) :
    Mirrors ρ (stmt panics targets label (.switchStmt m init tag body))
      (stmt panics targets label (.switchStmt (f m) (Node.bareOpt f init) (Node.bareOpt f tag)
        (body.bare f))) := by
  have own : (f m).id = ρ m.id := renumbers.number _ (Node.self_mem_outermost _)
  have rest := (newBlock_mirrors .switchDone own).bind fun done =>
    (aim_mirrors label done none).bind fun _ => (inner done).bind fun _ => (jump_mirrors done).bind
    fun _ => goOn_mirrors done
  dsimp only [stmt]
  refine first.bind fun _ => ?_
  cases tag with
  | none => exact rest
  | some t =>
      have number : (t.bare f).id = ρ t.id :=
        (renumbers.child (c := t) rfl (by simp [Node.children])).self
      exact (add_mirrors number).bind fun _ => rest

theorem declStmt_mirrors {d : Node} (renumbers : Renumbers f ρ panics (.declStmt m d)) :
    Mirrors ρ (stmt panics targets label (.declStmt m d))
      (stmt panics targets label (.declStmt (f m) (d.bare f))) := by
  have own : (f m).id = ρ m.id := renumbers.number _ (Node.self_mem_outermost _)
  have other {r : Mark} {d : Node} (apart : ∀ dm kind specs, d ≠ .decl dm kind specs) :
      stmt panics targets label (.declStmt r d) = add r.id := by
    cases d <;> first | rfl | exact absurd rfl (apart _ _ _)
  cases d with
  | decl dm kind specs =>
      have each : (Node.bareAll f specs).filterMap specNode? = (specs.filterMap specNode?).map ρ := by
        rw [Node.bareAll_eq, List.filterMap_map, List.map_filterMap]
        refine List.filterMap_congr fun s member => specNode?_bare ?_
        exact ((renumbers.child (c := .decl dm kind specs) rfl (by simp [Node.children])).child
          (c := s) rfl member).self
      change Mirrors ρ (stmt panics targets label (.declStmt m (.decl dm kind specs)))
        (stmt panics targets label (.declStmt (f m) (.decl (f dm) kind (Node.bareAll f specs))))
      dsimp only [stmt]
      simp only [each]
      exact .ite (forM_add_mirrors _) (.ret rfl)
  | paren dm x =>
      have apart : ∀ km kind specs, (Node.paren dm x).bare f ≠ .decl km kind specs := by
        intro km kind specs same
        have expression : ((Node.paren dm x).bare f).isExpr = true := Node.isExpr_bareAs _
        rw [same] at expression
        cases expression
      rw [other (d := .paren dm x) (by simp), other apart]
      exact add_mirrors own
  | _ => exact add_mirrors own

/-- A clause is threaded, or left for the end if it is the default. -/
theorem clause_mirrors {done : Nat} {reserved : Option Nat} {values stmts rest : List Node}
    (renumbers : Renumbers f ρ panics (.caseClause m values stmts))
    (next : ∀ c ∈ rest, (c.bare f).id = ρ c.id)
    (inner : ∀ targets, Mirrors ρ (stmtAll panics targets stmts)
      (stmtAll panics targets (Node.bareAll f stmts)))
    (others : ∀ reserved, MirrorsLater ρ (clauseAll panics targets done reserved rest)
      (clauseAll panics targets done reserved (Node.bareAll f rest))) :
    MirrorsLater ρ (clauseAll panics targets done reserved (.caseClause m values stmts :: rest))
      (clauseAll panics targets done reserved
        (.caseClause (f m) (Node.bareAll f values) (Node.bareAll f stmts) ::
          Node.bareAll f rest)) := by
  have own : ((Node.caseClause m values stmts).bare f).id = ρ (Node.caseClause m values stmts).id :=
    renumbers.self
  have numbers : (Node.bareAll f rest).head?.map Node.id = rest.head?.map fun c => ρ c.id := by
    cases rest with
    | nil => rfl
    | cons c rest => exact congrArg some (next c List.mem_cons_self)
  unfold clauseAll
  refine (clauseBlock_mirrors own numbers).bind fun (body, after) => ?_
  cases values with
  | nil =>
      refine Follows.bind (others _) fun later later' related => .ret ?_
      cases related with
      | some last => exact .some last
      | none =>
          exact .some ((jump_mirrors _).bind fun _ => (goOn_mirrors _).bind fun _ => inner _)
  | cons v values =>
      have tests : ∀ x ∈ v :: values, (x.bare f).id = ρ x.id := fun x member =>
        (renumbers.child (c := x) rfl (by simp [Node.children]; grind)).self
      refine Mirrors.bind (caseTests_mirrors own body tests) fun _ => ?_
      refine Follows.bind (R := fun d d' => d'.current = d.current) (fun d => ⟨rfl, rfl⟩)
        fun d d' same => ?_
      rw [same]
      exact (goOn_mirrors _).bind fun _ => (inner _).bind fun _ => (jump_mirrors _).bind fun _ =>
        (goOn_mirrors _).bind fun _ => others _

end Parts

mutual

/-- Threading a statement without parentheses does to the renumbered draft what threading the
statement does to the draft. -/
theorem stmt_mirrors (panics : Bool) (targets : List JumpTargets) (label : Option String) (n : Node)
    (renumbers : Renumbers f ρ panics n) :
    Mirrors ρ (stmt panics targets label n) (stmt panics targets label (n.bare f)) := by
  cases n with
  | block m stmts => exact stmtAll_mirrors panics targets stmts fun c child => renumbers.child rfl child
  | exprStmt m x =>
      have kept : neverReturns panics (x.bare f) = neverReturns panics x :=
        renumbers.control _ (Node.self_mem_outsideLiterals _)
      change Mirrors ρ (stmt panics targets label (.exprStmt m x))
        (stmt panics targets label (.exprStmt (f m) (x.bare f)))
      dsimp only [stmt]
      rw [kept]
      exact (add_mirrors renumbers.self).bind fun _ =>
        .ite (cutOff_mirrors renumbers.self) (.ret rfl)
  | declStmt m d => exact declStmt_mirrors renumbers
  | labeled m l s =>
      have named : (l.bare f).name? = l.name? := renumbers.control _ (Node.self_mem_outsideLiterals _)
      have inner := stmt_mirrors panics targets (some (l.name?.getD "")) s
        (renumbers.child rfl (by simp [Node.children]))
      change Mirrors ρ (stmt panics targets label (.labeled m l s))
        (stmt panics targets label (.labeled (f m) (l.bare f) (s.bare f)))
      dsimp only [stmt]
      rw [named]
      exact (labelNamed_mirrors _).bind fun _ =>
        (placeLabel_mirrors _ renumbers.self).bind fun _ => inner
  | ret m results =>
      exact (add_mirrors renumbers.self).bind fun _ => cutOff_mirrors renumbers.self
  | branch m kind l =>
      have named : (Node.bareOpt f l).bind Node.name? = l.bind Node.name? := by
        cases l with
        | none => rfl
        | some l => exact renumbers.control _ (Node.self_mem_outsideLiterals _)
      exact branch_mirrors targets renumbers.self kind named
  | ifStmt m init test body orElse =>
      exact ifStmt_mirrors renumbers
        (stmtOpt_mirrors panics targets init fun c some =>
          renumbers.child rfl (by simp [Node.children, some]))
        (stmt_mirrors panics targets none body (renumbers.child rfl (by simp [Node.children])))
        (stmtOpt_mirrors panics targets orElse fun c some =>
          renumbers.child rfl (by simp [Node.children, some]))
  | forStmt m init cond post body =>
      exact forStmt_mirrors renumbers
        (stmtOpt_mirrors panics targets init fun c some =>
          renumbers.child rfl (by simp [Node.children, some]))
        (fun targets =>
          stmt_mirrors panics targets none body (renumbers.child rfl (by simp [Node.children])))
        (stmtOpt_mirrors panics targets post fun c some =>
          renumbers.child rfl (by simp [Node.children, some]))
  | rangeStmt m key value x body =>
      exact rangeStmt_mirrors renumbers fun targets =>
        stmt_mirrors panics targets none body (renumbers.child rfl (by simp [Node.children]))
  | switchStmt m init tag body =>
      exact switchStmt_mirrors renumbers
        (stmtOpt_mirrors panics targets init fun c some =>
          renumbers.child rfl (by simp [Node.children, some]))
        fun done => clauses_mirrors panics targets done body
          (renumbers.child rfl (by simp [Node.children]))
  | paren m x =>
      rw [stmt_of_isExpr rfl, stmt_of_isExpr (Node.isExpr_bareAs _)]
      exact add_mirrors renumbers.self
  | _ => exact add_mirrors renumbers.self

theorem stmtAll_mirrors (panics : Bool) (targets : List JumpTargets) (ns : List Node)
    (renumbers : ∀ n ∈ ns, Renumbers f ρ panics n) :
    Mirrors ρ (stmtAll panics targets ns) (stmtAll panics targets (Node.bareAll f ns)) := by
  cases ns with
  | nil => exact .ret rfl
  | cons n ns =>
      obtain ⟨first, others⟩ := List.forall_mem_cons.mp renumbers
      exact (stmt_mirrors panics targets none n first).bind fun _ =>
        stmtAll_mirrors panics targets ns others

theorem stmtOpt_mirrors (panics : Bool) (targets : List JumpTargets) (n : Option Node)
    (renumbers : ∀ m, n = some m → Renumbers f ρ panics m) :
    Mirrors ρ (stmtOpt panics targets n) (stmtOpt panics targets (Node.bareOpt f n)) := by
  cases n with
  | none => exact .ret rfl
  | some n => exact stmt_mirrors panics targets none n (renumbers n rfl)

theorem clauses_mirrors (panics : Bool) (targets : List JumpTargets) (done : Nat) (n : Node)
    (renumbers : Renumbers f ρ panics n) :
    Mirrors ρ (clauses panics targets done n) (clauses panics targets done (n.bare f)) := by
  cases n with
  | block m list =>
      refine Follows.bind (clauseAll_mirrors panics targets done none list
        (fun c child => renumbers.child rfl child)) fun later later' related => ?_
      cases related with
      | some last => exact last
      | none => exact .ret rfl
  | paren m x =>
      have apart {n : Node} (expression : n.isExpr = true) :
          clauses panics targets done n = pure () := by
        cases n <;> first | rfl | cases expression
      rw [apart rfl, apart (Node.isExpr_bareAs _)]
      exact .ret rfl
  | _ => exact .ret rfl

theorem clauseAll_mirrors (panics : Bool) (targets : List JumpTargets) (done : Nat)
    (reserved : Option Nat) (ns : List Node) (renumbers : ∀ n ∈ ns, Renumbers f ρ panics n) :
    MirrorsLater ρ (clauseAll panics targets done reserved ns)
      (clauseAll panics targets done reserved (Node.bareAll f ns)) := by
  cases ns with
  | nil => exact .ret .none
  | cons n ns =>
      have others (reserved : Option Nat) := clauseAll_mirrors panics targets done reserved ns
        fun c member => renumbers c (List.mem_cons_of_mem n member)
      cases n with
      | caseClause m values stmts =>
          refine clause_mirrors (renumbers _ List.mem_cons_self)
            (fun c member => (renumbers c (List.mem_cons_of_mem _ member)).self)
            (fun targets => ?_) others
          exact stmtAll_mirrors panics targets stmts fun c member =>
            (renumbers _ List.mem_cons_self).child rfl (by simp [Node.children, member])
      | paren m x =>
          have apart {n : Node} (expression : n.isExpr = true) (rest : List Node) :
              clauseAll panics targets done reserved (n :: rest)
                = clauseAll panics targets done reserved rest := by
            cases n <;> first | rfl | cases expression
          have bare : ((Node.paren m x).bare f).isExpr = true := Node.isExpr_bareAs _
          have rest := apart bare (Node.bareAll f ns)
          rw [apart rfl]
          exact rest ▸ others reserved
      | _ => exact others reserved

end

end Drafting

/-! ## Flow graphs -/

namespace FlowDraft

variable {ρ : NodeId → NodeId} (d : FlowDraft)

theorem getElem?_relabel (i : Nat) :
    (d.relabel ρ).blocks[i]? = (d.blocks[i]?).map (DraftBlock.relabel ρ) :=
  List.getElem?_map

theorem length_relabel : (d.relabel ρ).blocks.length = d.blocks.length := List.length_map _

theorem succs_relabel : (d.relabel ρ).succs = d.succs := by
  funext i
  rw [succs, getElem?_relabel, succs]
  cases d.blocks[i]? <;> rfl

theorem branchOwner_relabel (b : DraftBlock) :
    branchOwner (d.relabel ρ) (b.relabel ρ) = (branchOwner d b).map ρ := by
  have kind : (b.relabel ρ).kind = b.kind := rfl
  have succs : (b.relabel ρ).succs = b.succs := rfl
  rw [branchOwner, branchOwner, kind, succs]
  split
  · rfl
  · cases b.succs.head? with
    | none => rfl
    | some s =>
        simp only [Option.bind_some, getElem?_relabel]
        cases d.blocks[s]? <;> rfl

theorem finish_relabel (live : List Nat) :
    (d.relabel ρ).finish live = (d.finish live).relabel ρ := by
  simp only [finish, FlowGraph.relabel, List.map_append, List.map_filterMap]
  congr 1
  refine congrArg (· ++ _) (List.filterMap_congr fun i _ => ?_)
  rw [getElem?_relabel]
  cases d.blocks[i]? with
  | none => rfl
  | some b =>
      have succs : (b.relabel ρ).succs = b.succs := rfl
      have nodes : (b.relabel ρ).nodes = b.nodes.map ρ := rfl
      have kind : (b.relabel ρ).kind = b.kind := rfl
      simp only [Option.map_some, branchOwner_relabel, succs, nodes, kind, List.isEmpty_map,
        Block.relabel, apply_ite (Option.map ρ), Option.map_none]

/-- The graph of the live blocks, with the return implied at the end if the end is reached. -/
def close (fallOff : NodeId) : FlowGraph :=
  let met := explore d.succs d.blocks.length [0]
  let live := (List.range d.blocks.length).filter met.contains
  (if live.contains d.current then ((Drafting.add fallOff).run d).2 else d).finish live

theorem close_relabel {fallOff fallOff' : NodeId} (last : fallOff' = ρ fallOff) :
    (d.relabel ρ).close fallOff' = (d.close fallOff).relabel ρ := by
  have closing : ((Drafting.add fallOff').run (d.relabel ρ)).2
      = ((Drafting.add fallOff).run d).2.relabel ρ := (Drafting.add_mirrors last d).2
  have current : (d.relabel ρ).current = d.current := rfl
  simp only [close, succs_relabel, length_relabel, current, closing]
  split <;> exact finish_relabel _ _

end FlowDraft

/-- The flow graph of a body without parentheses is that of the body by other numbers. -/
theorem flowGraphOf_bare {f : Mark → Mark} {ρ : NodeId → NodeId} {panics : Bool} {body : Node}
    {fallOff fallOff' : NodeId} (renumbers : Drafting.Renumbers f ρ panics body)
    (last : fallOff' = ρ fallOff) :
    flowGraphOf panics (body.bare f) fallOff' = (flowGraphOf panics body fallOff).relabel ρ := by
  let program (n : Node) : Drafting Unit := do
    let _ ← Drafting.newBlock .body none
    Drafting.stmt panics [] none n
  have closes (n : Node) (last : NodeId) :
      flowGraphOf panics n last = ((program n).run {}).2.close last := rfl
  have start : Drafting.Mirrors ρ (Drafting.newBlock .body none) (Drafting.newBlock .body none) :=
    fun d => ⟨(List.length_map _).symm, Drafting.push_relabel d .body none⟩
  have threaded : Drafting.Mirrors ρ (program body) (program (body.bare f)) :=
    start.bind fun _ => Drafting.stmt_mirrors panics [] none body renumbers
  have draft : ((program (body.bare f)).run {}).2 = ((program body).run {}).2.relabel ρ :=
    (threaded {}).2
  rw [closes, closes, draft, FlowDraft.close_relabel _ last]

end Retarget
