/-
# Proofs.FlowDraft -- a block under construction is left once

Statements are threaded into blocks by a program that makes blocks, fills the current one and jumps
from it.  A block is *open* until control has left it.  The program that threads a statement is given
some open blocks -- the current one, those it is to fill later (`held`) and those of the labels it
still has to place -- and takes care of each: the current block is left by one jump, or by a
condition and a jump either way, and where control goes on, it goes on in an open block
(`stmt_threads`).  So no block is ever left twice, and a block with two successors ends with a
condition of the statement that its first successor was made for, or of its own if it is the header
of a range (`Leaves`).

`Sound` says what holds of a draft between two steps, `At` also that the current block is open.  A
step keeps the kind and the owner of every block (`Grows`), so what has been said of a block that was
left stays true.  The places of labels are open only while the labels are to come: that is why no
label may be placed twice.
-/
import Retarget.Flow.Build
import Retarget.Proofs.StatementShape
import Retarget.Proofs.SyntaxNumbers
import Mathlib.Data.List.Nodup

namespace Retarget

open Retarget.Source (Node NodeId Mark BranchKind)

set_option autoImplicit false
set_option linter.dupNamespace false

/-! ## Syntax -/

namespace Source.Node

mutual

/-- The labels placed in a statement, in the order they are met. -/
def labels : Node → List String
  | .block _ stmts => labelsAll stmts
  | .labeled _ l s => l.name?.getD "" :: labels s
  | .ifStmt _ init _ body orElse => labelsOpt init ++ (labels body ++ labelsOpt orElse)
  | .forStmt _ init _ post body => labelsOpt init ++ (labels body ++ labelsOpt post)
  | .rangeStmt _ _ _ _ body => labels body
  | .switchStmt _ init _ body => labelsOpt init ++ labels body
  | .caseClause _ _ stmts => labelsAll stmts
  | _ => []

def labelsAll : List Node → List String
  | [] => []
  | s :: rest => labels s ++ labelsAll rest

def labelsOpt : Option Node → List String
  | none => []
  | some s => labels s

end

/-- The conditions that a statement decides by. A range has no other than itself. -/
def tests : Node → List NodeId
  | .ifStmt _ _ cond _ _ => [cond.id]
  | .forStmt _ _ cond _ _ => cond.toList.map Node.id
  | .rangeStmt m _ _ _ _ => [m.id]
  | .caseClause _ values _ => values.map Node.id
  | _ => []

/-- The statement numbered `owner` is below `n` and decides by `test`. -/
def Decides (n : Node) (owner test : NodeId) : Prop :=
  ∃ s ∈ n.preorder, s.id = owner ∧ test ∈ s.tests

theorem Decides.child {c n : Node} {owner test : NodeId} (child : c ∈ n.children)
    (decides : c.Decides owner test) : n.Decides owner test := by
  obtain ⟨s, below, rest⟩ := decides
  exact ⟨s, child_preorder child below, rest⟩

def isClause : Node → Bool
  | caseClause .. => true
  | _ => false

/-- In a switch stand clauses and nothing else. -/
inductive Clausal : Node → Prop where
  | block {m : Mark} {stmts : List Node} (each : ∀ s ∈ stmts, Clausal s) : Clausal (.block m stmts)
  | labeled {m : Mark} {label stmt : Node} (inner : Clausal stmt) : Clausal (.labeled m label stmt)
  | ifStmt {m : Mark} {init : Option Node} {cond body : Node} {orElse : Option Node}
      (first : ∀ i ∈ init, Clausal i) (inner : Clausal body) (other : ∀ e ∈ orElse, Clausal e) :
      Clausal (.ifStmt m init cond body orElse)
  | forStmt {m : Mark} {init cond post : Option Node} {body : Node} (first : ∀ i ∈ init, Clausal i)
      (inner : Clausal body) (last : ∀ l ∈ post, Clausal l) : Clausal (.forStmt m init cond post body)
  | rangeStmt {m : Mark} {key value : Option Node} {x body : Node} (inner : Clausal body) :
      Clausal (.rangeStmt m key value x body)
  | switchStmt {m bm : Mark} {init tag : Option Node} {clauses : List Node}
      (first : ∀ i ∈ init, Clausal i) (only : ∀ c ∈ clauses, c.isClause = true)
      (inner : ∀ m values stmts, Node.caseClause m values stmts ∈ clauses → ∀ s ∈ stmts, Clausal s) :
      Clausal (.switchStmt m init tag (.block bm clauses))
  | declStmt {m : Mark} {decl : Node} : Clausal (.declStmt m decl)
  | simple {n : Node} (plain : n.Plain) : Clausal n

theorem clausal_inherited : Inherited Clausal where
  simple := .simple
  declStmt _ := .declStmt
  block := .block
  labeled := .labeled
  ifStmt first _ inner _ := .ifStmt (fun i there => (first i there).2) inner
  forStmt first _ := .forStmt first
  rangeStmt _ := .rangeStmt
  switchStmt first each := by
    refine .switchStmt first (fun c there => ?_) fun m values stmts there => ?_
    · obtain ⟨_, _, _, rfl, -⟩ := each c there
      rfl
    · obtain ⟨_, _, _, same, inner⟩ := each _ there
      cases same
      exact inner

end Source.Node

/-! ## Blocks of a draft -/

namespace FlowDraft

/-- The statement that a block was made for. -/
def ownerOf? (d : FlowDraft) (i : Nat) : Option NodeId := (d.blocks[i]?).bind (·.owner)

/-- The block of a label. -/
def place? (d : FlowDraft) (name : String) : Option Nat :=
  (d.labels.find? (·.name == name)).map (·.place)

/-- Control has not left the block, which is no header of a range. -/
def IsOpen (d : FlowDraft) (i : Nat) : Prop :=
  ∃ b, d.blocks[i]? = some b ∧ b.succs = [] ∧ b.kind ≠ .rangeLoop

/-- Blocks keep their kind, and their owner once they have one. -/
def Grows (d d' : FlowDraft) : Prop :=
  ∀ (i : Nat) (b : DraftBlock), d.blocks[i]? = some b →
    ∃ b', d'.blocks[i]? = some b' ∧ b'.kind = b.kind ∧ ∀ o, b.owner = some o → b'.owner = some o

namespace Grows

variable {d d' : FlowDraft} (grows : d.Grows d')

include grows

theorem lt_length {i : Nat} (lt : i < d.blocks.length) : i < d'.blocks.length := by
  obtain ⟨b, found, -⟩ := grows i _ (List.getElem?_eq_getElem lt)
  exact (List.getElem?_eq_some_iff.mp found).1

theorem ownerOf? {i : Nat} {o : NodeId} (owned : d.ownerOf? i = some o) : d'.ownerOf? i = some o := by
  obtain ⟨b, found, owner⟩ := Option.bind_eq_some_iff.mp owned
  obtain ⟨b', found', -, kept⟩ := grows i b found
  exact Option.bind_eq_some_iff.mpr ⟨b', found', kept o owner⟩

end Grows

/-- How control may leave a block: nowhere or to one block, or by a test of its owner to two. -/
structure Leaves (D : NodeId → NodeId → Prop) (d : FlowDraft) (b : DraftBlock) : Prop where
  inRange : ∀ s ∈ b.succs, s < d.blocks.length
  choice : b.succs.length ≤ 1 ∨ ∃ t f test o, b.succs = [t, f] ∧ b.nodes.getLast? = some test ∧
    branchOwner d b = some o ∧ D o test

theorem branchOwner_eq (d : FlowDraft) (b : DraftBlock) :
    branchOwner d b = if b.kind == .rangeLoop then b.owner else b.succs.head?.bind d.ownerOf? := by
  unfold branchOwner
  split
  · rfl
  · exact Option.bind_assoc ..

variable {D : NodeId → NodeId → Prop} {d d' : FlowDraft} {b : DraftBlock}

/-- A block that stays as it is is left as before. -/
theorem Leaves.mono (leaves : Leaves D d b) (grows : d.Grows d') : Leaves D d' b := by
  refine ⟨fun s leads => grows.lt_length (leaves.inRange s leads), ?_⟩
  refine leaves.choice.imp_right ?_
  rintro ⟨t, f, test, o, two, last, owned, decides⟩
  refine ⟨t, f, test, o, two, last, ?_, decides⟩
  rw [branchOwner_eq] at owned ⊢
  split
  · rename_i header
    simpa [header] using owned
  · rename_i ordinary
    simp only [ordinary, two, Bool.false_eq_true, if_false, List.head?_cons, Option.bind_some] at owned ⊢
    exact grows.ownerOf? owned

theorem leaves_of_open (isOpen : b.succs = []) : Leaves D d b where
  inRange s leads := by simp [isOpen] at leads
  choice := .inl (by simp [isOpen])

theorem IsOpen.lt {i : Nat} (isOpen : d.IsOpen i) : i < d.blocks.length := by
  obtain ⟨b, found, -⟩ := isOpen
  exact (List.getElem?_eq_some_iff.mp found).1

/-- The draft is well built so far. The blocks of `known` have these owners, those of `held` are open
and different, and so are those of the labels in `names`, which are still to come. -/
structure Sound (D : NodeId → NodeId → Prop) (known : List (Nat × NodeId)) (held : List Nat)
    (names : List String) (d : FlowDraft) : Prop where
  leaves : ∀ b ∈ d.blocks, Leaves D d b
  owners : ∀ k ∈ known, d.ownerOf? k.1 = some k.2
  apart : held.Nodup
  isOpen : ∀ i ∈ held, d.IsOpen i
  waiting : ∀ name ∈ names, ∀ i ∈ d.place? name, d.IsOpen i ∧ i ∉ held
  unplaced : names.Nodup
  labels : ∀ l ∈ d.labels, ∀ i ∈ l.place :: (l.exit.toList ++ l.next.toList), i < d.blocks.length
  ownPlace : ∀ name name' i, d.place? name = some i → d.place? name' = some i → name = name'

/-- The draft is well built, and its current block is another open one, which satisfies `C`. -/
structure At (D : NodeId → NodeId → Prop) (C : DraftBlock → Prop) (known : List (Nat × NodeId))
    (held : List Nat) (names : List String) (d : FlowDraft) : Prop extends
    Sound D known held names d where
  notHeld : d.current ∉ held
  notWaiting : ∀ name ∈ names, d.place? name ≠ some d.current
  here : ∃ b, d.blocks[d.current]? = some b ∧ b.succs = [] ∧ C b

/-- No header of a range. -/
def Ordinary (b : DraftBlock) : Prop := b.kind ≠ .rangeLoop

/-- The header of the range with this number. -/
def Header (m : NodeId) (b : DraftBlock) : Prop := b.kind = .rangeLoop ∧ b.owner = some m

variable {C : DraftBlock → Prop} {known known' : List (Nat × NodeId)} {held held' : List Nat}
  {names names' : List String}

section Parts

variable {α : Type} [BEq α] [LawfulBEq α] {part whole : List α}

theorem mem_of_count_le (le : ∀ x, part.count x ≤ whole.count x) {x : α} (member : x ∈ part) :
    x ∈ whole :=
  List.count_pos_iff.mp (Nat.lt_of_lt_of_le (List.count_pos_iff.mpr member) (le x))

theorem nodup_of_count_le (nodup : whole.Nodup) (le : ∀ x, part.count x ≤ whole.count x) :
    part.Nodup :=
  List.nodup_iff_count_le_one.mpr fun x => Nat.le_trans (le x) (List.nodup_iff_count_le_one.mp nodup x)

end Parts

namespace Sound

theorem weaken (sound : Sound D known held names d) (fewer : known' ⊆ known)
    (part : ∀ i, held'.count i ≤ held.count i) (rest : ∀ name, names'.count name ≤ names.count name) :
    Sound D known' held' names' d where
  leaves := sound.leaves
  owners k listed := sound.owners k (fewer listed)
  apart := nodup_of_count_le sound.apart part
  isOpen i listed := sound.isOpen i (mem_of_count_le part listed)
  waiting name listed i place := by
    obtain ⟨isOpen, apart⟩ := sound.waiting name (mem_of_count_le rest listed) i place
    exact ⟨isOpen, fun within => apart (mem_of_count_le part within)⟩
  unplaced := nodup_of_count_le sound.unplaced rest
  labels := sound.labels
  ownPlace := sound.ownPlace

theorem place_lt (sound : Sound D known held names d) {name : String} {i : Nat}
    (place : d.place? name = some i) : i < d.blocks.length := by
  obtain ⟨l, found, rfl⟩ := Option.map_eq_some_iff.mp place
  exact sound.labels l (List.mem_of_find?_eq_some found) _ List.mem_cons_self

theorem known_lt (sound : Sound D known held names d) {i : Nat} (listed : i ∈ known.map (·.1)) :
    i < d.blocks.length := by
  obtain ⟨k, member, rfl⟩ := List.mem_map.mp listed
  obtain ⟨b, found, -⟩ := Option.bind_eq_some_iff.mp (sound.owners k member)
  exact (List.getElem?_eq_some_iff.mp found).1

/-- Another draft is as well built if its blocks are, if it keeps the open ones, and if it has the same
labels. -/
theorem keep (sound : Sound D known held names d) (grows : d.Grows d')
    (leaves : ∀ b ∈ d'.blocks, Leaves D d' b)
    (isOpen : ∀ i, i ∈ held ∨ (∃ name ∈ names, d.place? name = some i) → d.IsOpen i → d'.IsOpen i)
    (labels : d'.labels = d.labels) : Sound D known held names d' where
  leaves := leaves
  owners k listed := grows.ownerOf? (sound.owners k listed)
  apart := sound.apart
  isOpen i listed := isOpen i (.inl listed) (sound.isOpen i listed)
  waiting name listed i place := by
    have place : d.place? name = some i := by simpa only [place?, labels, Option.mem_def] using place
    obtain ⟨open_, apart⟩ := sound.waiting name listed i place
    exact ⟨isOpen i (.inr ⟨name, listed, place⟩) open_, apart⟩
  unplaced := sound.unplaced
  labels l listed i used := grows.lt_length (sound.labels l (labels ▸ listed) i used)
  ownPlace name name' i := by simpa only [place?, labels] using sound.ownPlace name name' i

end Sound

theorem At.weaken (stands : At D C known held names d) (fewer : known' ⊆ known)
    (part : ∀ i, held'.count i ≤ held.count i) (rest : ∀ name, names'.count name ≤ names.count name) :
    At D C known' held' names' d where
  toSound := stands.toSound.weaken fewer part rest
  notHeld within := stands.notHeld (mem_of_count_le part within)
  notWaiting name listed := stands.notWaiting name (mem_of_count_le rest listed)
  here := stands.here

/-- The current block may be held while control goes on elsewhere. -/
theorem At.hold (stands : At D Ordinary known held names d) :
    Sound D known (d.current :: held) names d where
  leaves := stands.leaves
  owners := stands.owners
  apart := List.nodup_cons.mpr ⟨stands.notHeld, stands.apart⟩
  isOpen := List.forall_mem_cons.mpr ⟨stands.here, stands.isOpen⟩
  waiting name listed i place := by
    obtain ⟨isOpen, apart⟩ := stands.waiting name listed i place
    refine ⟨isOpen, fun within => (List.mem_cons.mp within).elim ?_ apart⟩
    rintro rfl
    exact stands.notWaiting name listed place
  unplaced := stands.unplaced
  labels := stands.labels
  ownPlace := stands.ownPlace

end FlowDraft

namespace Drafting

open FlowDraft

/-! ## Programs -/

/-- From a draft with `P` the program comes to one with `Q`. -/
def Leads {α : Type} (P : FlowDraft → Prop) (p : Drafting α) (Q : α → FlowDraft → Prop) : Prop :=
  ∀ d, P d → Q (p.run d).1 (p.run d).2

namespace Leads

variable {α β : Type} {P P' : FlowDraft → Prop} {Q Q' : α → FlowDraft → Prop}
  {R : β → FlowDraft → Prop} {p : Drafting α} {f : α → Drafting β}

theorem ret (x : α) : Leads (Q x) (pure x) Q := fun _ holds => holds

theorem bind (first : Leads P p Q) (next : ∀ x, Leads (Q x) (f x) R) : Leads P (p >>= f) R :=
  fun d holds => next _ _ (first d holds)

theorem before (imp : ∀ d, P' d → P d) (leads : Leads P p Q) : Leads P' p Q :=
  fun d holds => leads d (imp d holds)

theorem after (imp : ∀ x d, Q x d → Q' x d) (leads : Leads P p Q) : Leads P p Q' :=
  fun d holds => imp _ _ (leads d holds)

end Leads

variable {D : NodeId → NodeId → Prop} {C : DraftBlock → Prop} {known : List (Nat × NodeId)}
  {held held' : List Nat} {names : List String} {α : Type}

/-! ## New blocks -/

section Push

variable {d : FlowDraft} {kind : BlockKind} {owner : Option NodeId}

/-- The draft with one more block. -/
def push (d : FlowDraft) (kind : BlockKind) (owner : Option NodeId) : FlowDraft :=
  { d with blocks := d.blocks ++ [{ kind := kind, owner := owner }] }

theorem push_old {i : Nat} (lt : i < d.blocks.length) :
    (push d kind owner).blocks[i]? = d.blocks[i]? := List.getElem?_append_left lt

theorem push_new : (push d kind owner).blocks[d.blocks.length]? = some { kind := kind, owner := owner } := by
  simp [push]

theorem grows_push : d.Grows (push d kind owner) := fun _ b found =>
  ⟨b, (push_old (List.getElem?_eq_some_iff.mp found).1).trans found, rfl, fun _ => id⟩

theorem isOpen_push {i : Nat} (isOpen : d.IsOpen i) : (push d kind owner).IsOpen i := by
  obtain ⟨b, found, rest⟩ := isOpen
  exact ⟨b, (push_old (List.getElem?_eq_some_iff.mp found).1).trans found, rest⟩

theorem sound_push (sound : Sound D known held names d) :
    Sound D known held names (push d kind owner) := by
  refine sound.keep grows_push (fun b member => ?_) (fun _ _ => isOpen_push) rfl
  rcases List.mem_append.mp member with old | new
  · exact (sound.leaves b old).mono grows_push
  · obtain rfl := List.mem_singleton.mp new
    exact leaves_of_open rfl

/-- A new block can be held. -/
theorem sound_push_held {o : NodeId} (sound : Sound D known held names d) (ordinary : kind ≠ .rangeLoop) :
    Sound D ((d.blocks.length, o) :: known) (d.blocks.length :: held) names (push d kind (some o)) := by
  have pushed : Sound D known held names (push d kind (some o)) := sound_push sound
  have fresh : ∀ i, d.IsOpen i → i ≠ d.blocks.length := fun i isOpen => Nat.ne_of_lt isOpen.lt
  refine { pushed with
    owners := List.forall_mem_cons.mpr ⟨?_, pushed.owners⟩
    apart := List.nodup_cons.mpr ⟨fun within => fresh _ (sound.isOpen _ within) rfl, pushed.apart⟩
    isOpen := List.forall_mem_cons.mpr ⟨⟨_, push_new, rfl, ordinary⟩, pushed.isOpen⟩
    waiting := fun name listed i place => ?_ }
  · simp [ownerOf?, push_new]
  · obtain ⟨isOpen, apart⟩ := sound.waiting name listed i place
    exact ⟨isOpen_push isOpen, List.not_mem_cons_of_ne_of_not_mem (fresh i isOpen) apart⟩

theorem at_push (stands : At D C known held names d) : At D C known held names (push d kind owner) := by
  obtain ⟨b, found, rest⟩ := stands.here
  exact ⟨sound_push stands.toSound, stands.notHeld, stands.notWaiting, b,
    (push_old (List.getElem?_eq_some_iff.mp found).1).trans found, rest⟩

theorem at_push_held {o : NodeId} (stands : At D C known held names d) (ordinary : kind ≠ .rangeLoop) :
    At D C ((d.blocks.length, o) :: known) (d.blocks.length :: held) names (push d kind (some o)) := by
  obtain ⟨b, found, -⟩ := stands.here
  have lt := (List.getElem?_eq_some_iff.mp found).1
  exact ⟨sound_push_held stands.toSound ordinary,
    List.not_mem_cons_of_ne_of_not_mem (Nat.ne_of_lt lt) stands.notHeld, stands.notWaiting,
    (at_push stands).here⟩

end Push

variable {o : NodeId}

theorem newBlock_leads (kind : BlockKind) (o : NodeId) (ordinary : kind ≠ .rangeLoop) :
    Leads (Sound D known held names) (newBlock kind (some o))
      (fun b => Sound D ((b, o) :: known) (b :: held) names) :=
  fun _ sound => sound_push_held sound ordinary

theorem newBlock_at (kind : BlockKind) (o : NodeId) (ordinary : kind ≠ .rangeLoop) :
    Leads (At D C known held names) (newBlock kind (some o))
      (fun b => At D C ((b, o) :: known) (b :: held) names) :=
  fun _ stands => at_push_held stands ordinary

/-! ## The current block -/

section Modify

variable {d : FlowDraft} {f : DraftBlock → DraftBlock} {b : DraftBlock}

/-- The draft with its current block changed. -/
def change (d : FlowDraft) (f : DraftBlock → DraftBlock) : FlowDraft :=
  { d with blocks := d.blocks.modify d.current f }

theorem change_current (found : d.blocks[d.current]? = some b) :
    (change d f).blocks[d.current]? = some (f b) := by
  simp [change, found]

theorem change_other {i : Nat} (other : i ≠ d.current) : (change d f).blocks[i]? = d.blocks[i]? := by
  simp [change, Ne.symm other]

theorem grows_change (found : d.blocks[d.current]? = some b) (kind : (f b).kind = b.kind)
    (owner : ∀ o, b.owner = some o → (f b).owner = some o) : d.Grows (change d f) := by
  intro i b' found'
  by_cases here : i = d.current
  · subst here
    obtain rfl : b = b' := Option.some.inj (found.symm.trans found')
    exact ⟨f b, change_current found, kind, owner⟩
  · exact ⟨b', (change_other here).trans found', rfl, fun _ => id⟩

/-- The current block is changed: the others stay as they are. -/
theorem sound_change (stands : At D C known held names d) (found : d.blocks[d.current]? = some b)
    (kind : (f b).kind = b.kind) (owner : ∀ o, b.owner = some o → (f b).owner = some o)
    (leaves : Leaves D (change d f) (f b)) : Sound D known held names (change d f) := by
  have grows := grows_change found kind owner
  refine stands.keep grows (fun b' member => ?_) (fun i among isOpen => ?_) rfl
  · obtain ⟨i, found'⟩ := List.mem_iff_getElem?.mp member
    by_cases here : i = d.current
    · subst here
      exact Option.some.inj ((change_current found).symm.trans found') ▸ leaves
    · rw [change_other here] at found'
      exact (stands.leaves b' (List.mem_of_getElem? found')).mono grows
  · have other : i ≠ d.current := by
      rintro rfl
      rcases among with within | ⟨name, listed, place⟩
      · exact stands.notHeld within
      · exact stands.notWaiting name listed place
    obtain ⟨b', found', rest⟩ := isOpen
    exact ⟨b', (change_other other).trans found', rest⟩

end Modify

/-- A change that does not leave the current block. -/
theorem modifyCurrent_at {f : DraftBlock → DraftBlock}
    (kind : ∀ b, (f b).kind = b.kind) (owner : ∀ b o, b.owner = some o → (f b).owner = some o)
    (succs : ∀ b, (f b).succs = b.succs) (kept : ∀ b, C b → C (f b)) :
    Leads (At D C known held names) (modifyCurrent f) (fun _ => At D C known held names) := by
  intro d stands
  obtain ⟨b, found, isOpen, holds⟩ := stands.here
  have isOpen : (f b).succs = [] := (succs b).trans isOpen
  exact ⟨sound_change stands found (kind b) (owner b) (leaves_of_open isOpen), stands.notHeld,
    stands.notWaiting, f b, change_current found, isOpen, kept b holds⟩

theorem add_at (n : NodeId) (kept : ∀ b ns, C b → C { b with nodes := ns }) :
    Leads (At D C known held names) (add n) (fun _ => At D C known held names) :=
  modifyCurrent_at (fun _ => rfl) (fun _ _ => id) (fun _ => rfl) fun b => kept b _

theorem jump_leads {t : Nat} :
    Leads (fun d => At D C known held names d ∧ t < d.blocks.length) (jump t)
      (fun _ => Sound D known held names) := by
  rintro d ⟨stands, lt⟩
  obtain ⟨b, found, isOpen, -⟩ := stands.here
  refine sound_change stands found rfl (fun _ => id) ⟨fun s leads => ?_, .inl (by simp [isOpen])⟩
  obtain rfl : s = t := by simpa [isOpen] using leads
  simpa [change] using lt

/-- A jump to a block that is known. -/
theorem jump_known {t : Nat} (listed : t ∈ known.map (·.1)) :
    Leads (At D C known held names) (jump t) (fun _ => Sound D known held names) :=
  jump_leads.before fun _ stands => ⟨stands, stands.known_lt listed⟩

theorem sound_goOn {d : FlowDraft} (sound : Sound D known held names d) (i : Nat) :
    Sound D known held names { d with current := i } := by
  have grows : d.Grows { d with current := i } := fun _ b found => ⟨b, found, rfl, fun _ => id⟩
  exact sound.keep grows (fun b member => (sound.leaves b member).mono grows) (fun _ _ => id) rfl

/-- Control goes on in a block that was held. -/
theorem goOn_leads {i : Nat} (held : List Nat) (part : ∀ j, (i :: held).count j ≤ held'.count j) :
    Leads (Sound D known held' names) (goOn i) (fun _ => At D Ordinary known held names) := by
  intro d sound
  replace sound := sound.weaken (List.Subset.refl _) part fun _ => Nat.le_refl _
  have rest : Sound D known held names d := sound.weaken (List.Subset.refl _)
    (fun j => List.count_le_count_cons) fun _ => Nat.le_refl _
  exact ⟨sound_goOn rest i, (List.nodup_cons.mp sound.apart).1,
    fun name listed place => (sound.waiting name listed i place).2 List.mem_cons_self,
    sound.isOpen i List.mem_cons_self⟩

/-- The current block is held for later. -/
theorem hold_leads {f : FlowDraft → Drafting α} {Q : α → FlowDraft → Prop}
    (next : ∀ s, Leads (Sound D known (s.current :: held) names) (f s) Q) :
    Leads (At D Ordinary known held names) (get >>= f) Q :=
  fun d stands => next d d stands.hold

/-- Control goes on in the block held last. -/
theorem goOn_last {i : Nat} :
    Leads (Sound D known (i :: held) names) (goOn i) (fun _ => At D Ordinary known held names) :=
  goOn_leads held fun _ => Nat.le_refl _

theorem cutOff_leads (o : NodeId) :
    Leads (Sound D known held names) (cutOff o) (fun _ => At D Ordinary known held names) :=
  (newBlock_leads .unreachable o nofun).bind fun _ => goOn_last.after fun _ _ stands =>
    stands.weaken (List.subset_cons_self ..) (fun _ => Nat.le_refl _) fun _ => Nat.le_refl _

/-- The current block is left by a test, to a block made for the statement that decides by it and to
another one. -/
theorem decide_leads {test : NodeId} {t f : Nat} {rest : Drafting α} {Q : α → FlowDraft → Prop}
    (decides : D o test) (taken : t ∈ known.map (·.1)) (skipped : f ∈ known.map (·.1))
    (owned : ∀ b, C b → b.kind = .rangeLoop ∧ b.owner = some o ∨ b.kind ≠ .rangeLoop ∧ (t, o) ∈ known)
    (next : Leads (Sound D known held names) rest Q) :
    Leads (At D C known held names) (do add test; jump t; jump f; rest) Q := by
  intro d stands
  -- three changes of one block are one change
  let leave (b : DraftBlock) : DraftBlock :=
    { b with nodes := b.nodes ++ [test], succs := b.succs ++ [t] ++ [f] }
  have whole : ((do add test; jump t; jump f; rest : Drafting α).run d) = rest.run (change d leave) := by
    have one : change (change (change d fun b => { b with nodes := b.nodes ++ [test] })
        fun b => { b with succs := b.succs ++ [t] }) (fun b => { b with succs := b.succs ++ [f] }) =
        change d leave := by
      simp only [change, List.modify_modify_eq]
      rfl
    exact congrArg rest.run one
  rw [whole]
  refine next _ ?_
  obtain ⟨b, found, isOpen, holds⟩ := stands.here
  have grows : d.Grows (change d leave) := grows_change found rfl fun _ => id
  refine sound_change stands found rfl (fun _ => id) ⟨?_, .inr ⟨t, f, test, o, ?_, ?_, ?_, decides⟩⟩
  · intro s leads
    have either : s = t ∨ s = f := by simpa [leave, isOpen] using leads
    rcases either with rfl | rfl
    · exact grows.lt_length (stands.known_lt taken)
    · exact grows.lt_length (stands.known_lt skipped)
  · simp [leave, isOpen]
  · simp [leave]
  · rw [branchOwner_eq]
    rcases owned b holds with ⟨header, owner⟩ | ⟨ordinary, made⟩
    · simp [leave, header, owner]
    · simpa [leave, isOpen, ordinary] using grows.ownerOf? (stands.owners _ made)

/-- Control goes on in a new header of a range, which is not left before its own test. -/
theorem header_leads {rest : Nat → Drafting α} {Q : α → FlowDraft → Prop}
    (next : ∀ test, Leads (At D (Header o) ((test, o) :: known) held names) (rest test) Q) :
    Leads (At D C known held names) (do
      let test ← newBlock .rangeLoop (some o)
      jump test
      goOn test
      rest test) Q := by
  intro d stands
  obtain ⟨b, found, -⟩ := stands.here
  have other : d.blocks.length ≠ d.current := (Nat.ne_of_lt (List.getElem?_eq_some_iff.mp found).1).symm
  let made := push d .rangeLoop (some o)
  have left : Sound D known held names (((jump d.blocks.length).run made).2) :=
    jump_leads made ⟨at_push stands, by simp [made, push]⟩
  have new : (((jump d.blocks.length).run made).2).blocks[d.blocks.length]? =
      some { kind := .rangeLoop, owner := some o } := (change_other (d := made) other).trans push_new
  refine next d.blocks.length _ ⟨sound_goOn { left with owners := ?_ } _, fun within => ?_, fun n _ place => ?_,
    _, new, rfl, rfl, rfl⟩
  · exact List.forall_mem_cons.mpr ⟨by simp [ownerOf?, new], left.owners⟩
  · exact Nat.lt_irrefl _ (stands.isOpen _ within).lt
  · exact Nat.lt_irrefl _ (stands.place_lt place)

/-! ## Labels -/

/-- The label has an entry under its name. -/
def Entered (name : String) (l : DraftLabel) (d : FlowDraft) : Prop :=
  d.labels.find? (·.name == name) = some l

/-- The draft after the first mention of a label, which makes its block. -/
def mention (d : FlowDraft) (name : String) : FlowDraft :=
  { push d .label none with labels := d.labels ++ [{ name := name, place := d.blocks.length }] }

section Mention

variable {d : FlowDraft} {name : String}

theorem place?_mention {n : String} {i : Nat} (place : (mention d name).place? n = some i) :
    d.place? n = some i ∨ n = name ∧ i = d.blocks.length := by
  obtain ⟨l, found, rfl⟩ := Option.map_eq_some_iff.mp place
  rw [mention, List.find?_append, Option.or_eq_some_iff] at found
  refine found.imp (fun old => Option.map_eq_some_iff.mpr ⟨l, old, rfl⟩) fun ⟨_, new⟩ => ?_
  obtain ⟨same, rfl⟩ : (name == n) = true ∧ _ = l := by simpa using new
  exact ⟨(beq_iff_eq.mp same).symm, rfl⟩

theorem sound_mention (sound : Sound D known held names d)
    (unknown : d.labels.find? (·.name == name) = none) : Sound D known held names (mention d name) := by
  have pushed : Sound D known held names (push d .label none) := sound_push sound
  have grows : (push d .label none).Grows (mention d name) := fun _ b found => ⟨b, found, rfl, fun _ => id⟩
  have fresh : ∀ n i, d.place? n = some i → i ≠ d.blocks.length := fun n i place =>
    Nat.ne_of_lt (sound.place_lt place)
  have none : d.place? name = none := by simp [place?, unknown]
  refine { pushed with
    leaves := fun b member => (pushed.leaves b member).mono grows
    waiting := ?_, labels := ?_, ownPlace := ?_ }
  · intro n listed i place
    rcases place?_mention place with old | ⟨rfl, rfl⟩
    · exact pushed.waiting n listed i old
    · exact ⟨⟨_, push_new, rfl, nofun⟩, fun within => Nat.lt_irrefl _ (sound.isOpen _ within).lt⟩
  · intro l listed i used
    rcases List.mem_append.mp listed with old | new
    · exact pushed.labels l old i used
    · obtain rfl := List.mem_singleton.mp new
      obtain rfl : i = d.blocks.length := by simpa using used
      simp [mention, push]
  · intro n n' i place place'
    rcases place?_mention place with old | ⟨rfl, rfl⟩ <;> rcases place?_mention place' with old' | ⟨rfl, same⟩
    · exact sound.ownPlace n n' i old old'
    · exact absurd same (fresh n i old)
    · exact absurd rfl (fresh n' _ old')
    · rfl

theorem at_mention (stands : At D C known held names d)
    (unknown : d.labels.find? (·.name == name) = none) : At D C known held names (mention d name) := by
  obtain ⟨b, found, rest⟩ := stands.here
  have lt := (List.getElem?_eq_some_iff.mp found).1
  refine ⟨sound_mention stands.toSound unknown, stands.notHeld, fun n listed place => ?_,
    b, (push_old lt).trans found, rest⟩
  rcases place?_mention place with old | ⟨-, same⟩
  · exact stands.notWaiting n listed old
  · exact Nat.ne_of_lt lt same

end Mention

theorem labelNamed_run (d : FlowDraft) (name : String) :
    (labelNamed name).run d = match d.labels.find? (·.name == name) with
      | some l => (l, d)
      | none => ({ name := name, place := d.blocks.length }, mention d name) := by
  change ((match d.labels.find? (·.name == name) with
    | some l => pure l
    | none => _ : Drafting DraftLabel).run d) = _
  cases d.labels.find? (·.name == name) <;> rfl

theorem labelNamed_at {name : String} :
    Leads (At D C known held names) (labelNamed name)
      (fun l d => At D C known held names d ∧ Entered name l d) := by
  intro d stands
  rw [labelNamed_run]
  cases found : d.labels.find? (·.name == name) with
  | some l => exact ⟨stands, found⟩
  | none =>
      refine ⟨at_mention stands found, ?_⟩
      simp [Entered, mention, List.find?_append, found]

/-- The block of a label that is still to come is as good as held. -/
theorem at_expect {d : FlowDraft} {name : String} {i : Nat}
    (stands : At D C known held (name :: names) d) (place : d.place? name = some i) :
    At D C known (i :: held) names d := by
  obtain ⟨isOpen, apart⟩ := stands.waiting name List.mem_cons_self i place
  obtain ⟨fresh, unplaced⟩ := List.nodup_cons.mp stands.unplaced
  refine ⟨⟨stands.leaves, stands.owners, List.nodup_cons.mpr ⟨apart, stands.apart⟩,
    List.forall_mem_cons.mpr ⟨isOpen, stands.isOpen⟩, fun n listed j place' => ?_, unplaced,
    stands.labels, stands.ownPlace⟩, ?_, fun n listed => stands.notWaiting n (List.mem_cons_of_mem _ listed),
    stands.here⟩
  · obtain ⟨isOpen', apart'⟩ := stands.waiting n (List.mem_cons_of_mem _ listed) j place'
    refine ⟨isOpen', List.not_mem_cons_of_ne_of_not_mem ?_ apart'⟩
    rintro rfl
    exact fresh (stands.ownPlace n name j place' place ▸ listed)
  · refine List.not_mem_cons_of_ne_of_not_mem ?_ stands.notHeld
    rintro rfl
    exact stands.notWaiting name List.mem_cons_self place

/-- A label that is still to come is placed: control goes on in its block. -/
theorem placeLabel_leads {name : String} {l : DraftLabel} :
    Leads (fun d => At D Ordinary known held (name :: names) d ∧ Entered name l d) (placeLabel l o)
      (fun _ => At D Ordinary known held names) := by
  have pre : ∀ d, At D Ordinary known held (name :: names) d ∧ Entered name l d →
      At D Ordinary known (l.place :: held) names d ∧ l.place < d.blocks.length := by
    rintro d ⟨stands, entered⟩
    have place : d.place? name = some l.place := congrArg (Option.map DraftLabel.place) entered
    exact ⟨at_expect stands place, stands.place_lt place⟩
  refine (jump_leads.before pre).bind fun _ => goOn_last.bind fun _ => ?_
  exact modifyCurrent_at (fun _ => rfl) (fun b o owned => by simp [owned]) (fun _ => rfl) fun _ => id

/-- The entry of a label after jumps to the label named have been aimed. -/
def redirect (name : String) (exit : Nat) (next : Option Nat) (l : DraftLabel) : DraftLabel :=
  if l.name == name then { l with exit := some exit, next := next.or l.next } else l

section Redirect

variable {name : String} {exit : Nat} {next : Option Nat}

theorem redirect_name (l : DraftLabel) : (redirect name exit next l).name = l.name := by
  unfold redirect
  split <;> rfl

theorem redirect_place (l : DraftLabel) : (redirect name exit next l).place = l.place := by
  unfold redirect
  split <;> rfl

theorem mem_redirect {l : DraftLabel} {i : Nat} (used : i ∈ (redirect name exit next l).place ::
      ((redirect name exit next l).exit.toList ++ (redirect name exit next l).next.toList)) :
    i ∈ l.place :: (l.exit.toList ++ l.next.toList) ∨ i = exit ∨ next = some i := by
  unfold redirect at used
  split at used
  · cases next <;> simp at used ⊢ <;> grind
  · exact .inl used

/-- Aiming leaves the labels where they are. -/
theorem place?_redirect (d : FlowDraft) (n : String) :
    { d with labels := d.labels.map (redirect name exit next) }.place? n = d.place? n := by
  have names : ((fun l : DraftLabel => l.name == n) ∘ redirect name exit next) = fun l => l.name == n :=
    funext fun l => congrArg (· == n) (redirect_name l)
  have places : DraftLabel.place ∘ redirect name exit next = DraftLabel.place := funext redirect_place
  simp only [place?, List.find?_map, Option.map_map, names, places]

theorem sound_redirect {d : FlowDraft} (sound : Sound D known held names d)
    (exits : exit ∈ known.map (·.1)) (repeats : ∀ i ∈ next, i ∈ known.map (·.1)) :
    Sound D known held names { d with labels := d.labels.map (redirect name exit next) } := by
  have grows : d.Grows { d with labels := d.labels.map (redirect name exit next) } :=
    fun _ b found => ⟨b, found, rfl, fun _ => id⟩
  refine { sound with
    leaves := fun b member => (sound.leaves b member).mono grows
    waiting := fun n listed i place => ?_
    labels := fun l listed i used => ?_
    ownPlace := fun n n' i place place' => ?_ }
  · exact sound.waiting n listed i (place?_redirect d n ▸ place)
  · obtain ⟨l, old, rfl⟩ := List.mem_map.mp listed
    rcases mem_redirect used with before | rfl | repeat_
    · exact sound.labels l old i before
    · exact sound.known_lt exits
    · exact sound.known_lt (repeats i repeat_)
  · exact sound.ownPlace n n' i (place?_redirect d n ▸ place) (place?_redirect d n' ▸ place')

end Redirect

section Aim

variable {label : Option String} {exit : Nat} {next : Option Nat} (exits : exit ∈ known.map (·.1))
  (repeats : ∀ i ∈ next, i ∈ known.map (·.1))

include exits repeats

theorem aim_leads : Leads (Sound D known held names) (aim label exit next)
    (fun _ => Sound D known held names) := by
  cases label with
  | none => exact fun _ => id
  | some name => exact fun _ sound => sound_redirect sound exits repeats

theorem aim_at : Leads (At D C known held names) (aim label exit next)
    (fun _ => At D C known held names) := by
  cases label with
  | none => exact fun _ => id
  | some name =>
      exact fun d stands => ⟨sound_redirect stands.toSound exits repeats, stands.notHeld,
        fun n listed => place?_redirect d n ▸ stands.notWaiting n listed, stands.here⟩

end Aim

/-- Jumps lead to blocks that are known. -/
def Within (known : List (Nat × NodeId)) (targets : List JumpTargets) : Prop :=
  ∀ t ∈ targets, ∀ i, t.exit = some i ∨ t.next = some i ∨ t.fall = some i → i ∈ known.map (·.1)

variable {targets : List JumpTargets}

theorem jumpTarget_at (within : Within known targets) (kind : BranchKind) (label : Option String) :
    Leads (At D C known held names) (jumpTarget targets kind label)
      (fun t d => At D C known held names d ∧ ∀ i ∈ t, i < d.blocks.length) := by
  have named (name : String) (read : DraftLabel → Option Nat)
      (part : ∀ l, ∀ i ∈ read l, i ∈ l.place :: (l.exit.toList ++ l.next.toList)) :
      Leads (At D C known held names) (do return read (← labelNamed name))
        (fun t d => At D C known held names d ∧ ∀ i ∈ t, i < d.blocks.length) := by
    refine labelNamed_at.bind fun l => (Leads.ret (read l)).before ?_
    rintro d ⟨stands, entered⟩
    exact ⟨stands, fun i used => stands.labels l (List.mem_of_find?_eq_some entered) i (part l i used)⟩
  have inner (read : JumpTargets → Option Nat)
      (part : ∀ t i, read t = some i → t.exit = some i ∨ t.next = some i ∨ t.fall = some i) :
      Leads (At D C known held names) (pure (targets.findSome? read))
        (fun t d => At D C known held names d ∧ ∀ i ∈ t, i < d.blocks.length) := by
    refine (Leads.ret _).before fun d stands => ⟨stands, fun i found => ?_⟩
    obtain ⟨t, member, offers⟩ := List.exists_of_findSome?_eq_some found
    exact stands.known_lt (within t member i (part t i offers))
  unfold jumpTarget
  split
  · exact named _ (·.exit) fun l i used => by simp [Option.mem_def.mp used]
  · exact named _ (·.next) fun l i used => by simp [Option.mem_def.mp used]
  · exact named _ (some ·.place) fun l i used => by simp [Option.mem_some.mp used]
  · exact inner _ fun _ _ => .inl
  · exact inner _ fun _ _ offers => .inr (.inl offers)
  · exact inner _ fun _ _ offers => .inr (.inr offers)
  · exact (Leads.ret _).before fun d stands => ⟨stands, nofun⟩

theorem branch_at (within : Within known targets) (id : NodeId) (kind : BranchKind) (label : Option Node) :
    Leads (At D Ordinary known held names) (branch targets id kind label)
      (fun _ => At D Ordinary known held names) := by
  have leave (t : Nat) : Leads (fun d => At D Ordinary known held names d ∧ t < d.blocks.length)
      (do jump t; cutOff id) (fun _ => At D Ordinary known held names) :=
    jump_leads.bind fun _ => cutOff_leads id
  refine (jumpTarget_at within kind _).bind fun t => ?_
  cases t with
  | some t => exact (leave t).before fun d ⟨stands, lt⟩ => ⟨stands, lt t rfl⟩
  | none =>
      refine ((newBlock_at .unreachable id nofun).before fun _ holds => holds.1).bind fun t => ?_
      refine (leave t).before fun d stands => ⟨?_, stands.known_lt (by simp)⟩
      exact stands.weaken (List.subset_cons_self ..) (fun _ => List.count_le_count_cons)
        fun _ => Nat.le_refl _

/-! ## Statements -/

/-- The program threads what places these labels: control comes from the current block to an open one,
and the blocks held by others stay open. -/
def Threads (D : NodeId → NodeId → Prop) (known : List (Nat × NodeId)) (names : List String)
    (p : Drafting Unit) : Prop :=
  ∀ held rest, Leads (At D Ordinary known held (names ++ rest)) p (fun _ => At D Ordinary known held rest)

/-- The program threads what places these labels, wherever its jumps may lead. -/
def ThreadsIn (D : NodeId → NodeId → Prop) (targets : List JumpTargets) (names : List String)
    (p : Drafting Unit) : Prop :=
  ∀ known, Within known targets → Threads D known names p

variable {known' : List (Nat × NodeId)}

theorem Leads.forget {P : FlowDraft → Prop} {p : Drafting α}
    (leads : Leads P p (fun _ => At D C known' held names)) (fewer : known ⊆ known') :
    Leads P p (fun _ => At D C known held names) :=
  leads.after fun _ _ stands => stands.weaken fewer (fun _ => Nat.le_refl _) fun _ => Nat.le_refl _

theorem Within.mono (within : Within known targets) (more : known ⊆ known') : Within known' targets :=
  fun t member i offers => List.map_subset _ more (within t member i offers)

theorem Within.push {exit : Nat} {next fall : Option Nat} (within : Within known targets)
    (exits : exit ∈ known.map (·.1)) (repeats : ∀ i ∈ next, i ∈ known.map (·.1))
    (falls : ∀ i ∈ fall, i ∈ known.map (·.1)) :
    Within known ({ exit := some exit, next := next, fall := fall } :: targets) := by
  refine List.forall_mem_cons.mpr ⟨fun i offers => ?_, within⟩
  rcases offers with here | again | below
  · exact Option.some.inj here ▸ exits
  · exact repeats i again
  · exact falls i below

section Parts

variable {panics : Bool} {label : Option String} {m : Mark}
  {init cond post orElse key value tag : Option Node} {test x body : Node}

theorem ifStmt_threads
    (first : ThreadsIn D targets (Node.labelsOpt init) (stmtOpt panics targets init))
    (inner : ThreadsIn D targets body.labels (stmt panics targets none body))
    (other : ThreadsIn D targets (Node.labelsOpt orElse) (stmtOpt panics targets orElse))
    (decides : D m.id test.id) :
    ThreadsIn D targets (Node.ifStmt m init test body orElse).labels
      (stmt panics targets label (.ifStmt m init test body orElse)) := by
  intro known within held rest
  dsimp only [stmt]
  dsimp only [Node.labels]
  simp only [List.append_assoc]
  refine (first known within held _).bind fun _ => ?_
  refine (newBlock_at .ifThen m.id nofun).bind fun then_ => ?_
  refine (newBlock_at .ifDone m.id nofun).bind fun done => ?_
  cases orElse with
  | none =>
      simp only [Option.isSome_none, Bool.false_eq_true, if_false, pure_bind]
      have more : known ⊆ (done, m.id) :: (then_, m.id) :: known := by simp
      refine decide_leads decides (by simp) (by simp) (fun _ ordinary => .inr ⟨ordinary, by simp⟩) ?_
      refine (goOn_leads (done :: held) fun i => ?_).bind fun _ => ?_
      · simp only [List.count_cons]
        omega
      refine (inner _ (within.mono more) _ _).bind fun _ => ?_
      exact (jump_known (by simp)).bind fun _ => goOn_last.forget more
  | some e =>
      simp only [Option.isSome_some, if_true]
      refine (newBlock_at .ifElse m.id nofun).bind fun else_ => ?_
      have more : known ⊆ (else_, m.id) :: (done, m.id) :: (then_, m.id) :: known :=
        fun _ listed => by simp [listed]
      refine decide_leads decides (by simp) (by simp) (fun _ ordinary => .inr ⟨ordinary, by simp⟩) ?_
      refine (goOn_leads (else_ :: done :: held) fun i => ?_).bind fun _ => ?_
      · simp only [List.count_cons]
        omega
      refine (inner _ (within.mono more) _ _).bind fun _ => ?_
      refine (jump_known (by simp)).bind fun _ => goOn_last.bind fun _ => ?_
      refine (other _ (within.mono more) _ _).bind fun _ => ?_
      exact (jump_known (by simp)).bind fun _ => goOn_last.forget more

theorem rangeStmt_threads (inner : ∀ exit next, ThreadsIn D ({ exit := some exit, next := some next } :: targets)
      body.labels (stmt panics ({ exit := some exit, next := some next } :: targets) none body))
    (decides : D m.id m.id) :
    ThreadsIn D targets (Node.rangeStmt m key value x body).labels
      (stmt panics targets label (.rangeStmt m key value x body)) := by
  intro known within held rest
  dsimp only [stmt]
  dsimp only [Node.labels]
  refine header_leads (o := m.id) fun test => ?_
  refine (newBlock_at .rangeBody m.id nofun).bind fun inside => ?_
  refine (newBlock_at .rangeDone m.id nofun).bind fun done => ?_
  have more : known ⊆ (done, m.id) :: (inside, m.id) :: (test, m.id) :: known :=
    fun _ listed => by simp [listed]
  refine decide_leads decides (by simp) (by simp) (fun _ => .inl) ?_
  refine (aim_leads (by simp) (by simp)).bind fun _ => ?_
  refine (goOn_leads (done :: held) fun i => ?_).bind fun _ => ?_
  · simp only [List.count_cons]
    omega
  refine (inner done test _ ((within.mono more).push (by simp) (by simp) (by simp)) _ _).bind fun _ => ?_
  exact (jump_known (by simp)).bind fun _ => goOn_last.forget more

section Loop

variable (held names) (label) {test again inside done : Nat}
  (inner : ThreadsIn D ({ exit := some done, next := some again } :: targets) body.labels
    (stmt panics ({ exit := some done, next := some again } :: targets) none body))
  (last : ThreadsIn D targets (Node.labelsOpt post) (stmtOpt panics targets post))
  (within : Within known targets) (exits : done ∈ known.map (·.1))
  (repeats : again ∈ known.map (·.1)) (tests : test ∈ known.map (·.1))

include inner last within exits repeats tests

/-- One turn of a loop: from its body to the next test, by the statement between them if there is one. -/
theorem turn_leads :
    Leads (At D Ordinary known (post.toList.map (fun _ => again) ++ done :: held)
        (body.labels ++ (Node.labelsOpt post ++ names)))
      (do
        stmt panics ({ exit := some done, next := some again } :: targets) none body
        jump again
        if post.isSome then
          goOn again
          stmtOpt panics targets post
          jump test
        goOn done)
      (fun _ => At D Ordinary known held names) := by
  refine (inner _ (within.push exits (by simpa using repeats) (by simp)) _ _).bind fun _ => ?_
  refine (jump_known repeats).bind fun _ => ?_
  cases post with
  | none => exact goOn_last
  | some l =>
      refine goOn_last.bind fun _ => (last _ within _ _).bind fun _ => ?_
      exact (jump_known tests).bind fun _ => goOn_last

/-- A loop once its blocks are made. Without a condition its test is its body. -/
theorem loop_leads (decides : ∀ c ∈ cond, D o c.id) (made : (inside, o) ∈ known)
    (same : cond = none → test = inside) :
    Leads (At D Ordinary known
        (post.toList.map (fun _ => again) ++ (cond.toList.map (fun _ => test) ++ done :: inside :: held))
        (body.labels ++ (Node.labelsOpt post ++ names)))
      (do
        aim label done (some again)
        jump test
        goOn test
        match cond with
        | some c =>
          add c.id
          jump inside
          jump done
          goOn inside
        | none => pure ()
        stmt panics ({ exit := some done, next := some again } :: targets) none body
        jump again
        if post.isSome then
          goOn again
          stmtOpt panics targets post
          jump test
        goOn done)
      (fun _ => At D Ordinary known held names) := by
  have turn := turn_leads held names inner last within exits repeats tests
  have enters : inside ∈ known.map (·.1) := List.mem_map.mpr ⟨_, made, rfl⟩
  refine (aim_at exits (by simpa using repeats)).bind fun _ => (jump_known tests).bind fun _ => ?_
  cases cond with
  | none =>
      obtain rfl := same rfl
      refine (goOn_leads _ fun i => ?_).bind fun _ => turn
      simp only [List.count_append, List.count_cons, Option.toList_none, List.map_nil, List.nil_append]
      omega
  | some c =>
      refine (goOn_leads (post.toList.map (fun _ => again) ++ done :: inside :: held)
        fun i => ?_).bind fun _ => ?_
      · simp only [List.count_append, List.count_cons, Option.toList_some, List.map_cons, List.map_nil,
          List.count_nil]
        omega
      refine decide_leads (decides c rfl) enters exits (fun _ ordinary => .inr ⟨ordinary, made⟩) ?_
      refine (goOn_leads _ fun i => ?_).bind fun _ => turn
      simp only [List.count_append, List.count_cons]
      omega

end Loop

theorem forStmt_threads
    (first : ThreadsIn D targets (Node.labelsOpt init) (stmtOpt panics targets init))
    (inner : ∀ exit next, ThreadsIn D ({ exit := some exit, next := some next } :: targets)
      body.labels (stmt panics ({ exit := some exit, next := some next } :: targets) none body))
    (last : ThreadsIn D targets (Node.labelsOpt post) (stmtOpt panics targets post))
    (decides : ∀ c ∈ cond, D m.id c.id) :
    ThreadsIn D targets (Node.forStmt m init cond post body).labels
      (stmt panics targets label (.forStmt m init cond post body)) := by
  intro known within held rest
  dsimp only [stmt]
  dsimp only [Node.labels]
  simp only [List.append_assoc]
  refine (first known within held _).bind fun _ => ?_
  refine (newBlock_at .forBody m.id nofun).bind fun inside => ?_
  refine (newBlock_at .forDone m.id nofun).bind fun done => ?_
  have loop {known' : List (Nat × NodeId)} (more : known ⊆ known') (made : (inside, m.id) ∈ known')
      {test again : Nat} (exits : done ∈ known'.map (·.1)) (repeats : again ∈ known'.map (·.1))
      (tests : test ∈ known'.map (·.1)) (same : cond = none → test = inside) :=
    (loop_leads held rest label (inner done again) last
      (within.mono more) exits repeats tests decides made same).forget more
  cases cond with
  | none =>
      cases post with
      | none => exact loop (by simp) (by simp) (by simp) (by simp) (by simp) (fun _ => rfl)
      | some l =>
          rw [if_neg nofun, pure_bind]
          refine (newBlock_at .forPost m.id nofun).bind fun again => ?_
          exact loop (fun _ listed => by simp [listed]) (by simp) (by simp) (by simp) (by simp) (fun _ => rfl)
  | some c =>
      refine (newBlock_at .forLoop m.id nofun).bind fun test => ?_
      cases post with
      | none => exact loop (fun _ listed => by simp [listed]) (by simp) (by simp) (by simp) (by simp) nofun
      | some l =>
          refine (newBlock_at .forPost m.id nofun).bind fun again => ?_
          exact loop (fun _ listed => by simp [listed]) (by simp) (by simp) (by simp) (by simp) nofun

/-! ### Switches -/

theorem caseTests_leads {clause : NodeId} {inside : Nat} {values : List Node}
    (made : (inside, clause) ∈ known) (decides : ∀ v ∈ values, D clause v.id) :
    Leads (At D Ordinary known held names) (caseTests clause inside values)
      (fun _ => At D Ordinary known held names) := by
  induction values with
  | nil => exact fun _ => id
  | cons v values ih =>
      obtain ⟨first, rest⟩ := List.forall_mem_cons.mp decides
      refine (newBlock_at .switchNextCase clause nofun).bind fun next => ?_
      have made' : (inside, clause) ∈ (next, clause) :: known := List.mem_cons_of_mem _ made
      refine decide_leads first (List.mem_map.mpr ⟨_, made', rfl⟩) (by simp)
        (fun _ ordinary => .inr ⟨ordinary, made'⟩) ?_
      exact (goOn_last.forget (List.subset_cons_self ..)).bind fun _ => ih rest

/-- The block reserved for the next of the clauses to come, if there is one. -/
def reservedFor (reserved : Option Nat) : List Node → List Nat
  | [] => []
  | _ :: _ => reserved.toList

/-- The blocks of a clause are its own, new or reserved, and that of the next clause or the last one. -/
theorem clauseBlock_leads {reserved : Option Nat} {clause : Node} {others : List Node} {done : Nat}
    {f : Nat × Nat → Drafting α} {Q : α → FlowDraft → Prop} (exits : done ∈ known.map (·.1))
    (made : ∀ b ∈ reserved, (b, clause.id) ∈ known)
    (next : ∀ known' inside after, known ⊆ known' → (inside, clause.id) ∈ known' →
      after ∈ known'.map (·.1) → (∀ c ∈ others.head?, (after, c.id) ∈ known') →
      Leads (At D Ordinary known' (inside :: (reservedFor (some after) others ++ held)) names)
        (f (inside, after)) Q) :
    Leads (At D Ordinary known (reserved.toList ++ held) names)
      (clauseBlock reserved clause others.head? done >>= f) Q := by
  have follows (known' : List (Nat × NodeId)) (inside : Nat) (more : known ⊆ known')
      (own : (inside, clause.id) ∈ known') :
      Leads (At D Ordinary known' (inside :: held) names)
        ((do
          let after ← match others.head? with
            | some c => newBlock .switchCaseBody (some c.id)
            | none => pure done
          return (inside, after)) >>= f) Q := by
    cases others with
    | nil => exact next known' inside done more own (List.map_subset _ more exits) nofun
    | cons c others =>
        simp only [List.head?_cons, bind_assoc, pure_bind]
        refine (newBlock_at .switchCaseBody c.id nofun).bind fun after => ?_
        refine (next ((after, c.id) :: known') inside after (List.subset_cons_of_subset _ more)
          (List.mem_cons_of_mem _ own) (by simp) (by simp)).before fun d stands => ?_
        refine stands.weaken (List.Subset.refl _) (fun i => ?_) fun _ => Nat.le_refl _
        simp only [reservedFor, Option.toList_some, List.cons_append, List.nil_append, List.count_cons]
        omega
  cases reserved with
  | none =>
      exact (newBlock_at .switchCaseBody clause.id nofun).bind fun inside =>
        follows _ inside (List.subset_cons_self ..) List.mem_cons_self
  | some b => exact follows known b (List.Subset.refl _) (made b rfl)

/-- What is left to thread of a list of clauses comes to an open block with `held` still held. -/
def Later (D : NodeId → NodeId → Prop) (known : List (Nat × NodeId)) (held : List Nat)
    (names : List String) (later : Option (Drafting Unit)) (d : FlowDraft) : Prop :=
  At D Ordinary known held names ((later.getD (pure ())).run d).2

/-- The clauses, of which the first may have a block already, are threaded wherever jumps may lead. -/
def ThreadsClauses (D : NodeId → NodeId → Prop) (panics : Bool) (targets : List JumpTargets) (done : Nat)
    (clauses : List Node) : Prop :=
  ∀ reserved known held rest, Within known targets → done ∈ known.map (·.1) →
    (∀ b ∈ reserved, ∀ c ∈ clauses.head?, (b, c.id) ∈ known) →
    Leads (At D Ordinary known (reservedFor reserved clauses ++ held) (Node.labelsAll clauses ++ rest))
      (clauseAll panics targets done reserved clauses) (Later D known held rest)

theorem clause_threads {done : Nat} {values stmts others : List Node}
    (inner : ∀ after, ThreadsIn D ({ exit := some done, fall := some after } :: targets)
      (Node.labelsAll stmts) (stmtAll panics ({ exit := some done, fall := some after } :: targets) stmts))
    (rest : ThreadsClauses D panics targets done others) (decides : ∀ v ∈ values, D m.id v.id) :
    ThreadsClauses D panics targets done (.caseClause m values stmts :: others) := by
  intro reserved known held names within exits made
  dsimp only [clauseAll]
  dsimp only [Node.labelsAll, Node.labels]
  simp only [List.append_assoc]
  refine clauseBlock_leads exits (fun b has => made b has _ rfl)
    fun known' inside after more own below follows => ?_
  have exits' : done ∈ known'.map (·.1) := List.map_subset _ more exits
  have body := inner after known' ((within.mono more).push exits' nofun (by simpa using below))
  have others' := fun held names => rest (some after) known' held names (within.mono more) exits'
    fun b here c first => Option.some.inj here ▸ follows c first
  cases values with
  | nil =>
      -- the clause is threaded last: what it needs is held, and its labels wait
      have here : Leads (At D Ordinary known' (inside :: held) (Node.labelsAll stmts ++ names))
          (do
            jump inside
            goOn inside
            stmtAll panics ({ exit := some done, fall := some after } :: targets) stmts)
          (fun _ => At D Ordinary known' held names) :=
        (jump_known (List.mem_map.mpr ⟨_, own, rfl⟩)).bind fun _ => goOn_last.bind fun _ => body held names
      have before := (others' (inside :: held) (Node.labelsAll stmts ++ names)).before
        fun d (stands : At D Ordinary known' (inside :: (reservedFor (some after) others ++ held))
          (Node.labelsAll stmts ++ (Node.labelsAll others ++ names)) d) =>
          stands.weaken (List.Subset.refl _)
            (fun i => by simp only [List.count_append, List.count_cons]; omega)
            (fun i => by simp only [List.count_append]; omega)
      refine before.bind fun later => (Leads.ret _).before fun d stands => ?_
      cases later with
      | some r =>
          exact stands.weaken more (fun i => List.count_le_count_cons)
            fun i => by simp only [List.count_append]; omega
      | none => exact (here.forget more) d stands
  | cons v values =>
      refine (caseTests_leads own decides).bind fun _ => hold_leads fun s => ?_
      refine (goOn_leads (s.current :: (reservedFor (some after) others ++ held))
        fun i => ?_).bind fun _ => ?_
      · simp only [List.count_cons]
        omega
      refine (body _ _).bind fun _ => (jump_known exits').bind fun _ => goOn_last.bind fun _ => ?_
      exact (others' held names).after fun later d stands =>
        stands.weaken more (fun _ => Nat.le_refl _) fun _ => Nat.le_refl _

theorem clauses_threads {done : Nat} {list : List Node} (within : Within known targets)
    (exits : done ∈ known.map (·.1)) (each : ThreadsClauses D panics targets done list) :
    Threads D known (Node.labelsAll list) (clauses panics targets done (.block m list)) := by
  intro held rest
  dsimp only [clauses]
  have first := each none known held rest within exits nofun
  have none_held : reservedFor none list = [] := by cases list <;> rfl
  rw [none_held, List.nil_append] at first
  refine first.bind fun later => ?_
  cases later with
  | none => exact fun _ => id
  | some last => exact fun _ => id

theorem switchStmt_threads {bm : Mark} {list : List Node}
    (first : ThreadsIn D targets (Node.labelsOpt init) (stmtOpt panics targets init))
    (each : ∀ done, ThreadsClauses D panics targets done list) :
    ThreadsIn D targets (Node.switchStmt m init tag (.block bm list)).labels
      (stmt panics targets label (.switchStmt m init tag (.block bm list))) := by
  intro known within held rest
  have from_tag : Leads (At D Ordinary known held (Node.labelsAll list ++ rest)) (do
        let done ← newBlock .switchDone (some m.id)
        aim label done none
        clauses panics targets done (.block bm list)
        jump done
        goOn done)
      (fun _ => At D Ordinary known held rest) := by
    refine (newBlock_at .switchDone m.id nofun).bind fun done => ?_
    have more : known ⊆ (done, m.id) :: known := List.subset_cons_self ..
    refine (aim_at (by simp) (by simp)).bind fun _ => ?_
    refine (clauses_threads (within.mono more) (by simp) (each done) _ _).bind fun _ => ?_
    exact (jump_known (by simp)).bind fun _ => goOn_last.forget more
  dsimp only [stmt]
  dsimp only [Node.labels]
  simp only [List.append_assoc]
  refine (first known within held _).bind fun _ => ?_
  cases tag with
  | none => exact from_tag
  | some t => exact (add_at _ fun _ _ => id).bind fun _ => from_tag

end Parts

/-! ### All statements -/

theorem add_threads (n : NodeId) {ids : List String} : ThreadsIn D targets ids (add n) :=
  fun _ _ _ _ => (add_at n fun _ _ => id).after fun _ _ stands =>
    stands.weaken (List.Subset.refl _) (fun _ => Nat.le_refl _) fun name => by simp

theorem forM_add_leads (ns : List NodeId) :
    Leads (At D Ordinary known held names) (ns.forM add) (fun _ => At D Ordinary known held names) := by
  induction ns with
  | nil => exact fun _ => id
  | cons n ns ih => exact (add_at n fun _ _ => id).bind fun _ => ih

theorem declStmt_threads {panics : Bool} {label : Option String} {m : Mark} {decl : Node} :
    ThreadsIn D targets [] (stmt panics targets label (.declStmt m decl)) := by
  intro known within held rest
  cases decl with
  | decl dm kind specs =>
      dsimp only [stmt]
      split
      · exact forM_add_leads _
      · exact fun _ => id
  | _ =>
      dsimp only [stmt]
      exact add_threads _ known within held rest

theorem labeled_threads {panics : Bool} {label : Option String} {m : Mark} {l s : Node}
    (inner : ∀ label, ThreadsIn D targets s.labels (stmt panics targets label s)) :
    ThreadsIn D targets (Node.labeled m l s).labels (stmt panics targets label (.labeled m l s)) := by
  intro known within held rest
  dsimp only [stmt]
  exact labelNamed_at.bind fun _ => placeLabel_leads.bind fun _ => inner _ known within held rest

theorem exprStmt_threads {panics : Bool} {label : Option String} {m : Mark} {x : Node} :
    ThreadsIn D targets [] (stmt panics targets label (.exprStmt m x)) := by
  intro known within held rest
  dsimp only [stmt]
  refine (add_at _ fun _ _ => id).bind fun _ => ?_
  split
  · exact (cutOff_leads _).before fun _ stands => stands.toSound
  · exact fun _ => id

theorem ret_threads {panics : Bool} {label : Option String} {m : Mark} {results : List Node} :
    ThreadsIn D targets [] (stmt panics targets label (.ret m results)) := by
  intro known within held rest
  dsimp only [stmt]
  exact (add_at _ fun _ _ => id).bind fun _ => (cutOff_leads _).before fun _ stands => stands.toSound

mutual

/-- A statement leaves each block that it is given as its conditions decide, and comes to an open one. -/
theorem stmt_threads (panics : Bool) (targets : List JumpTargets) (label : Option String) (n : Node)
    (clausal : n.Clausal) (decides : ∀ o test, n.Decides o test → D o test) :
    ThreadsIn D targets n.labels (stmt panics targets label n) := by
  have inner (c : Node) (child : c ∈ n.children) (o test : NodeId) (below : c.Decides o test) : D o test :=
    decides o test (below.child child)
  have own (test : NodeId) (among : test ∈ n.tests) : D n.id test :=
    decides n.id test ⟨n, n.self_mem_preorder, rfl, among⟩
  cases n with
  | block m stmts =>
      cases clausal with
      | block each =>
          dsimp only [stmt]
          exact stmtAll_threads panics targets stmts each inner
      | simple plain => cases plain.noCompound
  | labeled m l s =>
      cases clausal with
      | labeled clausal =>
          exact labeled_threads fun label => stmt_threads panics targets label s clausal
            (inner s (.tail _ (.head _)))
      | simple plain => cases plain.noCompound
  | ret m results => exact ret_threads
  | branch m kind l =>
      dsimp only [stmt]
      exact fun known within held rest => branch_at within m.id kind l
  | ifStmt m init test body orElse =>
      cases clausal with
      | ifStmt first clausal other =>
          have late {s : Node} (there : s ∈ test :: body :: orElse.toList) :
              s ∈ (Node.ifStmt m init test body orElse).children := List.mem_append_right _ there
          exact ifStmt_threads
            (stmtOpt_threads panics targets init first fun s there =>
              inner s (List.mem_append_left _ (Option.mem_toList.mpr there)))
            (stmt_threads panics targets none body clausal (inner body (late (.tail _ (.head _)))))
            (stmtOpt_threads panics targets orElse other fun s there =>
              inner s (late (.tail _ (.tail _ (Option.mem_toList.mpr there)))))
            (own test.id (List.mem_singleton_self _))
      | simple plain => cases plain.noCompound
  | forStmt m init cond post body =>
      cases clausal with
      | forStmt first clausal last =>
          have late {s : Node} (there : s ∈ post.toList ++ [body]) :
              s ∈ (Node.forStmt m init cond post body).children :=
            List.mem_append_right _ (List.mem_append_right _ there)
          exact forStmt_threads
            (stmtOpt_threads panics targets init first fun s there =>
              inner s (List.mem_append_left _ (Option.mem_toList.mpr there)))
            (fun _ _ => stmt_threads panics _ none body clausal
              (inner body (late (List.mem_append_right _ (List.mem_singleton_self _)))))
            (stmtOpt_threads panics targets post last fun s there =>
              inner s (late (List.mem_append_left _ (Option.mem_toList.mpr there))))
            fun c there => own c.id (List.mem_map_of_mem (Option.mem_toList.mpr there))
      | simple plain => cases plain.noCompound
  | rangeStmt m key value x body =>
      cases clausal with
      | rangeStmt clausal =>
          exact rangeStmt_threads
            (fun _ _ => stmt_threads panics _ none body clausal (inner body
              (List.mem_append_right _ (List.mem_append_right _ (.tail _ (.head _))))))
            (own m.id (List.mem_singleton_self _))
      | simple plain => cases plain.noCompound
  | switchStmt m init tag body =>
      cases body with
      | block bm list =>
          cases clausal with
          | switchStmt first only clausal =>
              exact switchStmt_threads
                (stmtOpt_threads panics targets init first fun s there =>
                  inner s (List.mem_append_left _ (Option.mem_toList.mpr there)))
                fun done => clauseAll_threads panics targets done list only clausal
                  fun c listed o test below => inner (.block bm list)
                    (List.mem_append_right _ (List.mem_append_right _ (List.mem_singleton_self _)))
                    o test (below.child listed)
          | simple plain => cases plain.noSwitch
      | _ =>
          cases clausal with
          | simple plain => cases plain.noSwitch
  | declStmt => exact declStmt_threads
  | exprStmt => exact exprStmt_threads
  | _ =>
      dsimp only [stmt]
      exact add_threads _

theorem stmtAll_threads (panics : Bool) (targets : List JumpTargets) (ns : List Node)
    (clausal : ∀ n ∈ ns, n.Clausal) (decides : ∀ n ∈ ns, ∀ o test, n.Decides o test → D o test) :
    ThreadsIn D targets (Node.labelsAll ns) (stmtAll panics targets ns) := by
  cases ns with
  | nil => exact fun _ _ _ _ _ => id
  | cons n ns =>
      obtain ⟨first, others⟩ := List.forall_mem_cons.mp clausal
      obtain ⟨here, there⟩ := List.forall_mem_cons.mp decides
      intro known within held rest
      dsimp only [Node.labelsAll]
      simp only [List.append_assoc]
      exact (stmt_threads panics targets none n first here known within held _).bind fun _ =>
        stmtAll_threads panics targets ns others there known within held rest

theorem stmtOpt_threads (panics : Bool) (targets : List JumpTargets) (n : Option Node)
    (clausal : ∀ s ∈ n, s.Clausal) (decides : ∀ s ∈ n, ∀ o test, s.Decides o test → D o test) :
    ThreadsIn D targets (Node.labelsOpt n) (stmtOpt panics targets n) := by
  cases n with
  | none => exact fun _ _ _ _ _ => id
  | some n => exact stmt_threads panics targets none n (clausal n rfl) (decides n rfl)

theorem clauseAll_threads (panics : Bool) (targets : List JumpTargets) (done : Nat) (ns : List Node)
    (only : ∀ c ∈ ns, c.isClause = true)
    (clausal : ∀ m values stmts, Node.caseClause m values stmts ∈ ns → ∀ s ∈ stmts, s.Clausal)
    (decides : ∀ n ∈ ns, ∀ o test, n.Decides o test → D o test) :
    ThreadsClauses D panics targets done ns := by
  cases ns with
  | nil => exact fun _ _ _ _ _ _ _ _ stands => stands
  | cons n ns =>
      obtain ⟨isClause, others⟩ := List.forall_mem_cons.mp only
      obtain ⟨here, there⟩ := List.forall_mem_cons.mp decides
      cases n with
      | caseClause m values stmts =>
          refine clause_threads (fun after => ?_) (clauseAll_threads panics targets done ns others
            (fun m values stmts listed => clausal m values stmts (List.mem_cons_of_mem _ listed)) there)
            fun v listed => here m.id v.id
              ⟨_, Node.self_mem_preorder _, rfl, List.mem_map_of_mem listed⟩
          exact stmtAll_threads panics _ stmts (clausal m values stmts List.mem_cons_self)
            fun s listed o test below => here o test (below.child (List.mem_append_right _ listed))
      | _ => cases isClause

end

end Drafting

end Retarget
