/-
# Proofs.TupleAssignment -- values that are assigned together

An assignment of several values evaluates them all, and what its targets are found by, before it
stores any of them; then it stores them from left to right.  C executes the print of it one
assignment after another.  Both leave the same memory if no target and no value reads a cell that an
assignment before it changes (`Meaning.inOrder_eq_atOnce`).  Where the targets are variables this can
be told from the names alone, and nothing less will do: if a value mentions the target of an
assignment before it, then the two differ under the free meaning, in which every expression has a
value of its own, unless that assignment assigns the variable to itself (`keeps_of_free`).
-/
import Retarget.Proofs.PrintedAssignment
import Mathlib.Data.List.Induction
import Mathlib.Data.Set.Insert
import Mathlib.Logic.Function.Basic

namespace Retarget

open Retarget.Source (Node Mark AssignOp BinaryOp UnaryOp LiteralKind)
open Retarget.C (Token lex)

set_option autoImplicit false
set_option linter.dupNamespace false

/-! ## Expressions by their parts -/

namespace Source.Node

/-- Nodes whose value is not made from those of others. -/
def isLeaf : Node → Bool
  | .name .. | .paren .. | .unary .. | .deref .. | .binary .. | .index .. | .select .. | .call .. =>
    false
  | _ => true

/-- Induction on what the value of an expression is made from. -/
theorem expression_induction {P : Node → Prop} (name : ∀ m x, P (.name m x))
    (paren : ∀ m x, P x → P (.paren m x)) (unary : ∀ m op x, P x → P (.unary m op x))
    (deref : ∀ m x, P x → P (.deref m x)) (binary : ∀ m op x y, P x → P y → P (.binary m op x y))
    (index : ∀ m x i, P x → P i → P (.index m x i)) (select : ∀ m x f, P x → P (.select m x f))
    (call : ∀ m f args spread, P f → (∀ a ∈ args, P a) → P (.call m f args spread))
    (leaf : ∀ e : Node, e.isLeaf = true → P e) (e : Node) : P e := by
  induction size : sizeOf e using Nat.strong_induction_on generalizing e with
  | _ size' ih =>
      subst size
      cases e with
      | name m x => exact name m x
      | paren m x => exact paren m x (ih _ (by simp +arith) x rfl)
      | unary m op x => exact unary m op x (ih _ (by simp +arith) x rfl)
      | deref m x => exact deref m x (ih _ (by simp +arith) x rfl)
      | binary m op x y =>
          exact binary m op x y (ih _ (by simp +arith) x rfl) (ih _ (by simp +arith) y rfl)
      | index m x i =>
          exact index m x i (ih _ (by simp +arith) x rfl) (ih _ (by simp +arith) i rfl)
      | select m x f => exact select m x f (ih _ (by simp +arith) x rfl)
      | call m f args spread =>
          refine call m f args spread (ih _ (by simp +arith) f rfl) fun a member => ?_
          have smaller := List.sizeOf_lt_of_mem member
          exact ih _ (by simp only [Node.call.sizeOf_spec]; omega) a rfl
      | _ => exact leaf _ rfl

/-- Variables and elements. -/
def isPlace : Node → Bool
  | .name .. | .deref .. | .index .. => true
  | .paren _ x => isPlace x
  | _ => false

mutual

/-- The variables that an expression mentions. -/
def mentions : Node → List String
  | .name _ x => [x]
  | .paren _ x => mentions x
  | .unary _ .address x => placeMentions x
  | .unary _ _ x => mentions x
  | .deref _ x => mentions x
  | .binary _ _ x y => mentions x ++ mentions y
  | .index _ x i => mentions x ++ mentions i
  | .select _ x _ => mentions x
  | .call _ f args _ => mentions f ++ mentionsAll args
  | _ => []

/-- The variables that tell where a variable or an element is kept. -/
def placeMentions : Node → List String
  | .paren _ x => placeMentions x
  | .deref _ x => mentions x
  | .index _ x i => mentions x ++ mentions i
  | _ => []

def mentionsAll : List Node → List String
  | [] => []
  | x :: xs => mentions x ++ mentionsAll xs

end

theorem mentions_unary {op : UnaryOp} (other : op ≠ .address) (m : Mark) (x : Node) :
    (Node.unary m op x).mentions = x.mentions := by
  cases op <;> first | rfl | exact absurd rfl other

theorem mem_mentionsAll {xs : List Node} {v : String} :
    v ∈ mentionsAll xs ↔ ∃ x ∈ xs, v ∈ x.mentions := by
  induction xs with
  | nil => simp [mentionsAll]
  | cons x xs ih =>
      show v ∈ x.mentions ++ mentionsAll xs ↔ _
      rw [List.mem_append, ih, List.exists_mem_cons_iff]

end Source.Node

/-! ## Stores -/

/-- Where a value is kept: a variable, or an element found by a value and an index. -/
inductive Location (α : Type) where
  | variable (name : String)
  | element (base index : α)
deriving DecidableEq

abbrev Store (α : Type) := Location α → α

/-- A meaning of operators, literals and functions.  A function computes from its arguments and from
the locations it looks at. -/
structure Meaning (α : Type) where
  literal : LiteralKind → String → α
  unary : UnaryOp → α → α
  binary : BinaryOp → α → α → α
  member : α → String → α
  address : Location α → α
  /-- The index of the element that a pointer points to. -/
  first : α
  call : α → List α → Store α → α
  looks : α → List α → Store α → Set (Location α)
  call_congr : ∀ f args (s s' : Store α), (∀ c ∈ looks f args s, s' c = s c) →
    call f args s' = call f args s
  /-- What is no expression that reads and computes. -/
  other : Node → α

namespace Meaning

variable {α : Type} (A : Meaning α)

mutual

/-- The value of an expression. -/
def eval : Node → Store α → α
  | .name _ x, s => s (.variable x)
  | .literal _ kind text, _ => A.literal kind text
  | .paren _ x, s => eval x s
  | .unary _ .address x, s => A.address (locate x s)
  | .unary _ op x, s => A.unary op (eval x s)
  | .deref _ x, s => s (.element (eval x s) A.first)
  | .binary _ op x y, s => A.binary op (eval x s) (eval y s)
  | .index _ x i, s => s (.element (eval x s) (eval i s))
  | .select _ x field, s => A.member (eval x s) (field.name?.getD "")
  | .call _ f args _, s => A.call (eval f s) (evalAll args s) s
  | n, _ => A.other n

/-- Where a variable or an element is kept.  Other expressions are no targets. -/
def locate : Node → Store α → Location α
  | .name _ x, _ => .variable x
  | .paren _ x, s => locate x s
  | .deref _ x, s => .element (eval x s) A.first
  | .index _ x i, s => .element (eval x s) (eval i s)
  | _, _ => .variable ""

def evalAll : List Node → Store α → List α
  | [], _ => []
  | x :: xs, s => eval x s :: evalAll xs s

end

mutual

/-- The locations that the value of an expression depends on. -/
def reads : Node → Store α → Set (Location α)
  | .name _ x, _ => {.variable x}
  | .paren _ x, s => reads x s
  | .unary _ .address x, s => operandReads x s
  | .unary _ _ x, s => reads x s
  | .deref _ x, s => insert (.element (A.eval x s) A.first) (reads x s)
  | .binary _ _ x y, s => reads x s ∪ reads y s
  | .index _ x i, s => insert (.element (A.eval x s) (A.eval i s)) (reads x s ∪ reads i s)
  | .select _ x _, s => reads x s
  | .call _ f args _, s =>
    reads f s ∪ readsAll args s ∪ A.looks (A.eval f s) (A.evalAll args s) s
  | _, _ => ∅

/-- The locations that are read to find that of a variable or an element. -/
def operandReads : Node → Store α → Set (Location α)
  | .paren _ x, s => operandReads x s
  | .deref _ x, s => reads x s
  | .index _ x i, s => reads x s ∪ reads i s
  | _, _ => ∅

def readsAll : List Node → Store α → Set (Location α)
  | [], _ => ∅
  | x :: xs, s => reads x s ∪ readsAll xs s

end

theorem evalAll_eq_map (xs : List Node) (s : Store α) :
    A.evalAll xs s = xs.map fun x => A.eval x s := by
  induction xs with
  | nil => rfl
  | cons x xs ih => exact congrArg (A.eval x s :: ·) ih

theorem mem_readsAll {xs : List Node} {s : Store α} {c : Location α} :
    c ∈ A.readsAll xs s ↔ ∃ x ∈ xs, c ∈ A.reads x s := by
  induction xs with
  | nil => exact iff_of_false id fun ⟨_, member, _⟩ => List.not_mem_nil member
  | cons x xs ih =>
      show c ∈ A.reads x s ∪ A.readsAll xs s ↔ _
      rw [Set.mem_union, ih, List.exists_mem_cons_iff]

/-! ### What a value depends on -/

variable {A}

theorem eval_unary {op : UnaryOp} (other : op ≠ .address) (m : Mark) (x : Node) (s : Store α) :
    A.eval (.unary m op x) s = A.unary op (A.eval x s) := by
  cases op <;> first | rfl | exact absurd rfl other

theorem reads_unary {op : UnaryOp} (other : op ≠ .address) (m : Mark) (x : Node) (s : Store α) :
    A.reads (.unary m op x) s = A.reads x s := by
  cases op <;> first | rfl | exact absurd rfl other

theorem eval_unparen (e : Node) (s : Store α) : A.eval e.unparen s = A.eval e s := by
  induction e using Node.expression_induction with
  | paren m x ih => exact ih
  | leaf e leaf => cases e <;> first | rfl | cases leaf
  | _ => rfl

/-- Values and places are the same in stores that differ nowhere where they are read. -/
theorem congr (e : Node) {s s' : Store α} :
    ((∀ c ∈ A.reads e s, s' c = s c) → A.eval e s' = A.eval e s) ∧
      ((∀ c ∈ A.operandReads e s, s' c = s c) → A.locate e s' = A.locate e s) := by
  induction e using Node.expression_induction with
  | name m x => exact ⟨fun same => same _ rfl, fun _ => rfl⟩
  | paren m x ih => exact ih
  | unary m op x ih =>
      refine ⟨fun same => ?_, fun _ => rfl⟩
      by_cases address : op = .address
      · subst address
        exact congrArg A.address (ih.2 same)
      · rw [reads_unary address] at same
        rw [eval_unary address, eval_unary address, ih.1 same]
  | deref m x ih =>
      have place (same : ∀ c ∈ A.reads x s, s' c = s c) :
          A.locate (.deref m x) s' = A.locate (.deref m x) s :=
        congrArg (Location.element · A.first) (ih.1 same)
      refine ⟨fun same => ?_, place⟩
      have found := place fun c member => same c (Set.mem_insert_of_mem _ member)
      exact (congrArg s' found).trans (same _ (Set.mem_insert _ _))
  | binary m op x y ihx ihy =>
      refine ⟨fun same => ?_, fun _ => rfl⟩
      have first := ihx.1 fun c member => same c (Or.inl member)
      have second := ihy.1 fun c member => same c (Or.inr member)
      exact congrArg₂ (A.binary op) first second
  | index m x i ihx ihi =>
      have place (same : ∀ c ∈ A.reads x s ∪ A.reads i s, s' c = s c) :
          A.locate (.index m x i) s' = A.locate (.index m x i) s := by
        have base := ihx.1 fun c member => same c (Or.inl member)
        have position := ihi.1 fun c member => same c (Or.inr member)
        exact congrArg₂ Location.element base position
      refine ⟨fun same => ?_, place⟩
      have found := place fun c member => same c (Set.mem_insert_of_mem _ member)
      exact (congrArg s' found).trans (same _ (Set.mem_insert _ _))
  | select m x field ih =>
      exact ⟨fun same => congrArg (A.member · (field.name?.getD "")) (ih.1 same), fun _ => rfl⟩
  | call m f args spread ihf ihs =>
      refine ⟨fun same => ?_, fun _ => rfl⟩
      have function := ihf.1 fun c member => same c (Or.inl (Or.inl member))
      have arguments : A.evalAll args s' = A.evalAll args s := by
        rw [evalAll_eq_map, evalAll_eq_map]
        refine List.map_congr_left fun a member => (ihs a member).1 fun c read => ?_
        exact same c (Or.inl (Or.inr (A.mem_readsAll.mpr ⟨a, member, read⟩)))
      show A.call (A.eval f s') (A.evalAll args s') s' = A.call (A.eval f s) (A.evalAll args s) s
      rw [function, arguments]
      exact A.call_congr _ _ s s' fun c looked => same c (Or.inr looked)
  | leaf e leaf =>
      cases e <;> first | exact ⟨fun _ => rfl, fun _ => rfl⟩ | cases leaf

/-! ## Executing assignments -/

section Execution

variable [DecidableEq α] {s s' : Store α} {parts : List (Node × Node)}

variable (A) in
/-- Put into the present store a value that is found in the store `s`, and so its place. -/
def put (s now : Store α) (part : Node × Node) : Store α :=
  Function.update now (A.locate part.1 s) (A.eval part.2 s)

variable (A) in
/-- One assignment after another. -/
def inOrder (parts : List (Node × Node)) (s : Store α) : Store α :=
  parts.foldl (fun now part => A.put now now part) s

variable (A) in
/-- All values and places are found before any value is stored. -/
def atOnce (parts : List (Node × Node)) (s : Store α) : Store α := parts.foldl (A.put s) s

variable (A) in
/-- The first assignment changes nothing that the second one reads. -/
def Spares (s : Store α) (a b : Node × Node) : Prop :=
  A.eval a.2 s = s (A.locate a.1 s) ∨
    A.locate a.1 s ∉ A.operandReads b.1 s ∪ A.reads b.2 s

theorem put_self (s now : Store α) (part : Node × Node) :
    A.put s now part (A.locate part.1 s) = A.eval part.2 s :=
  Function.update_self _ _ _

/-- A part that reads nothing changed is executed as if nothing had changed. -/
theorem put_congr {part : Node × Node} (now : Store α)
    (same : ∀ c ∈ A.operandReads part.1 s ∪ A.reads part.2 s, s' c = s c) :
    A.put s' now part = A.put s now part := by
  have place := (congr part.1).2 fun c member => same c (Or.inl member)
  have value := (congr part.2).1 fun c member => same c (Or.inr member)
  rw [put, put, place, value]

/-- What a part puts is not seen by one that it spares. -/
theorem Spares.unseen {a b : Node × Node} (spares : A.Spares s a b) {now : Store α}
    (same : ∀ c ∈ A.operandReads b.1 s ∪ A.reads b.2 s, now c = s c) :
    ∀ c ∈ A.operandReads b.1 s ∪ A.reads b.2 s, A.put s now a c = s c := by
  intro c read
  by_cases changed : c = A.locate a.1 s
  · subst changed
    rcases spares with idle | unread
    · rw [put_self, idle]
    · exact absurd read unread
  · rw [put, Function.update_of_ne changed, same c read]

/-- Assignments that spare those after them leave the same store in order as at once. -/
theorem inOrder_eq_atOnce (spares : parts.Pairwise (A.Spares s)) :
    A.inOrder parts s = A.atOnce parts s := by
  -- the present store agrees with the first one wherever the parts to come read
  have run (parts : List (Node × Node)) (spares : parts.Pairwise (A.Spares s)) (now : Store α)
      (same : ∀ part ∈ parts, ∀ c ∈ A.operandReads part.1 s ∪ A.reads part.2 s, now c = s c) :
      parts.foldl (fun now part => A.put now now part) now = parts.foldl (A.put s) now := by
    induction parts generalizing now with
    | nil => rfl
    | cons a parts ih =>
        obtain ⟨ahead, later⟩ := List.pairwise_cons.mp spares
        have first := put_congr now (same a List.mem_cons_self)
        rw [List.foldl_cons, List.foldl_cons, first]
        refine ih later _ fun b member => ?_
        exact (ahead b member).unseen (same b (List.mem_cons_of_mem _ member))
  exact run parts spares s fun _ _ _ _ => rfl

end Execution

end Meaning

/-! ## The free meaning -/

/-- Values that tell how they have been made. -/
inductive Term where
  | variable (x : String)
  | literal (kind : LiteralKind) (text : String)
  | unary (op : UnaryOp) (x : Term)
  | binary (op : BinaryOp) (x y : Term)
  | member (x : Term) (field : String)
  | element (base index : Term)
  | address (place : Location Term)
  | first
  | call (f : Term) (args : List Term)
  | other (n : Node)

noncomputable instance : DecidableEq Term := Classical.decEq Term

/-- Every expression has a value of its own. -/
def Meaning.free : Meaning Term where
  literal := .literal
  unary := .unary
  binary := .binary
  member := .member
  address := .address
  first := .first
  call f args _ := .call f args
  looks _ _ _ := ∅
  call_congr _ _ _ _ _ := rfl
  other := .other

/-- The store in which nothing has happened. -/
def Term.fresh : Store Term
  | .variable x => .variable x
  | .element base index => .element base index

namespace Meaning

/-- A store that keeps the elements as they were gives an expression its value only if it keeps the
variables that the expression mentions. -/
theorem free_eval {s : Store Term} (elements : ∀ b i, s (.element b i) = .element b i) (e : Node) :
    (free.eval e s = free.eval e Term.fresh → ∀ x ∈ e.mentions, s (.variable x) = .variable x) ∧
      (free.locate e s = free.locate e Term.fresh →
        ∀ x ∈ e.placeMentions, s (.variable x) = .variable x) := by
  induction e using Node.expression_induction with
  | name m x =>
      refine ⟨fun same v member => ?_, fun _ _ member => (List.not_mem_nil member).elim⟩
      obtain rfl := List.mem_singleton.mp member
      exact same
  | paren m x ih => exact ih
  | unary m op x ih =>
      refine ⟨fun same v member => ?_, fun _ _ member => (List.not_mem_nil member).elim⟩
      by_cases address : op = .address
      · subst address
        exact ih.2 (Term.address.inj same) v member
      · rw [eval_unary address, eval_unary address] at same
        rw [Node.mentions_unary address] at member
        exact ih.1 (Term.unary.inj same).2 v member
  | deref m x ih =>
      constructor
      · intro same
        have parts : Term.element _ _ = .element _ _ := (elements _ _).symm.trans same
        exact ih.1 (Term.element.inj parts).1
      · intro same
        exact ih.1 (Location.element.inj same).1
  | binary m op x y ihx ihy =>
      refine ⟨fun same v member => ?_, fun _ _ member => (List.not_mem_nil member).elim⟩
      obtain ⟨-, first, second⟩ := Term.binary.inj same
      exact (List.mem_append.mp member).elim (ihx.1 first v) (ihy.1 second v)
  | index m x i ihx ihi =>
      constructor
      · intro same v member
        have parts : Term.element _ _ = .element _ _ := (elements _ _).symm.trans same
        obtain ⟨base, position⟩ := Term.element.inj parts
        exact (List.mem_append.mp member).elim (ihx.1 base v) (ihi.1 position v)
      · intro same v member
        obtain ⟨base, position⟩ := Location.element.inj same
        exact (List.mem_append.mp member).elim (ihx.1 base v) (ihi.1 position v)
  | select m x field ih =>
      refine ⟨fun same v member => ?_, fun _ _ member => (List.not_mem_nil member).elim⟩
      exact ih.1 (Term.member.inj same).1 v member
  | call m f args spread ihf ihs =>
      refine ⟨fun same v member => ?_, fun _ _ member => (List.not_mem_nil member).elim⟩
      obtain ⟨function, arguments⟩ := Term.call.inj same
      rw [evalAll_eq_map, evalAll_eq_map] at arguments
      rcases List.mem_append.mp member with inFunction | inArguments
      · exact ihf.1 function v inFunction
      · obtain ⟨a, among, mentioned⟩ := Node.mem_mentionsAll.mp inArguments
        exact (ihs a among).1 (List.map_inj_left.mp arguments a among) v mentioned
  | leaf e leaf =>
      cases e <;> first
        | exact ⟨fun _ _ member => (List.not_mem_nil member).elim,
            fun _ _ member => (List.not_mem_nil member).elim⟩
        | cases leaf

/-- The value of a variable is that of no other expression. -/
theorem name?_of_free_eval {e : Node} {x : String}
    (value : free.eval e Term.fresh = .variable x) : e.unparen.name? = some x := by
  induction e using Node.expression_induction with
  | name m y => exact congrArg some (Term.variable.inj value)
  | paren m y ih => exact ih value
  | unary m op y => cases op <;> cases value
  | leaf e leaf => cases e <;> first | exact (Bool.false_ne_true leaf).elim | cases value
  | _ => cases value

/-! ## Variables as targets -/

/-- The functions look at no variables, only at elements. -/
def Local {α : Type} (A : Meaning α) : Prop :=
  ∀ f args (s : Store α) x, Location.variable x ∉ A.looks f args s

/-- If the second value mentions the first target, then the first assignment assigns it to itself. -/
def Keeps (a b : Node × Node) : Prop :=
  ∀ x ∈ a.1.name?, x ∈ b.2.mentions → a.2.unparen.name? = some x

/-- An expression reads no variable that it does not mention. -/
theorem mentions_of_reads {α : Type} {A : Meaning α} (locals : A.Local) (e : Node) {s : Store α}
    {v : String} : (.variable v ∈ A.reads e s → v ∈ e.mentions) ∧
      (.variable v ∈ A.operandReads e s → v ∈ e.placeMentions) := by
  induction e using Node.expression_induction with
  | name m x =>
      refine ⟨fun read => ?_, fun read => read.elim⟩
      exact List.mem_singleton.mpr (Location.variable.inj read)
  | paren m x ih => exact ih
  | unary m op x ih =>
      refine ⟨fun read => ?_, fun read => read.elim⟩
      by_cases address : op = .address
      · subst address
        exact ih.2 read
      · rw [reads_unary address] at read
        rw [Node.mentions_unary address]
        exact ih.1 read
  | deref m x ih => exact ⟨fun read => ih.1 (read.resolve_left nofun), ih.1⟩
  | binary m op x y ihx ihy =>
      exact ⟨fun read => List.mem_append.mpr (read.imp ihx.1 ihy.1), fun read => read.elim⟩
  | index m x i ihx ihi =>
      have parts (read : .variable v ∈ A.reads x s ∪ A.reads i s) : v ∈ x.mentions ++ i.mentions :=
        List.mem_append.mpr (read.imp ihx.1 ihi.1)
      exact ⟨fun read => parts (read.resolve_left nofun), parts⟩
  | select m x field ih => exact ⟨ih.1, fun read => read.elim⟩
  | call m f args spread ihf ihs =>
      refine ⟨fun read => ?_, fun read => read.elim⟩
      rcases read with (inFunction | inArguments) | looked
      · exact List.mem_append_left _ (ihf.1 inFunction)
      · obtain ⟨a, member, read⟩ := A.mem_readsAll.mp inArguments
        exact List.mem_append_right _ (Node.mem_mentionsAll.mpr ⟨a, member, (ihs a member).1 read⟩)
      · exact absurd looked (locals _ _ _ v)
  | leaf e leaf =>
      cases e <;> first
        | exact ⟨fun read => (Set.notMem_empty _ read).elim, fun read => (Set.notMem_empty _ read).elim⟩
        | cases leaf

section Variables

variable {parts : List (Node × Node)} (names : ∀ part ∈ parts, ∃ m x, part.1 = Node.name m x)

theorem spares_of_keeps {α : Type} {A : Meaning α} (locals : A.Local) {s : Store α}
    {a b : Node × Node} {m m' : Mark} {x y : String} (first : a.1 = .name m x)
    (second : b.1 = .name m' y) (keeps : Keeps a b) : A.Spares s a b := by
  have place : A.locate a.1 s = .variable x := by rw [first]; rfl
  by_cases mentioned : x ∈ b.2.mentions
  · left
    have self := keeps x (by rw [first]; rfl) mentioned
    obtain ⟨mark, same⟩ : ∃ mark, a.2.unparen = .name mark x := by
      cases other : a.2.unparen with
      | name mark y =>
          rw [other] at self
          exact ⟨mark, congrArg _ (Option.some.inj self)⟩
      | _ =>
          rw [other] at self
          cases self
    rw [place, ← eval_unparen, same]
    rfl
  · right
    rw [place, second]
    rintro (read | read)
    · exact read
    · exact mentioned ((mentions_of_reads locals b.2).1 read)

section Frame

variable {α : Type} [DecidableEq α] {A : Meaning α}

include names

/-- Where no assignment puts anything, the store is as it was, whatever values are found in. -/
theorem foldl_put_of_ne (source : Store α → Store α) {c : Location α}
    (other : ∀ part ∈ parts, ∀ x ∈ part.1.name?, c ≠ .variable x) (s : Store α) :
    parts.foldl (fun now part => A.put (source now) now part) s c = s c := by
  induction parts generalizing s with
  | nil => rfl
  | cons a parts ih =>
      obtain ⟨m, x, target⟩ := names a List.mem_cons_self
      have apart := other a List.mem_cons_self x (by rw [target]; rfl)
      rw [List.foldl_cons, ih (fun part member => names part (List.mem_cons_of_mem _ member))
        (fun part member => other part (List.mem_cons_of_mem _ member)), put, target]
      exact Function.update_of_ne apart _ _

/-- Each of different targets is given its own value. -/
theorem atOnce_target (distinct : (parts.map (·.1.name?)).Nodup) {part : Node × Node}
    (member : part ∈ parts) {x : String} (target : x ∈ part.1.name?) (s : Store α) :
    A.atOnce parts s (.variable x) = A.eval part.2 s := by
  have given (now : Store α) : parts.foldl (A.put s) now (.variable x) = A.eval part.2 s := by
    induction parts generalizing now with
    | nil => cases member
    | cons a parts ih =>
        obtain ⟨fresh, rest⟩ := List.nodup_cons.mp distinct
        have others := fun b inside => names b (List.mem_cons_of_mem _ inside)
        rcases List.mem_cons.mp member with rfl | later
        · -- no assignment after this one has its target
          obtain ⟨m, y, spelled⟩ := names part List.mem_cons_self
          obtain rfl : y = x := by
            rw [spelled] at target
            exact Option.some.inj target
          have untouched := foldl_put_of_ne (A := A) others (fun _ => s) (c := .variable y)
            (fun b inside z named same => fresh (List.mem_map.mpr ⟨b, inside, by
              obtain rfl := Location.variable.inj same
              exact (Option.mem_def.mp named).trans (Option.mem_def.mp target).symm⟩))
          rw [List.foldl_cons]
          refine (untouched _).trans ?_
          have placed := put_self (A := A) s now part
          rwa [spelled] at placed
        · exact ih others rest later _
  exact given s

end Frame

include names in
/-- Under the free meaning the assignments agree only if no value mentions a target before it that is
given another value than its own. -/
theorem keeps_of_free (distinct : (parts.map (·.1.name?)).Nodup)
    (agree : free.inOrder parts Term.fresh = free.atOnce parts Term.fresh) :
    parts.Pairwise Keeps := by
  induction parts using List.reverseRecOn with
  | nil => exact List.Pairwise.nil
  | append_singleton front last ih =>
      have inFront := fun part member => names part (List.mem_append_left [last] member)
      obtain ⟨m, y, target⟩ := names last (by simp)
      rw [List.map_append, List.nodup_append] at distinct
      obtain ⟨frontDistinct, -, apart⟩ := distinct
      have fresh : ∀ part ∈ front, ∀ x ∈ part.1.name?, x ≠ y := by
        rintro part member x named rfl
        refine apart part.1.name? (List.mem_map_of_mem member) last.1.name? (by simp) ?_
        rw [target]
        exact named
      -- the last assignment takes its place in both, so that those before it agree elsewhere
      have inOrder : free.inOrder (front ++ [last]) Term.fresh =
          Function.update (free.inOrder front Term.fresh) (.variable y)
            (free.eval last.2 (free.inOrder front Term.fresh)) := by
        rw [Meaning.inOrder, List.foldl_append, List.foldl_cons, List.foldl_nil, put, target]
        rfl
      have atOnce : free.atOnce (front ++ [last]) Term.fresh =
          Function.update (free.atOnce front Term.fresh) (.variable y)
            (free.eval last.2 Term.fresh) := by
        rw [Meaning.atOnce, List.foldl_append, List.foldl_cons, List.foldl_nil, put, target]
        rfl
      rw [inOrder, atOnce] at agree
      have before : free.inOrder front Term.fresh = free.atOnce front Term.fresh := by
        funext c
        by_cases here : c = .variable y
        · subst here
          have other : ∀ part ∈ front, ∀ x ∈ part.1.name?,
              (.variable y : Location Term) ≠ .variable x :=
            fun part member x named same => fresh part member x named (Location.variable.inj same).symm
          have first := foldl_put_of_ne (A := free) inFront id other Term.fresh
          have second := foldl_put_of_ne (A := free) inFront (fun _ => Term.fresh) other Term.fresh
          exact first.trans second.symm
        · have there := congrFun agree c
          rwa [Function.update_of_ne here, Function.update_of_ne here] at there
      have value : free.eval last.2 (free.inOrder front Term.fresh) = free.eval last.2 Term.fresh := by
        have here := congrFun agree (.variable y)
        rwa [Function.update_self, Function.update_self] at here
      have elements (b i : Term) : free.inOrder front Term.fresh (.element b i) = .element b i := by
        refine foldl_put_of_ne (A := free) inFront id (c := .element b i) ?_ Term.fresh
        intro _ _ _ _ same
        cases same
      refine List.pairwise_append.mpr ⟨ih inFront frontDistinct before, List.pairwise_singleton _ _, ?_⟩
      intro part member b isLast x named mentioned
      obtain rfl := List.mem_singleton.mp isLast
      have kept := (free_eval elements b.2).1 value x mentioned
      rw [before, atOnce_target inFront frontDistinct member named] at kept
      exact name?_of_free_eval kept

include names in
/-- Assignments to different variables agree under every meaning exactly if no value mentions a target
before it that is given another value than its own. -/
theorem agree_iff_keeps (distinct : (parts.map (·.1.name?)).Nodup) :
    (∀ (α : Type) [DecidableEq α] (A : Meaning α), A.Local →
      ∀ s, A.inOrder parts s = A.atOnce parts s) ↔ parts.Pairwise Keeps := by
  constructor
  · intro agree
    exact keeps_of_free names distinct (agree Term free (fun _ _ _ _ => id) Term.fresh)
  · intro keeps α _ A locals s
    refine inOrder_eq_atOnce (keeps.imp_of_mem fun {a b} inA inB keeps => ?_)
    obtain ⟨m, x, first⟩ := names a inA
    obtain ⟨m', y, second⟩ := names b inB
    exact spares_of_keeps locals first second keeps

end Variables

end Meaning

/-! ## Reading the print -/

/-- What C makes of the tokens of a target and of a value. -/
structure C.Reading (α : Type) where
  place : List Token → Store α → Location α
  value : List Token → Store α → α

/-- C executes one assignment after another. -/
def C.Reading.run? {α : Type} [DecidableEq α] (R : C.Reading α) (tokens : List Token)
    (s : Store α) : Option (Store α) :=
  (C.readAssignments? tokens).map fun parts =>
    parts.foldl (fun now part => Function.update now (R.place part.1 now) (R.value part.2 now)) s

/-- The printed targets and values are in C what they are in the source. -/
structure C.Reading.Agrees {α : Type} (R : C.Reading α) (A : Meaning α) (p : CPrinter)
    (parts : List (Node × Node)) : Prop where
  place : ∀ part ∈ parts, R.place (lex (p.expr part.1).toList) = A.locate part.1
  value : ∀ part ∈ parts, R.value (lex (p.expr part.2).toList) = A.eval part.2

/-- C executes the print of an assignment of several values one part after another. -/
theorem C.Reading.run?_assign {α : Type} [DecidableEq α] {R : C.Reading α} {A : Meaning α}
    (u : SourceUnit) (m : Mark) {targets values : List Node}
    (same : targets.length = values.length) (several : targets ≠ [])
    (silent : ∀ x ∈ targets ++ values, Silent (u.printer (.assign m .set targets values)) x)
    (agrees : R.Agrees A (u.printer (.assign m .set targets values)) (targets.zip values))
    (s : Store α) :
    R.run? (lex (u.print (.assign m .set targets values)).toList) s =
      some (A.inOrder (targets.zip values) s) := by
  rw [run?, readAssignments?_assign u m same several silent, Option.map_some, List.foldl_map]
  apply congrArg some
  refine List.foldl_ext _ _ _ fun now part member => ?_
  rw [CPrinter.partTokens, agrees.place part member, agrees.value part member]
  rfl

/-- A variable or an element that is found by reading and computing. -/
structure IsTarget (p : CPrinter) (t : Node) : Prop where
  place : t.isPlace = true
  silent : Silent p t

/-- The print of an assignment of several values is, for C, its targets with their values, one
assignment after another.  If its parts mean in C what they mean in the source, then executing them
in this order leaves the store of the source, which finds all values first, as long as each spares
those after it.  Where the targets are different variables, the two agree under every meaning exactly
if no value mentions a target before it that is given another value than its own. -/
theorem printed_assignments_run (u : SourceUnit) (m : Mark) {targets values : List Node}
    (same : targets.length = values.length) (several : targets ≠ [])
    (places : ∀ t ∈ targets, IsTarget (u.printer (.assign m .set targets values)) t)
    (silent : ∀ v ∈ values, Silent (u.printer (.assign m .set targets values)) v) :
    let p := u.printer (.assign m .set targets values)
    let text := lex (u.print (.assign m .set targets values)).toList
    let parts := targets.zip values
    C.readAssignments? text = some (parts.map p.partTokens) ∧
    (∀ (α : Type) [DecidableEq α] (A : Meaning α) (R : C.Reading α), R.Agrees A p parts →
      ∀ s, R.run? text s = some (A.inOrder parts s) ∧
        (parts.Pairwise (A.Spares s) → R.run? text s = some (A.atOnce parts s))) ∧
    ((∀ t ∈ targets, ∃ m x, t = .name m x) → (targets.map (·.name?)).Nodup →
      ((∀ (α : Type) [DecidableEq α] (A : Meaning α), A.Local →
        ∀ s, A.inOrder parts s = A.atOnce parts s) ↔ parts.Pairwise Meaning.Keeps)) := by
  intro p text parts
  have all : ∀ x ∈ targets ++ values, Silent p x :=
    List.forall_mem_append.mpr ⟨fun t member => (places t member).silent, silent⟩
  refine ⟨readAssignments?_assign u m same several all, ?_, ?_⟩
  · intro α _ A R agrees s
    have run := C.Reading.run?_assign u m same several all agrees s
    exact ⟨run, fun spares => run.trans (congrArg some (Meaning.inOrder_eq_atOnce spares))⟩
  · intro names distinct
    have targetsOf : parts.map (·.1) = targets := List.map_fst_zip same.le
    have named : ∀ part ∈ parts, ∃ m x, part.1 = Node.name m x :=
      fun part member => names part.1 (targetsOf ▸ List.mem_map_of_mem member)
    refine Meaning.agree_iff_keeps named ?_
    rw [← targetsOf, List.map_map] at distinct
    exact distinct

/-! ## Two assignments -/

namespace TupleAssignment

/-- Whole numbers, which may be added. -/
def integers : Meaning Int where
  literal _ text := (Text.readDecimal text).value?.getD 0
  unary _ x := x
  binary op x y := if op = .add then x + y else 0
  member x _ := x
  address _ := 0
  first := 0
  call _ _ _ := 0
  looks _ _ _ := ∅
  call_congr _ _ _ _ _ := rfl
  other _ := 0

/-- What names, numbers and sums are in C. -/
def arithmetic (s : Store Int) : Arithmetic Int where
  name x := s (.variable (String.ofList x))
  number x := (Text.readDecimal (String.ofList x)).value?.getD 0
  unary _ x := x
  binary op x y := if op = .add then x + y else 0
  clears _ _ := rfl

/-- C's reading of names, numbers, sums, and elements of arrays that have a name. -/
def reading : C.Reading Int where
  place tokens s :=
    match tokens with
    | .name a :: .mark ['['] :: rest =>
      .element (s (.variable (String.ofList a)))
        (((C.readExpr? rest.dropLast).map (arithmetic s).value).getD 0)
    | .name x :: _ => .variable (String.ofList x)
    | _ => .variable ""
  value tokens s := ((C.readExpr? tokens).map (arithmetic s).value).getD 0

/-- A name, numbered by its position. -/
def spell (id : Nat) (x : String) : Node := .name ⟨id, 0, 0⟩ x

/-- The targets of `w[i], i = i, i + 1`. -/
def stepTargets : List Node := [.index ⟨2, 0, 0⟩ (spell 3 "w") (spell 4 "i"), spell 5 "i"]

def stepValues : List Node :=
  [spell 6 "i", .binary ⟨7, 0, 0⟩ .add (spell 8 "i") (.literal ⟨9, 0, 0⟩ .int "1")]

/-- The targets of `a, b = b, a`. -/
def swapTargets : List Node := [spell 2 "a", spell 3 "b"]

def swapValues : List Node := [spell 4 "b", spell 5 "a"]

def assigning (targets values : List Node) : Node := .assign ⟨1, 0, 0⟩ .set targets values

/-- The printer of an assignment outside of all kernels. -/
def printer (targets values : List Node) : CPrinter :=
  SourceUnit.printer default (assigning targets values)

theorem silent_spell {p : CPrinter} {id : Nat} {x : String} (ident : isIdentifier x = true) :
    Silent p (spell id x) := .name _ ident

theorem agrees_of_tokens {p : CPrinter} {parts : List (Node × Node)}
    (places : ∀ part ∈ parts, ∃ ts, lex (p.expr part.1).toList = ts ∧
      reading.place ts = integers.locate part.1)
    (values : ∀ part ∈ parts, ∃ ts, lex (p.expr part.2).toList = ts ∧
      reading.value ts = integers.eval part.2) : reading.Agrees integers p parts := by
  refine ⟨fun part member => ?_, fun part member => ?_⟩
  · obtain ⟨ts, tokens, same⟩ := places part member
    rw [tokens, same]
  · obtain ⟨ts, tokens, same⟩ := values part member
    rw [tokens, same]

theorem shaped_name {x : List Char} (free : x ∉ C.keywords) : (C.Expr.name x).shaped = true := by
  simpa [C.Expr.shaped] using free

/-- A value is read as C's grammar derives it. -/
theorem value_tokens {e : C.Expr} (shaped : e.shaped = true) :
    reading.value e.tokens = fun s => (arithmetic s).value e := by
  have read : C.readExpr? e.tokens = some e := C.readExpr?_eq_some_iff.mpr ⟨shaped, rfl⟩
  funext s
  show ((C.readExpr? e.tokens).map (arithmetic s).value).getD 0 = _
  rw [read]
  rfl

/-- The element of an array is found by the value of its index. -/
theorem place_tokens (array : List Char) (index : C.Expr) (shaped : index.shaped = true) :
    reading.place (.name array :: .mark ['['] :: (index.tokens ++ [Token.mark [']']])) =
      fun s => .element (s (.variable (String.ofList array))) ((arithmetic s).value index) := by
  have read : C.readExpr? index.tokens = some index :=
    C.readExpr?_eq_some_iff.mpr ⟨shaped, rfl⟩
  funext s
  show Location.element _ (((C.readExpr? (index.tokens ++ [Token.mark [']']]).dropLast).map
    (arithmetic s).value).getD 0) = _
  rw [List.dropLast_concat, read]
  rfl

theorem agrees_step : reading.Agrees integers (printer stepTargets stepValues)
    (stepTargets.zip stepValues) := by
  have index : (C.Expr.name ['i']).shaped = true :=
    shaped_name (C.toList_mem_map.not.mpr (by decide : "i" ∉ _))
  have next : (C.Expr.binary .add (.name ['i']) (.number ['1'])).shaped = true := by
    rw [C.Expr.shaped, index]
    decide
  apply agrees_of_tokens
  · simp only [stepTargets, stepValues, List.zip_cons_cons, List.zip_nil_left, List.forall_mem_cons]
    exact ⟨⟨.name ['w'] :: .mark ['['] :: ((C.Expr.name ['i']).tokens ++ [Token.mark [']']]),
      by decide, place_tokens ['w'] (.name ['i']) index⟩, ⟨[.name ['i']], by decide, rfl⟩,
      List.forall_mem_nil _⟩
  · simp only [stepTargets, stepValues, List.zip_cons_cons, List.zip_nil_left, List.forall_mem_cons]
    exact ⟨⟨(C.Expr.name ['i']).tokens, by decide, value_tokens index⟩,
      ⟨(C.Expr.binary .add (.name ['i']) (.number ['1'])).tokens, by decide,
        value_tokens next⟩, List.forall_mem_nil _⟩

theorem agrees_swap : reading.Agrees integers (printer swapTargets swapValues)
    (swapTargets.zip swapValues) := by
  have a : (C.Expr.name ['a']).shaped = true :=
    shaped_name (C.toList_mem_map.not.mpr (by decide : "a" ∉ _))
  have b : (C.Expr.name ['b']).shaped = true :=
    shaped_name (C.toList_mem_map.not.mpr (by decide : "b" ∉ _))
  apply agrees_of_tokens
  · simp only [swapTargets, swapValues, List.zip_cons_cons, List.zip_nil_left, List.forall_mem_cons]
    exact ⟨⟨[.name ['a']], by decide, rfl⟩, ⟨[.name ['b']], by decide, rfl⟩,
      List.forall_mem_nil _⟩
  · simp only [swapTargets, swapValues, List.zip_cons_cons, List.zip_nil_left, List.forall_mem_cons]
    exact ⟨⟨(C.Expr.name ['b']).tokens, by decide, value_tokens b⟩,
      ⟨(C.Expr.name ['a']).tokens, by decide, value_tokens a⟩, List.forall_mem_nil _⟩

/-- The assignment to the element changes nothing that the one to its index reads. -/
theorem spares_step (s : Store Int) :
    (stepTargets.zip stepValues).Pairwise (integers.Spares s) := by
  refine List.pairwise_pair.mpr (Or.inr ?_)
  rintro (nothing | index | nothing)
  · exact nothing
  · cases Set.mem_singleton_iff.mp index
  · exact nothing

end TupleAssignment

open TupleAssignment in
/-- An element and then its index: C leaves what the source leaves. -/
theorem printed_assignments_run_step :
    SourceUnit.print default (assigning stepTargets stepValues) = "w[i] = i, i = i + 1" ∧
    ∀ s : Store Int,
      reading.run? (lex "w[i] = i, i = i + 1".toList) s =
        some (integers.atOnce (stepTargets.zip stepValues) s) ∧
      integers.atOnce (stepTargets.zip stepValues) s (.variable "i") = s (.variable "i") + 1 := by
  have text : SourceUnit.print default (assigning stepTargets stepValues) = "w[i] = i, i = i + 1" := by
    decide
  have places : ∀ t ∈ stepTargets, IsTarget (printer stepTargets stepValues) t := by
    simp only [stepTargets, List.forall_mem_cons]
    exact ⟨⟨rfl, .index _ rfl (silent_spell (by decide)) (silent_spell (by decide))⟩,
      ⟨rfl, silent_spell (by decide)⟩, List.forall_mem_nil _⟩
  have silent : ∀ v ∈ stepValues, Silent (printer stepTargets stepValues) v := by
    simp only [stepValues, List.forall_mem_cons]
    exact ⟨silent_spell (by decide), .binary _ _ (silent_spell (by decide))
      (.literal _ _ (isConstant_integer (by decide))), List.forall_mem_nil _⟩
  have same : stepTargets.length = stepValues.length := by decide
  obtain ⟨-, run, -⟩ := printed_assignments_run default ⟨1, 0, 0⟩ same (by decide) places silent
  refine ⟨text, fun s => ⟨?_, ?_⟩⟩
  · rw [← text]
    exact (run Int integers reading agrees_step s).2 (spares_step s)
  · let now := integers.put s s (stepTargets.head (by decide), spell 6 "i")
    exact Meaning.put_self (A := integers) s now
      (spell 5 "i", .binary ⟨7, 0, 0⟩ .add (spell 8 "i") (.literal ⟨9, 0, 0⟩ .int "1"))

open TupleAssignment in
/-- A swap: C gives both variables the value of the second one. -/
theorem printed_assignments_run_swap :
    SourceUnit.print default (assigning swapTargets swapValues) = "a = b, b = a" ∧
    reading.Agrees integers (printer swapTargets swapValues) (swapTargets.zip swapValues) ∧
    ∀ s : Store Int, s (.variable "a") ≠ s (.variable "b") →
      reading.run? (lex "a = b, b = a".toList) s ≠
        some (integers.atOnce (swapTargets.zip swapValues) s) := by
  have text : SourceUnit.print default (assigning swapTargets swapValues) = "a = b, b = a" := by
    decide
  have same : swapTargets.length = swapValues.length := by decide
  have silent : ∀ x ∈ swapTargets ++ swapValues, Silent (printer swapTargets swapValues) x := by
    simp only [swapTargets, swapValues, List.cons_append, List.nil_append, List.forall_mem_cons]
    exact ⟨silent_spell (by decide), silent_spell (by decide), silent_spell (by decide),
      silent_spell (by decide), List.forall_mem_nil _⟩
  refine ⟨text, agrees_swap, fun s apart agree => apart ?_⟩
  have run := C.Reading.run?_assign default ⟨1, 0, 0⟩ same (by decide) silent agrees_swap s
  change reading.run? (lex (SourceUnit.print default (assigning swapTargets swapValues)).toList) s = _
    at run
  rw [text, agree, Option.some_inj] at run
  have here := congrFun run (.variable "b")
  have source : integers.atOnce (swapTargets.zip swapValues) s (.variable "b") = s (.variable "a") :=
    Meaning.put_self (A := integers) s (integers.put s s (spell 2 "a", spell 4 "b"))
      (spell 3 "b", spell 5 "a")
  have printed : integers.inOrder (swapTargets.zip swapValues) s (.variable "b") =
      s (.variable "b") := by
    let now := integers.put s s (spell 2 "a", spell 4 "b")
    have second := Meaning.put_self (A := integers) now now (spell 3 "b", spell 5 "a")
    exact second.trans (Meaning.put_self s s (spell 2 "a", spell 4 "b"))
  rw [source, printed] at here
  exact here

end Retarget
