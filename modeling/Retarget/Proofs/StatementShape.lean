/-
# Proofs.StatementShape -- the shape of parsed statements

What the analyses of statements rely on is little: the body of a control statement is a block,
what follows an `else` is a block or another condition, the statement before a condition is a
simple one, and a declaration of variables or constants specifies values.  Trees as such need not be
so, but parsed ones are: a property that a statement of the language inherits from those it holds
(`Inherited`) holds of every parsed body (`parseKernels_inherited`), and to have that shape is one of
them (`parseKernels_structured`).

The parser is a state monad that may refuse.  `Yields P p` says that whatever `p` returns satisfies
`P`, from any state; a phrase is read off its last steps, and what comes before may be anything.
-/
import Retarget.Kernel.Unit

namespace Retarget

namespace Source

set_option autoImplicit false

namespace Node

def isBlock : Node → Bool
  | block .. => true
  | _ => false

def isIf : Node → Bool
  | ifStmt .. => true
  | _ => false

/-- Statements that hold statements. -/
def isCompound : Node → Bool
  | block .. | labeled .. | ifStmt .. | forStmt .. | rangeStmt .. => true
  | _ => false

theorem isCompound_of_isExpr {n : Node} (isExpr : n.isExpr = true) : n.isCompound = false := by
  cases n <;> first | rfl | cases isExpr

/-- A statement of the language, as far as it holds others. -/
inductive Structured : Node → Prop where
  | block {m : Mark} {stmts : List Node} (each : ∀ s ∈ stmts, Structured s) :
      Structured (.block m stmts)
  | labeled {m : Mark} {label stmt : Node} (inner : Structured stmt) :
      Structured (.labeled m label stmt)
  | ifStmt {m : Mark} {init : Option Node} {cond body : Node} {orElse : Option Node}
      (first : ∀ i ∈ init, i.isCompound = false) (isBlock : body.isBlock = true)
      (inner : Structured body) (shape : ∀ e ∈ orElse, e.isBlock = true ∨ e.isIf = true)
      (other : ∀ e ∈ orElse, Structured e) : Structured (.ifStmt m init cond body orElse)
  | forStmt {m : Mark} {init cond post : Option Node} {body : Node} (isBlock : body.isBlock = true)
      (inner : Structured body) : Structured (.forStmt m init cond post body)
  | rangeStmt {m : Mark} {key value : Option Node} {x body : Node} (isBlock : body.isBlock = true)
      (inner : Structured body) : Structured (.rangeStmt m key value x body)
  | simple {n : Node} (plain : n.isCompound = false) : Structured n

def isDecl : Node → Bool
  | declStmt .. => true
  | _ => false

def isValueSpec : Node → Bool
  | valueSpec .. => true
  | _ => false

def isSwitch : Node → Bool
  | switchStmt .. => true
  | _ => false

/-- A statement that holds no others and declares nothing. -/
structure Plain (n : Node) : Prop where
  noCompound : n.isCompound = false
  noDecl : n.isDecl = false
  noSwitch : n.isSwitch = false

/-- A clause of a switch, with statements that have the property. -/
def ClauseOf (P : Node → Prop) (c : Node) : Prop :=
  ∃ m values stmts, c = .caseClause m values stmts ∧ ∀ s ∈ stmts, P s

/-- A property that a statement of the language has if the statements it holds have it. -/
structure Inherited (P : Node → Prop) : Prop where
  simple : ∀ {n : Node}, n.Plain → P n
  declStmt : ∀ {m dm : Mark} {kind : DeclKind} {specs : List Node},
    (kind ≠ .type → ∀ s ∈ specs, s.isValueSpec = true) → P (.declStmt m (.decl dm kind specs))
  block : ∀ {m : Mark} {stmts : List Node}, (∀ s ∈ stmts, P s) → P (.block m stmts)
  labeled : ∀ {m : Mark} {label stmt : Node}, P stmt → P (.labeled m label stmt)
  ifStmt : ∀ {m : Mark} {init : Option Node} {cond body : Node} {orElse : Option Node},
    (∀ i ∈ init, i.isCompound = false ∧ P i) → body.isBlock = true → P body →
    (∀ e ∈ orElse, e.isBlock = true ∨ e.isIf = true) → (∀ e ∈ orElse, P e) →
    P (.ifStmt m init cond body orElse)
  forStmt : ∀ {m : Mark} {init cond post : Option Node} {body : Node}, (∀ i ∈ init, P i) →
    body.isBlock = true → P body → (∀ l ∈ post, P l) → P (.forStmt m init cond post body)
  rangeStmt : ∀ {m : Mark} {key value : Option Node} {x body : Node}, body.isBlock = true →
    P body → P (.rangeStmt m key value x body)
  switchStmt : ∀ {m bm : Mark} {init tag : Option Node} {clauses : List Node}, (∀ i ∈ init, P i) →
    (∀ c ∈ clauses, ClauseOf P c) → P (.switchStmt m init tag (.block bm clauses))

theorem structured_inherited : Inherited Structured where
  simple plain := .simple plain.noCompound
  declStmt _ := .simple rfl
  block := .block
  labeled := .labeled
  ifStmt first := .ifStmt fun i there => (first i there).1
  forStmt _ isBlock inner _ := .forStmt isBlock inner
  rangeStmt := .rangeStmt
  switchStmt _ _ := .simple rfl

end Node

namespace Parse

/-! ## What a parser returns -/

/-- Whatever the parser returns satisfies `P`. -/
def Yields {α : Type} (P : α → Prop) (p : Parse α) : Prop :=
  ∀ s a s', p.run s = some (a, s') → P a

namespace Yields

variable {α β : Type} {P Q : α → Prop} {R : β → Prop} {p : Parse α}

theorem ret {a : α} (holds : P a) : Yields P (pure a) := by
  intro s b s' ran
  simp only [StateT.run_pure, Option.pure_def, Option.some.injEq, Prod.mk.injEq] at ran
  exact ran.1 ▸ holds

theorem refused : Yields P (refuse : Parse α) := by
  intro s a s' ran
  cases ran

theorem bind {f : α → Parse β} (first : Yields P p) (next : ∀ a, P a → Yields R (f a)) :
    Yields R (p >>= f) := by
  intro s b s' ran
  simp only [StateT.run_bind, Option.bind_eq_bind, Option.bind_eq_some_iff] at ran
  obtain ⟨⟨a, t⟩, ranFirst, ranNext⟩ := ran
  exact next a (first s a t ranFirst) t b s' ranNext

/-- A step about which nothing needs to be known. -/
theorem after {f : α → Parse β} (next : ∀ a, Yields R (f a)) : Yields R (p >>= f) :=
  bind (P := fun _ => True) (fun _ _ _ _ => trivial) fun a _ => next a

theorem refusedThen {f : α → Parse β} : Yields R (refuse >>= f) :=
  bind (P := fun _ => False) refused fun _ absurd => absurd.elim

theorem imp (first : Yields P p) (weaker : ∀ a, P a → Q a) : Yields Q p :=
  fun s a s' ran => weaker a (first s a s' ran)

theorem level {change : Int → Int} (inner : Yields P p) : Yields P (atLevel change p) :=
  after fun _ => after fun _ => bind inner fun _ holds => after fun _ => ret holds

theorem collected {step : Parse (Option α)} (each : Yields (fun o => ∀ a ∈ o, P a) step)
    (limit : Nat) : Yields (fun l => ∀ a ∈ l, P a) (collect step limit) := by
  induction limit with
  | zero => exact refused
  | succ limit ih =>
      refine bind each fun found holds => ?_
      cases found with
      | none => exact ret (by simp)
      | some a =>
          refine bind ih fun rest all => ret ?_
          exact List.forall_mem_cons.mpr ⟨holds a rfl, all⟩

theorem repeated {step : Parse (Option α)} (each : Yields (fun o => ∀ a ∈ o, P a) step) :
    Yields (fun l => ∀ a ∈ l, P a) (many step) :=
  after fun _ => collected each _

end Yields

/-! ## Simple statements -/

/-- What a grammar is to return for the phrases of statements. -/
structure Heir (P : Node → Prop) (g : Grammar) : Prop where
  stmt : Yields P (g .stmt)
  ifStmt : Yields (fun n => n.isIf = true ∧ P n) (g .ifStmt)
  block : Yields (fun n => n.isBlock = true ∧ P n) (g .block)

variable {g : Grammar} {P : Node → Prop}

theorem afterExpr_inherited (inherited : Node.Inherited P) (heir : Heir P g) (place : Place) (x : Node) :
    Yields P (afterExpr g place x) := by
  unfold afterExpr
  refine .after fun t => ?_
  split
  · split
    · exact .after fun _ => .bind heir.stmt fun s inner => .after fun _ => .ret (inherited.labeled inner)
    · exact .refused
  · exact .after fun _ => .after fun _ => .ret (inherited.simple ⟨rfl, rfl, rfl⟩)
  · exact .after fun _ => .after fun _ => .ret (inherited.simple ⟨rfl, rfl, rfl⟩)
  · exact .after fun _ => .ret (inherited.simple ⟨rfl, rfl, rfl⟩)

/-- Only where a statement may stand can one be labelled. -/
theorem afterExpr_plain {place : Place} (header : place ≠ .statement) (x : Node) :
    Yields Node.Plain (afterExpr g place x) := by
  unfold afterExpr
  refine .after fun t => ?_
  split
  · split
    · contradiction
    · exact .refused
  · exact .after fun _ => .after fun _ => .ret ⟨rfl, rfl, rfl⟩
  · exact .after fun _ => .after fun _ => .ret ⟨rfl, rfl, rfl⟩
  · exact .after fun _ => .ret ⟨rfl, rfl, rfl⟩

theorem assignment_yields (targets : List Node) (op : AssignOp)
    (assigned : ∀ m op targets values, P (.assign m op targets values)) :
    Yields P (assignment g targets op) :=
  .after fun _ => .after fun _ => .ret (assigned _ _ _ _)

/-- A simple statement is an assignment or what may follow an expression. -/
theorem simple_yields {place : Place}
    (assigned : ∀ m op targets values, P (.assign m op targets values))
    (follows : ∀ x, Yields P (afterExpr g place x)) :
    Yields (fun r => ∀ n, r = Sum.inl n → P n) (simple g place) := by
  unfold simple
  refine .after fun xs => .after fun op => ?_
  split
  · refine .after fun _ => .after fun _ => ?_
    split
    · exact .after fun _ => .after fun _ => .ret (by simp)
    · exact .bind (assignment_yields xs _ assigned) fun n holds => .ret (by simpa using holds)
  · split
    · exact .bind (follows _) fun n holds => .ret (by simpa using holds)
    · exact .refused

theorem simpleStmt_yields {place : Place}
    (parts : Yields (fun r => ∀ n, r = Sum.inl n → P n) (simple g place)) :
    Yields P (simpleStmt g place) := by
  refine .bind parts fun r holds => ?_
  cases r with
  | inl n => exact .ret (holds n rfl)
  | inr _ => exact .refused

theorem simpleStmt_inherited (inherited : Node.Inherited P) (heir : Heir P g) (place : Place) :
    Yields P (simpleStmt g place) :=
  simpleStmt_yields (simple_yields (fun _ _ _ _ => inherited.simple ⟨rfl, rfl, rfl⟩)
    (afterExpr_inherited inherited heir place))

theorem simple_plain {place : Place} (header : place ≠ .statement) :
    Yields (fun r => ∀ n, r = Sum.inl n → n.Plain) (simple g place) :=
  simple_yields (fun _ _ _ _ => ⟨rfl, rfl, rfl⟩) (afterExpr_plain header)

theorem clause_plain : Yields Node.Plain (simpleStmt g .clause) :=
  simpleStmt_yields (simple_plain nofun)

/-! ## Declarations -/

theorem specs_yields {spec : Parse Node} (each : Yields P spec) :
    Yields (fun r => ∀ s ∈ r.1, P s) (specs spec) := by
  have next : Yields (fun o => ∀ s ∈ o, P s) (do
      if ← atSymbol ")" then return none
      return some (← spec)) := by
    refine .after fun closed => ?_
    split
    · exact .ret (by simp)
    · exact .bind each fun s holds => .ret (by simpa using holds)
  unfold specs
  refine .after fun parenthesized => ?_
  split
  · exact .after fun _ => .bind (.repeated next) fun list holds =>
      .after fun _ => .after fun _ => .ret holds
  · exact .bind each fun s holds => .ret (by simpa using holds)

theorem valueSpec_isValueSpec (isConst : Bool) :
    Yields (fun s => s.isValueSpec = true) (valueSpec g isConst) := by
  unfold valueSpec
  refine .after fun first => .after fun more => ?_
  dsimp only
  split
  · exact .after fun _ => .after fun _ => .after fun _ => .after fun _ => .after fun _ => .ret rfl
  · refine .after fun _ => ?_
    split
    · exact .after fun _ => .after fun _ => .after fun _ => .after fun _ => .ret rfl
    · exact .after fun _ => .after fun _ => .after fun _ => .after fun _ => .after fun _ => .ret rfl

/-- A declaration of variables or constants specifies values. -/
def Specifies (kind : DeclKind) (d : Node) : Prop :=
  ∃ m specs, d = .decl m kind specs ∧ (kind ≠ .type → ∀ s ∈ specs, s.isValueSpec = true)

theorem declaration_specifies (kind : DeclKind) : Yields (Specifies kind) (declaration g kind) := by
  have values (isConst : Bool) : Yields (fun r => ∀ s ∈ r.1, s.isValueSpec = true)
      (specs (valueSpec g isConst)) := specs_yields (valueSpec_isValueSpec isConst)
  unfold declaration
  refine .after fun _ => ?_
  cases kind with
  | «variable» => exact .bind (values false) fun r each => .after fun _ => .ret ⟨_, r.1, rfl, fun _ => each⟩
  | constant => exact .bind (values true) fun r each => .after fun _ => .ret ⟨_, r.1, rfl, fun _ => each⟩
  | type => exact .after fun r => .after fun _ => .ret ⟨_, r.1, rfl, fun other => absurd rfl other⟩

/-! ## Control statements -/

section Control

variable (inherited : Node.Inherited P) (heir : Heir P g)

include heir

theorem stmtList_inherited : Yields (fun l => ∀ n ∈ l, P n) (stmtList g) := by
  refine .repeated (.after fun t => ?_)
  split
  · exact .ret (by simp)
  · exact .bind heir.stmt fun n holds => .ret (by simpa using holds)

include inherited

theorem block_inherited : Yields (fun n => n.isBlock = true ∧ P n) (block g) :=
  .after fun _ => .bind (stmtList_inherited heir) fun _ each =>
    .after fun _ => .after fun _ => .ret ⟨rfl, inherited.block each⟩

omit inherited heir in
theorem ifHeader_plain : Yields (fun r => ∀ i ∈ r.1, i.Plain) (ifHeader g) := by
  unfold ifHeader
  refine .level (.after fun atBrace => ?_)
  extract_lets fromFirst afterBrace
  -- a first statement, if there is one, is a clause; what follows is the same
  have follows (first : Option Node) (plain : ∀ i ∈ first, i.Plain) :
      Yields (fun r => ∀ i ∈ r.1, i.Plain) (fromFirst first) := by
    refine .after fun atBody => ?_
    split
    · split
      · exact .after fun _ => .ret (by simp)
      · exact .refusedThen
    · refine .after fun _ => ?_
      split
      · exact .refusedThen
      · refine .after fun _ => .after fun _ => ?_
        split
        · exact .refusedThen
        · exact .after fun _ => .after fun _ => .ret plain
  split
  · exact .refusedThen
  · refine .after fun atSemicolon => ?_
    split
    · exact .bind (P := fun o => ∀ i ∈ o, i.Plain) (.ret (by simp)) follows
    · refine .bind clause_plain fun n holds => ?_
      exact .bind (P := fun o => ∀ i ∈ o, i.Plain) (.ret (by simpa using holds)) follows

theorem ifStmt_inherited : Yields (fun n => n.isIf = true ∧ P n) (ifStmt g) := by
  unfold ifStmt
  refine .after fun _ => .bind ifHeader_plain fun head plain => ?_
  refine .bind heir.block fun body inner => .after fun isElse => ?_
  have made (m : Mark) (orElse : Option Node) (shape : ∀ e ∈ orElse, e.isBlock = true ∨ e.isIf = true)
      (other : ∀ e ∈ orElse, P e) :
      (Node.ifStmt m head.1 head.2 body orElse).isIf = true ∧
        P (Node.ifStmt m head.1 head.2 body orElse) := by
    refine ⟨rfl, inherited.ifStmt (fun i there => ?_) inner.1 inner.2 shape other⟩
    exact ⟨(plain i there).noCompound, inherited.simple (plain i there)⟩
  split
  · refine .after fun _ => .after fun chained => ?_
    split
    · refine .bind heir.ifStmt fun other holds => .after fun m => .ret (made m _ ?_ ?_)
      · simp [holds.1]
      · simpa using holds.2
    · refine .bind heir.block fun other holds => .after fun _ => ?_
      refine .bind (P := fun e => e = other) (.ret rfl) fun e same => ?_
      subst same
      refine .after fun m => .ret (made m _ ?_ ?_)
      · simp [holds.1]
      · simpa using holds.2
  · exact .after fun _ => .after fun m => .ret (made m none (by simp) (by simp))

omit inherited in
theorem caseClause_yields : Yields (fun o => ∀ c ∈ o, Node.ClauseOf P c) (caseClause g) := by
  unfold caseClause
  refine .after fun start => .after fun isCase => ?_
  extract_lets fromValues
  have follows (values : Option (List Node)) :
      Yields (fun o => ∀ c ∈ o, Node.ClauseOf P c) (fromValues values) := by
    cases values with
    | none => exact .ret (by simp)
    | some values =>
        refine .after fun _ => .bind (stmtList_inherited heir) fun stmts each => .after fun m => .ret ?_
        rintro c ⟨⟩
        exact ⟨m, values, stmts, rfl, each⟩
  split
  · exact .after fun _ => .after fun _ => .after follows
  · refine .after fun _ => ?_
    split
    · exact .after fun _ => .after follows
    · exact .after follows

theorem switchStmt_inherited : Yields P (switchStmt g) := by
  unfold switchStmt
  refine .after fun keyword => .after fun _ => ?_
  extract_lets fromHead fromFirst
  have follows (head : Option Node × Option Node) (plain : ∀ i ∈ head.1, i.Plain) :
      Yields P (fromHead head) := by
    dsimp only [fromHead]
    split
    · exact .refusedThen
    · exact .after fun _ => .bind (.repeated (caseClause_yields heir)) fun clauses each =>
        .after fun _ => .after fun _ => .after fun _ => .after fun _ => .after fun _ =>
          .ret (inherited.switchStmt (fun i there => inherited.simple (plain i there)) each)
  split
  · exact .bind (P := fun head => ∀ i ∈ head.1, i.Plain) (.ret (by simp)) follows
  · refine .bind (P := fun head => ∀ i ∈ head.1, i.Plain) (.level ?_) follows
    refine .after fun _ => ?_
    -- the first statement is before a semicolon, or it is the tag
    have first (s : Option Node) (plain : ∀ i ∈ s, i.Plain) :
        Yields (fun head => ∀ i ∈ head.1, i.Plain) (fromFirst s) := by
      refine .after fun _ => ?_
      split
      · refine .after fun _ => .after fun _ => ?_
        split
        · exact .ret plain
        · exact .after fun _ => .ret plain
      · exact .ret (by simp)
    split
    · exact .bind (P := fun o => ∀ i ∈ o, i.Plain) (.ret (by simp)) first
    · refine .bind clause_plain fun n holds => ?_
      exact .bind (P := fun o => ∀ i ∈ o, i.Plain) (.ret (by simpa using holds)) first

/-- The statements around the condition of a loop hold no others. -/
def PlainAround (head : (Option Node × Option Node × Option Node) ⊕ RangeClause) : Prop :=
  ∀ init cond post, head = .inl (init, cond, post) → (∀ i ∈ init, i.Plain) ∧ ∀ l ∈ post, l.Plain

omit inherited heir in
theorem forHeader_plain : Yields PlainAround (forHeader g) := by
  have ranged (r : RangeClause) : PlainAround (.inr r) := nofun
  have around {init cond post : Option Node} (first : ∀ i ∈ init, i.Plain) (last : ∀ l ∈ post, l.Plain) :
      PlainAround (.inl (init, cond, post)) := by
    rintro _ _ _ ⟨⟩
    exact ⟨first, last⟩
  unfold forHeader
  refine .after fun _ => ?_
  split
  · exact .ret (around (by simp) (by simp))
  · refine .level (.after fun _ => ?_)
    split
    · exact .after fun _ => .after fun _ => .ret (ranged _)
    · refine .after fun _ => ?_
      extract_lets fromFirst
      have follows (first : Option Node) (plain : ∀ i ∈ first, i.Plain) :
          Yields PlainAround (fromFirst first) := by
        refine .after fun _ => ?_
        split
        · exact .ret (around (by simp) (by simp))
        · refine .after fun _ => .after fun _ => ?_
          extract_lets fromCond
          have ends (cond : Option Node) : Yields PlainAround (fromCond cond) := by
            have last (post : Option Node) (simple : ∀ l ∈ post, l.Plain) :
                Yields PlainAround (pure (.inl (first, cond, post))) := .ret (around plain simple)
            refine .after fun _ => ?_
            split
            · exact .refusedThen
            · refine .after fun _ => .after fun _ => ?_
              split
              · exact .bind (P := fun o => ∀ l ∈ o, l.Plain) (.ret (by simp)) last
              · refine .bind clause_plain fun l holds => ?_
                exact .bind (P := fun o => ∀ l ∈ o, l.Plain) (.ret (by simpa using holds)) last
          split
          · exact .after ends
          · exact .after fun _ => .after ends
      split
      · exact .bind (P := fun o => ∀ i ∈ o, i.Plain) (.ret (by simp)) follows
      · refine .bind (simple_plain nofun) fun parts plain => ?_
        cases parts with
        | inl s => exact .bind (P := fun o => ∀ i ∈ o, i.Plain) (.ret (by simpa using plain)) follows
        | inr r => exact .ret (ranged r)

theorem forStmt_inherited : Yields P (forStmt g) := by
  unfold forStmt
  refine .after fun _ => .bind forHeader_plain fun head plain => .bind heir.block fun body inner => ?_
  refine .after fun _ => .after fun m => ?_
  split
  · rename_i init cond post
    obtain ⟨first, last⟩ := plain init cond post rfl
    exact .after fun _ => .ret (inherited.forStmt (fun i there => inherited.simple (first i there))
      inner.1 inner.2 fun l there => inherited.simple (last l there))
  · split
    · exact .ret (inherited.rangeStmt inner.1 inner.2)
    · exact .ret (inherited.rangeStmt inner.1 inner.2)
    · exact .ret (inherited.rangeStmt inner.1 inner.2)
    · exact .refused

omit inherited heir in
theorem branchStmt_plain (kind : BranchKind) : Yields Node.Plain (branchStmt kind) := by
  unfold branchStmt
  refine .after fun _ => .after fun _ => ?_
  dsimp only
  split
  · exact .after fun _ => .after fun _ => .after fun _ => .after fun _ => .ret ⟨rfl, rfl, rfl⟩
  · exact .after fun _ => .after fun _ => .after fun _ => .ret ⟨rfl, rfl, rfl⟩

omit inherited heir in
theorem returnStmt_plain : Yields Node.Plain (returnStmt g) := by
  unfold returnStmt
  refine .after fun _ => .after fun _ => .after fun _ => ?_
  dsimp only
  split
  · exact .after fun _ => .after fun _ => .after fun _ => .ret ⟨rfl, rfl, rfl⟩
  · exact .after fun _ => .after fun _ => .after fun _ => .ret ⟨rfl, rfl, rfl⟩

theorem stmt_inherited : Yields P (stmt g) := by
  have plain {n : Node} (plain : n.Plain) : P n := inherited.simple plain
  unfold stmt
  refine .after fun t => ?_
  split
  · refine .bind (declaration_specifies _) fun d ⟨_, _, same, each⟩ => .after fun _ => .ret ?_
    subst same
    exact inherited.declStmt each
  · split
    · refine .bind (simpleStmt_inherited inherited heir .statement) fun s holds => ?_
      dsimp only
      split
      · exact .after fun _ => .ret holds
      · exact .ret holds
    · split
      · exact returnStmt_plain.imp fun _ => plain
      · exact (branchStmt_plain _).imp fun _ => plain
      · exact (branchStmt_plain _).imp fun _ => plain
      · exact (branchStmt_plain _).imp fun _ => plain
      · exact (branchStmt_plain _).imp fun _ => plain
      · exact heir.ifStmt.imp fun _ holds => holds.2
      · exact switchStmt_inherited inherited heir
      · exact forStmt_inherited inherited heir
      · exact .after fun _ => .after fun _ => .ret (inherited.simple ⟨rfl, rfl, rfl⟩)
      · exact .bind heir.block fun _ holds => .after fun _ => .ret holds.2
      · exact .after fun _ => .after fun _ => .ret (inherited.simple ⟨rfl, rfl, rfl⟩)
      · exact .refused

end Control

/-! ## Whole files -/

theorem grammar_inherited (inherited : Node.Inherited P) (depth : Nat) : Heir P (grammar depth) := by
  induction depth with
  | zero => exact ⟨.refused, .refused, .refused⟩
  | succ depth ih =>
      exact ⟨stmt_inherited inherited ih, ifStmt_inherited inherited ih, block_inherited inherited ih⟩

/-- What a function declaration is to have. -/
def BodyHas (P : Node → Prop) (d : FuncDecl) : Prop := ∀ b ∈ d.body, b.isBlock = true ∧ P b

theorem funcDecl_inherited (heir : Heir P g) : Yields (BodyHas P) (funcDecl g) := by
  unfold funcDecl
  refine .after fun _ => .after fun isMethod => ?_
  extract_lets fromName fromReceiver
  have named (name : String) : Yields (BodyHas P) (fromName name) := by
    refine .after fun _ => .after fun _ => .after fun _ => .after fun braced => ?_
    split
    · refine .bind heir.block fun b holds => .after fun _ => ?_
      refine .bind (P := fun o => o = some b) (.ret rfl) fun body same => ?_
      subst same
      exact .after fun _ => .ret (by simpa [BodyHas] using holds)
    · refine .after fun _ => .after fun _ => ?_
      split
      · exact .refusedThen
      · refine .bind (P := fun o => o = none) (.ret rfl) fun body same => ?_
        subst same
        exact .after fun _ => .ret (by simp [BodyHas])
  have received : ∀ r, Yields (BodyHas P) (fromReceiver r) := by
    intro r
    refine .after fun id => ?_
    split
    · exact .after named
    · exact .after named
  split
  · exact .after fun _ => received ()
  · exact received ()

theorem topDecl_inherited (heir : Heir P g) :
    Yields (fun d => ∀ f, d = TopDecl.func f → BodyHas P f) (topDecl g) := by
  unfold topDecl
  refine .after fun t => ?_
  split
  · exact .bind (funcDecl_inherited heir) fun d holds => .ret (by simpa using holds)
  · split
    · refine .after fun d => ?_
      split
      · exact .ret (by simp)
      · exact .ret (by simp)
    · exact .after fun _ => .ret (by simp)
    · exact .refused

theorem file_inherited (heir : Heir P g) :
    Yields (fun decls => ∀ d ∈ decls, ∀ f, d = TopDecl.func f → BodyHas P f) (file g) := by
  unfold file
  refine .after fun _ => .after fun _ => .after fun _ => .after fun _ => .repeated ?_
  refine .after fun _ => ?_
  split
  · exact .ret (by simp)
  · exact .bind (topDecl_inherited heir) fun d holds => .ret (by simpa using holds)

end Parse

theorem parseFile_inherited {P : Node → Prop} (inherited : Node.Inherited P) {text : String}
    {parsed : SourceFile} (ok : parseFile text = some parsed) :
    ∀ d ∈ functionsOf parsed.decls, Parse.BodyHas P d := by
  simp only [parseFile, Option.bind_eq_bind, Option.bind_eq_some_iff, Option.pure_def,
    Option.some.injEq] at ok
  obtain ⟨lexed, -, ⟨decls, state⟩, ran, rfl⟩ := ok
  intro d member
  obtain ⟨decl, among, isFunc⟩ := List.mem_filterMap.mp member
  have holds := Parse.file_inherited (Parse.grammar_inherited inherited _) _ _ _ ran decl among
  cases decl with
  | func f =>
      dsimp only at isFunc
      split at isFunc
      · contradiction
      · exact Option.some.inj isFunc ▸ holds f rfl
  | types names => contradiction
  | other => contradiction

end Source

open Source (Node)

/-- The body of a parsed kernel is a block, and it has what statements inherit. -/
theorem parseKernels_inherited {P : Node → Prop} (inherited : Node.Inherited P) {file text : String}
    {u : SourceUnit} {k : KernelFn} {body : Node}
    (parsed : SourceUnit.parseKernels file text = .ok u) (member : k ∈ u.kernels)
    (hasBody : k.body = some body) : body.isBlock = true ∧ P body := by
  have parse (text : String) (ok : SourceUnit.parse file text = .ok u) :
      body.isBlock = true ∧ P body := by
    unfold SourceUnit.parse at ok
    split at ok
    · rename_i parsed isParsed
      cases ok
      simp only [unitOf, SourceUnit.mapKernels, List.mem_map] at member
      obtain ⟨k', ⟨⟨d, i⟩, inList, rfl⟩, rfl⟩ := member
      exact Source.parseFile_inherited inherited isParsed d (List.fst_mem_of_mem_zipIdx inList) body
        hasBody
    · cases ok
  unfold SourceUnit.parseKernels at parsed
  split at parsed
  · exact parse _ parsed
  · exact parse _ parsed

/-- The body of a parsed kernel is a block of statements. -/
theorem parseKernels_structured {file text : String} {u : SourceUnit} {k : KernelFn} {body : Node}
    (parsed : SourceUnit.parseKernels file text = .ok u) (member : k ∈ u.kernels)
    (hasBody : k.body = some body) : body.isBlock = true ∧ body.Structured :=
  parseKernels_inherited Node.structured_inherited parsed member hasBody

end Retarget
