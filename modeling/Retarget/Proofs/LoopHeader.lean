/-
# Proofs.LoopHeader -- what a pattern says of the header of its loop

The header of a loop is given a meaning on its own: what it does before the first iteration, when
it goes on, and what it does after an iteration (`control?`).  A pattern says of the same header
that its iterator starts at a number, runs below a bound and steps by one.

The two agree (`pattern_describes_header`) where the parts that the analysis does not compare fit:
the iterator is set to a literal that a word can hold, and it is the iterator that is stepped.
The condition and the width of the step need no such care.  Then the loop visits the numbers from
the start up to the bound, each once and in order.  A start that is no literal is passed over in
silence: the pattern says zero (`pattern_describes_header_variable`).
-/
import Mathlib.Logic.Function.Basic
import Retarget.Loop.Pattern

namespace Retarget

open Retarget.Source (Node BinaryOp AssignOp)
open Retarget.Text (readLiteral IntegerReading)

set_option autoImplicit false
set_option linter.dupNamespace false

namespace Loop

/-! ## The meaning of a header -/

/-- What a variable of a header may hold. -/
inductive Value where
  | int (n : Int)
  /-- A list, of which only the length matters. -/
  | items (count : Nat)
deriving DecidableEq, Repr

namespace Value

def int? : Value → Option Int
  | int n => some n
  | items _ => none

/-- How often a range over the value runs. -/
def count : Value → Int
  | int n => n
  | items count => count

end Value

abbrev Env := String → Value

def arithmetic? : BinaryOp → Option (Int → Int → Int)
  | .add => some (· + ·)
  | .sub => some (· - ·)
  | .mul => some (· * ·)
  | _ => none

def comparison? : BinaryOp → Option (Int → Int → Bool)
  | .lt => some (· < ·)
  | .le => some (· ≤ ·)
  | .gt => some (· > ·)
  | .ge => some (· ≥ ·)
  | .eq => some (· == ·)
  | .ne => some (· != ·)
  | _ => none

/-- The number an expression stands for. -/
def int? (env : Env) : Node → Option Int
  | .name _ x => (env x).int?
  | .literal _ .int text => (readLiteral text).value?
  | .paren _ x => int? env x
  | .binary _ op x y => do return (← arithmetic? op) (← int? env x) (← int? env y)
  | _ => none

def holds? (env : Env) : Node → Option Bool
  | .paren _ x => holds? env x
  | .binary _ op x y => do return (← comparison? op) (← int? env x) (← int? env y)
  | _ => none

/-- How often a range runs. -/
def count? (env : Env) : Node → Option Int
  | .name _ x => some (env x).count
  | n => int? env n

def put (env : Env) (x : String) (n : Int) : Env := Function.update env x (.int n)

@[simp] theorem put_same (env : Env) (x : String) (n : Int) : put env x n x = .int n := by
  simp [put]

@[simp] theorem put_other (env : Env) {x y : String} (n : Int) (other : y ≠ x) :
    put env x n y = env y := by
  simp [put, other]

/-- A statement of a header. -/
def exec? (env : Env) : Node → Option Env
  | .assign _ .define [.name _ x] [v] => (int? env v).map (put env x)
  | .assign _ .set [.name _ x] [v] => (int? env v).map (put env x)
  | .assign _ (.update op) [.name _ x] [v] => do
    return put env x ((← arithmetic? op) (← (env x).int?) (← int? env v))
  | .step _ up (.name _ x) => (env x).int?.map fun n => put env x (if up then n + 1 else n - 1)
  | .empty _ => some env
  | _ => none

def execOpt? (env : Env) : Option Node → Option Env
  | none => some env
  | some n => exec? env n

/-- What the header of a loop does.  The test sees the variables on entry to the loop and the
present ones. -/
structure Control where
  setup : Env → Option Env
  test : Env → Env → Option Bool
  advance : Env → Option Env

/-- A range is counted once, on entry; its key runs from zero below the count. -/
def control? : Node → Option Control
  | .forStmt _ init cond post _ => some {
      setup := fun env => execOpt? env init
      test := fun _ env => match cond with
        | none => some true
        | some c => holds? env c
      advance := fun env => execOpt? env post }
  | .rangeStmt _ (some (.name _ x)) none range _ => some {
      setup := fun env => some (put env x 0)
      test := fun entry env => do return (← (env x).int?) < (← count? entry range)
      advance := fun env => (env x).int?.map fun n => put env x (n + 1) }
  | _ => none

/-- The values a variable has in the iterations of a loop whose body leaves the variables alone. -/
inductive Control.Visits (c : Control) (x : String) (entry : Env) : Env → List Int → Prop where
  | done {env : Env} (stops : c.test entry env = some false) : Visits c x entry env []
  | next {env env' : Env} {i : Int} {rest : List Int} (goes : c.test entry env = some true)
      (value : env x = .int i) (advances : c.advance env = some env')
      (visits : Visits c x entry env' rest) : Visits c x entry env (i :: rest)

/-! ## Counting -/

/-- Before the first iteration `x` is set to `start`. -/
def Control.StartsAt (c : Control) (x : String) (start : Int) : Prop :=
  ∀ env, c.setup env = some (put env x start)

/-- The loop goes on while `x` is below `bound`. -/
def Control.RunsBelow (c : Control) (x : String) (bound : Node) : Prop :=
  ∀ entry env i b, env x = .int i → int? entry bound = some b → int? env bound = some b →
    c.test entry env = some (decide (i < b))

/-- After an iteration `step` is added to `x`. -/
def Control.StepsBy (c : Control) (x : String) (step : Int) : Prop :=
  ∀ env i, env x = .int i → c.advance env = some (put env x (i + step))

/-- The numbers from `start` up to `bound`. -/
def between (start bound : Int) : List Int :=
  (List.range (bound - start).toNat).map fun j : Nat => start + j

theorem between_empty {start bound : Int} (none : bound ≤ start) : between start bound = [] := by
  simp [between, Int.toNat_of_nonpos (Int.sub_nonpos_of_le none)]

theorem between_step {start bound : Int} (some : start < bound) :
    between start bound = start :: between (start + 1) bound := by
  have more : (bound - start).toNat = (bound - (start + 1)).toNat + 1 := by omega
  simp only [between, more, List.range_succ_eq_map, List.map_cons, List.map_map]
  refine congrArg₂ List.cons (by simp) (List.map_congr_left fun j _ => ?_)
  simp only [Function.comp_apply]
  omega

/-- A bound is a variable or a literal. -/
def isAtom : Node → Bool
  | .name .. | .literal .. => true
  | _ => false

theorem int?_put {env : Env} {x : String} {n : Int} {bound : Node} (atom : isAtom bound = true)
    (other : bound.name? ≠ some x) : int? (put env x n) bound = int? env bound := by
  cases bound with
  | name m y =>
      have apart : y ≠ x := by simpa [Node.name?] using other
      exact congrArg Value.int? (put_other env n apart)
  | literal m kind text => cases kind <;> rfl
  | _ => contradiction

/-- A loop that counts visits every number from where it is up to the bound. -/
theorem Control.visits_between {c : Control} {x : String} {bound : Node} (runs : c.RunsBelow x bound)
    (steps : c.StepsBy x 1) (atom : isAtom bound = true) (other : bound.name? ≠ some x)
    {entry : Env} {b : Int} (value : int? entry bound = some b) (i : Int) (env : Env)
    (steady : int? env bound = some b) (here : env x = .int i) :
    c.Visits x entry env (between i b) := by
  -- induction on the numbers that are left
  induction left : (b - i).toNat generalizing i env with
  | zero =>
      rw [between_empty (by omega)]
      refine .done ((runs entry env i b here value steady).trans ?_)
      simp only [Option.some.injEq, decide_eq_false_iff_not]
      omega
  | succ n ih =>
      have below : i < b := by omega
      rw [between_step below]
      refine .next ((runs entry env i b here value steady).trans (by simp [below])) here
        (steps env i here) ?_
      exact ih (i + 1) (put env x (i + 1)) ((int?_put atom other).trans steady) (put_same ..)
        (by omega)

/-! ## Headers that are recognised -/

theorem bound_of_outOfRange {text : String} {b : Int} (beyond : readLiteral text = .outOfRange b) :
    b = Text.minInt64 ∨ b = Text.maxInt64 := by
  unfold readLiteral at beyond
  dsimp only at beyond
  split at beyond
  · cases beyond
  · split at beyond
    · split at beyond
      · cases beyond
      · unfold Text.signed at beyond
        split at beyond
        · split at beyond <;> cases beyond
          exact Or.inl rfl
        · split at beyond <;> cases beyond
          exact Or.inr rfl
    · cases beyond

/-- Only the literals of one are read as one. -/
theorem value?_of_clamped_one {text : String} (one : (readLiteral text).clamped = 1) :
    (readLiteral text).value? = some 1 := by
  cases reading : readLiteral text with
  | value n =>
      rw [reading] at one
      exact congrArg some one
  | malformed => simp [reading, IntegerReading.clamped] at one
  | outOfRange b =>
      rw [reading] at one
      rcases bound_of_outOfRange reading with rfl | rfl <;> contradiction

/-- The iterator is set to a literal that a word can hold. -/
def setsLiteral : Option Node → Bool
  | some (.assign _ op [.name ..] [.literal _ .int text]) =>
    !op.isUpdate && (readLiteral text).value?.isSome
  | _ => false

/-- The statement after an iteration changes `x`. -/
def changes (x : String) : Option Node → Bool
  | some (.step _ _ (.name _ y)) => y == x
  | some (.assign _ _ [.name _ y] _) => y == x
  | _ => false

/-- The loop starts at a literal, or is a range. -/
def startsAtLiteral : Node → Bool
  | .forStmt _ init _ _ _ => setsLiteral init
  | .rangeStmt .. => true
  | _ => false

/-- What the loop steps is its iterator. -/
def stepsIterator : Node → Bool
  | .forStmt _ init _ post _ => changes (iteratorOf init) post
  | .rangeStmt .. => true
  | _ => false

theorem setup_of_setsLiteral {init : Option Node} (sets : setsLiteral init = true) (env : Env) :
    execOpt? env init = some (put env (iteratorOf init) (startOf init)) := by
  unfold setsLiteral at sets
  split at sets
  · rename_i m op m' x m'' text
    obtain ⟨plain, fits⟩ := Bool.and_eq_true_iff.mp sets
    obtain ⟨n, value⟩ := Option.isSome_iff_exists.mp fits
    have start : (readLiteral text).clamped = n := by
      cases reading : readLiteral text <;> simp_all [IntegerReading.value?, IntegerReading.clamped]
    cases op with
    | define | set =>
        show (readLiteral text).value?.map (put env x) = some (put env x (readLiteral text).clamped)
        rw [value, start]
        rfl
    | update op => contradiction
  · contradiction

theorem advance_of_changes {x : String} {post : Option Node} (changed : changes x post = true)
    (one : stepOf post = 1) {env : Env} {i : Int} (here : env x = .int i) :
    execOpt? env post = some (put env x (i + 1)) := by
  unfold changes at changed
  split at changed
  · rename_i m up m' y
    obtain rfl : y = x := by simpa using changed
    cases up with
    | true =>
        show (env y).int?.map _ = _
        rw [here]
        rfl
    | false => exact absurd (show (0 : Int) = 1 from one) (by decide)
  · rename_i m op m' y values
    obtain rfl : y = x := by simpa using changed
    unfold stepOf at one
    split at one
    · rename_i other
      cases other
    · rename_i same
      cases same
      rename_i value
      cases literal : integerLiteral? value with
      | none => simp [literal] at one
      | some n =>
          obtain rfl : n = 1 := by simpa [literal] using one
          have stands : int? env value = some 1 := by
            cases value with
            | literal m kind text =>
                cases kind <;> simp only [integerLiteral?, reduceCtorEq, Option.some.injEq] at literal
                exact value?_of_clamped_one literal
            | _ => cases literal
          show (env y).int?.bind _ = _
          rw [here]
          show (int? env value).bind _ = _
          rw [stands]
          rfl
    · cases one
  · contradiction

theorem boundOf_cases {u : SourceUnit} {x : String} {cond : Option Node}
    (some : boundOf u x cond ≠ "") : ∃ m m' y, cond = .some (.binary m .lt (.name m' x) y) ∧
      isAtom y = true ∧ boundOf u x cond = u.print y := by
  unfold boundOf at some ⊢
  split at some
  · rename_i m m' text y
    split at some
    · rename_i same
      obtain rfl : text = x := by simpa using same
      rw [if_pos same]
      cases y with
      | name _ _ => exact ⟨m, m', _, rfl, rfl, rfl⟩
      | literal _ _ _ => exact ⟨m, m', _, rfl, rfl, rfl⟩
      | _ => contradiction
    · contradiction
  · contradiction

theorem boundText_atom {u : SourceUnit} {n : Node} (some : boundText u n ≠ "") :
    isAtom n = true ∧ boundText u n = u.print n := by
  cases n with
  | name _ _ => exact ⟨rfl, rfl⟩
  | literal _ _ _ => exact ⟨rfl, rfl⟩
  | _ => contradiction

theorem count?_of_int? {env : Env} {n : Node} {b : Int} (value : int? env n = some b) :
    count? env n = some b := by
  cases n with
  | name m x =>
      have shown : (env x).int? = some b := value
      show some (env x).count = some b
      cases held : env x with
      | int i =>
          rw [held] at shown
          exact shown
      | items count =>
          rw [held] at shown
          cases shown
  | _ => exact value

/-- What the iterator is compared with. -/
def limit? : Node → Option Node
  | .forStmt _ _ (some (.binary _ _ _ y)) _ _ => some y
  | .rangeStmt _ _ _ x _ => some x
  | _ => none

/-- How far the header of a loop counts as `h` says. -/
structure Counts (u : SourceUnit) (loop : Node) (h : Header) (c : Control) (e : Node) : Prop where
  control : control? loop = some c
  limit : limit? loop = some e
  atom : isAtom e = true
  bound : h.bound = u.print e
  runs : c.RunsBelow h.iterator e
  starts : startsAtLiteral loop = true → c.StartsAt h.iterator h.start
  steps : stepsIterator loop = true → c.StepsBy h.iterator 1

theorem forStmt_counts {u : SourceUnit} {m : Source.Mark} {init cond post : Option Node} {body : Node}
    (bounded : (forHeader u init cond post).bound ≠ "")
    (one : (forHeader u init cond post).step = 1) :
    ∃ c e, Counts u (.forStmt m init cond post body) (forHeader u init cond post) c e := by
  obtain ⟨m, m', e, rfl, atom, text⟩ := boundOf_cases bounded
  refine ⟨_, e, rfl, rfl, atom, text, ?_, setup_of_setsLiteral, ?_⟩
  · intro entry env i b here _ value
    have iterator : env (iteratorOf init) = .int i := here
    show (env (iteratorOf init)).int?.bind _ = _
    rw [iterator]
    show (int? env e).bind _ = _
    rw [value]
    rfl
  · intro changed env i here
    exact advance_of_changes changed one here

theorem rangeStmt_counts {u : SourceUnit} {m m' : Source.Mark} {x : String} {range body : Node}
    (bounded : boundText u range ≠ "") :
    ∃ c e, Counts u (.rangeStmt m (some (.name m' x)) none range body)
      { iterator := x, start := 0, bound := boundText u range, step := 1 } c e := by
  obtain ⟨atom, text⟩ := boundText_atom bounded
  refine ⟨_, range, rfl, rfl, atom, text, ?_, fun _ _ => rfl, ?_⟩
  · intro entry env i b here value _
    have iterator : env x = .int i := here
    simp [iterator, Value.int?, count?_of_int? value]
  · intro _ env i here
    have iterator : env x = .int i := here
    simp [iterator, Value.int?]

/-- A header that is found belongs to a loop of one of the two forms. -/
theorem headerOf?_cases {u : SourceUnit} {k : KernelFn} {loop body : Node} {h : Header}
    (found : headerOf? u k loop = some (h, body)) :
    h.bound ≠ "" ∧
      ((∃ m init cond post, loop = .forStmt m init cond post body ∧ h = forHeader u init cond post) ∨
        ∃ m m' x range, loop = .rangeStmt m (some (.name m' x)) none range body ∧
          h = { iterator := x, start := 0, bound := boundText u range, step := 1 }) := by
  unfold headerOf? at found
  obtain ⟨read, kept⟩ := Option.filter_eq_some_iff.mp found
  refine ⟨by simpa using (Bool.and_eq_true_iff.mp kept).2, ?_⟩
  split at read
  · cases read
    exact Or.inl ⟨_, _, _, _, rfl, rfl⟩
  · obtain ⟨header, ranged, same⟩ := Option.map_eq_some_iff.mp read
    cases same
    unfold rangeHeader? at ranged
    split at ranged
    · split at ranged
      · cases ranged
      · cases ranged
        exact Or.inr ⟨_, _, _, _, rfl, rfl⟩
    · cases ranged
  · cases read

theorem counts_of_headerOf? {u : SourceUnit} {k : KernelFn} {loop body : Node} {h : Header}
    (found : headerOf? u k loop = some (h, body)) (one : h.step = 1) :
    ∃ c e, Counts u loop h c e := by
  obtain ⟨bounded, ⟨m, init, cond, post, rfl, rfl⟩ | ⟨m, m', x, range, rfl, rfl⟩⟩ :=
    headerOf?_cases found
  · exact forStmt_counts bounded one
  · exact rangeStmt_counts bounded

end Loop

/-! ## Patterns -/

theorem LoopPattern.step_of_isVectorizable {p : LoopPattern} (vectorizable : p.isVectorizable = true) :
    p.step = 1 := by
  by_contra other
  simp [isVectorizable, reasons, other] at vectorizable

theorem LoopPattern.header_of_ofLoop? {u : SourceUnit} {k : KernelFn} {loop : Node} {p : LoopPattern}
    (found : LoopPattern.ofLoop? u k loop = some p) :
    ∃ h body, Loop.headerOf? u k loop = some (h, body) ∧
      h = { iterator := p.iterator, start := p.start, bound := p.bound, step := p.step } := by
  unfold ofLoop? at found
  obtain ⟨⟨h, body⟩, header, same⟩ := Option.bind_eq_some_iff.mp found
  cases same
  exact ⟨h, body, header, rfl⟩

/-- The header of a loop that can be vectorised counts as its pattern says.  The loop goes on while
the iterator is below the bound, whatever its form; it sets the iterator to the start if it sets it
to a literal, and adds one to it if it steps the iterator.  Then it visits the numbers from the
start up to the bound. -/
theorem pattern_describes_header {u : SourceUnit} {k : KernelFn} {loop : Node} {p : LoopPattern}
    (found : LoopPattern.ofLoop? u k loop = some p) (vectorizable : p.isVectorizable = true) :
    p.step = 1 ∧ ∃ c e, Loop.control? loop = some c ∧ Loop.limit? loop = some e ∧
      p.bound = u.print e ∧ c.RunsBelow p.iterator e ∧
      (Loop.startsAtLiteral loop = true → c.StartsAt p.iterator p.start) ∧
      (Loop.stepsIterator loop = true → c.StepsBy p.iterator p.step) ∧
      (Loop.startsAtLiteral loop = true → Loop.stepsIterator loop = true →
        ∀ env b, Loop.int? env e = some b → e.name? ≠ some p.iterator →
          ∃ env', c.setup env = some env' ∧
            c.Visits p.iterator env env' (Loop.between p.start b)) := by
  have one := p.step_of_isVectorizable vectorizable
  obtain ⟨h, body, header, rfl⟩ := LoopPattern.header_of_ofLoop? found
  obtain ⟨c, e, counts⟩ := Loop.counts_of_headerOf? header one
  refine ⟨one, c, e, counts.control, counts.limit, counts.bound, counts.runs, counts.starts,
    one ▸ counts.steps, ?_⟩
  intro literal iterator env b value other
  refine ⟨_, counts.starts literal env, ?_⟩
  refine Loop.Control.visits_between counts.runs (counts.steps iterator) counts.atom other value
    p.start _ ?_ (Loop.put_same ..)
  exact (Loop.int?_put counts.atom other).trans value

/-! ## Two loops -/

namespace Loop

/-- The loop `for i := first; i < n; i++` around `a[i] = b[i]`. -/
def copying (first : Node) : Node :=
  .forStmt ⟨1, 0, 0⟩ (some (.assign ⟨2, 0, 0⟩ .define [.name ⟨3, 0, 0⟩ "i"] [first]))
    (some (.binary ⟨4, 0, 0⟩ .lt (.name ⟨5, 0, 0⟩ "i") (.name ⟨6, 0, 0⟩ "n")))
    (some (.step ⟨7, 0, 0⟩ true (.name ⟨8, 0, 0⟩ "i")))
    (.block ⟨9, 0, 0⟩ [.assign ⟨10, 0, 0⟩ .set
      [.index ⟨11, 0, 0⟩ (.name ⟨12, 0, 0⟩ "a") (.name ⟨13, 0, 0⟩ "i")]
      [.index ⟨14, 0, 0⟩ (.name ⟨15, 0, 0⟩ "b") (.name ⟨16, 0, 0⟩ "i")]])

end Loop

open Loop in
/-- The loop from two to five visits two, three and four. -/
theorem pattern_describes_header_copying :
    ∃ p c env', LoopPattern.ofLoop? default default (copying (.literal ⟨17, 0, 0⟩ .int "2")) = some p ∧
      p.isVectorizable = true ∧ control? (copying (.literal ⟨17, 0, 0⟩ .int "2")) = some c ∧
      c.setup (fun _ => .int 5) = some env' ∧
      c.Visits p.iterator (fun _ => .int 5) env' [2, 3, 4] := by
  have facts : (LoopPattern.ofLoop? default default (copying (.literal ⟨17, 0, 0⟩ .int "2"))).map
      (fun p => (p.isVectorizable, p.iterator, p.start)) = some (true, "i", 2) := by decide
  obtain ⟨p, found, same⟩ := Option.map_eq_some_iff.mp facts
  simp only [Prod.mk.injEq] at same
  obtain ⟨vectorizable, iterator, start⟩ := same
  obtain ⟨-, c, e, control, limit, -, -, -, -, visits⟩ := pattern_describes_header found vectorizable
  obtain rfl : .name ⟨6, 0, 0⟩ "n" = e := Option.some.inj limit
  obtain ⟨env', setup, visited⟩ :=
    visits (by decide) (by decide) (fun _ => .int 5) 5 rfl
      (by simp [iterator, Node.name?])
  rw [start, show between 2 5 = [2, 3, 4] from rfl] at visited
  exact ⟨p, c, env', found, vectorizable, control, setup, visited⟩

open Loop in
/-- The loop that starts at a variable is said to start at zero. -/
theorem pattern_describes_header_variable :
    (LoopPattern.ofLoop? default default (copying (.name ⟨17, 0, 0⟩ "s"))).map
        (fun p => (p.isVectorizable, p.iterator, p.start)) = some (true, "i", 0) ∧
      ((control? (copying (.name ⟨17, 0, 0⟩ "s"))).bind fun c =>
        (c.setup fun _ => .int 5).map fun env => env "i") = some (.int 5) := by
  decide

end Retarget
