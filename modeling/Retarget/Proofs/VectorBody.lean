/-
# Proofs.VectorBody -- a vector body does what the loop does

The statements of a loop are given a meaning of their own: an iteration works on arrays at the
iterator and on scalars (`assign?`), and a chunk of iterations runs one after the other
(`runChunk?`).
A statement that has a vector form acts on its column of elements and on the accumulator as the
vector form says (`assign?_vecStmt`), and iterations at different places do not meet.

So the lines of the vector body leave the arrays and the total of the accumulator as the loop does
(`vector_body_agrees`), if no statement loads an array that an earlier one has stored to and no name
of the body is declared by the code around it.  Since loads come first, a statement that reads what
has just been stored gets the old element (`vector_body_stale`).
-/
import Mathlib.Algebra.BigOperators.Fin
import Retarget.Proofs.VectorLanes

namespace Retarget

open Retarget.Source (Node BinaryOp AssignOp)

set_option autoImplicit false
set_option linter.dupNamespace false

/-! ## The meaning of a body -/

/-- What a body works on. -/
structure Memory (K : Type) where
  arrays : String → Int → K
  scalars : String → K

def Memory.column {K : Type} (m : Memory K) (i : Int) : String → K := fun a => m.arrays a i

namespace Loop

section Meaning

variable {K : Type} [CommRing K] [Div K]

def operator? : BinaryOp → Option (K → K → K)
  | .add => some (· + ·)
  | .sub => some (· - ·)
  | .mul => some (· * ·)
  | .div => some (· / ·)
  | _ => none

/-- What an assignment stores over an old value. -/
def combine? (old new : K) : AssignOp → Option K
  | .define | .set => some new
  | .update op => (operator? op).map fun f => f old new

variable (literals : Literals K) (iterator : String) (i : Int)

/-- The value of an expression in the iteration at `i`; arrays are read at the iterator alone. -/
def eval? (m : Memory K) : Node → Option K
  | .paren _ x => eval? m x
  | .name _ x => some (if x = iterator then (i : K) else m.scalars x)
  | .literal _ _ text => some (literals.value text)
  | .index _ (.name _ a) (.name _ j) => if j = iterator then some (m.arrays a i) else none
  | .unary _ .minus x => (eval? m x).map (- ·)
  | .binary _ op x y => do return (← operator? op) (← eval? m x) (← eval? m y)
  | _ => none

def putElement (m : Memory K) (a : String) (v : K) : Memory K :=
  { m with arrays := Function.update m.arrays a (Function.update (m.arrays a) i v) }

def putScalar (m : Memory K) (x : String) (v : K) : Memory K :=
  { m with scalars := Function.update m.scalars x v }

/-- An assignment in the iteration at `i`, to an array at the iterator or to a scalar. -/
def assign? (m : Memory K) : Node → Option (Memory K)
  | .assign _ op [target] [value] => do
    let v ← eval? literals iterator i m value
    match target.unparen with
    | .index _ (.name _ a) (.name _ j) =>
      if j = iterator then (combine? (m.arrays a i) v op).map (putElement i m a) else none
    | .name _ x => if x = iterator then none else (combine? (m.scalars x) v op).map (putScalar m x)
    | _ => none
  | _ => none

def runBody? (body : List Node) (m : Memory K) : Option (Memory K) :=
  body.foldlM (assign? literals iterator i) m

/-- The iterations at some places, one after the other. -/
def runChunk? (body : List Node) (places : List Int) (m : Memory K) : Option (Memory K) :=
  places.foldlM (fun m i => runBody? literals iterator i body m) m

variable {literals iterator i} {m : Memory K}

theorem eval?_unparen (n : Node) :
    eval? literals iterator i m n.unparen = eval? literals iterator i m n := by
  fun_induction Node.unparen n with
  | case1 mark x ih => exact ih
  | case2 => rfl

/-- A reduction adds to its variable. -/
theorem assign?_reduction {n x : Node} {v : String} {w : K} (found : reductionOf? n = some (v, x))
    (other : v ≠ iterator) (value : eval? literals iterator i m x = some w) :
    assign? literals iterator i m n = some (putScalar m v (m.scalars v + w)) := by
  unfold reductionOf? at found
  split at found
  · cases found
    show (eval? literals iterator i m x).bind _ = _
    rw [value]
    exact if_neg other
  · split at found
    · rename_i whole _ m₁ m₂ z y shape
      split at found
      · rename_i same
        cases found
        obtain rfl := beq_iff_eq.mp same
        have sum : eval? literals iterator i m whole = some (m.scalars z + w) := by
          rw [← eval?_unparen, shape]
          show (eval? literals iterator i m x).bind (fun y =>
            some ((if z = iterator then (i : K) else m.scalars z) + y)) = _
          rw [value, if_neg other]
          rfl
        show (eval? literals iterator i m whole).bind _ = _
        rw [sum]
        exact if_neg other
      · cases found
    · cases found
  · cases found

/-- An assignment to an array at the iterator. -/
theorem assign?_element {mark m₁ m₂ m₃ : Source.Mark} {op : AssignOp} {target x : Node} {a : String}
    {w v : K}
    (shape : target.unparen = .index m₁ (.name m₂ a) (.name m₃ iterator))
    (value : eval? literals iterator i m x = some w)
    (stores : combine? (m.arrays a i) w op = some v) :
    assign? literals iterator i m (.assign mark op [target] [x]) = some (putElement i m a v) := by
  simp [assign?, value, shape, stores]

end Meaning

end Loop

/-! ## Terms and statements -/

theorem ok_of_bind {ε α β : Type} {x : Except ε α} {f : α → Except ε β} {b : β}
    (ok : x >>= f = .ok b) : ∃ a, x = .ok a ∧ f a = .ok b := by
  cases x with
  | error e => cases ok
  | ok a => exact ⟨a, rfl, ok⟩

namespace LoopPattern

variable {K : Type} [CommRing K] [Div K] {p : LoopPattern} {u : SourceUnit} {prof : Profile}
  {literals : Literals K} {i : Int} {m : Memory K}

theorem operator?_of_vecOp? {op : BinaryOp} {o : VecOp} (known : vecOp? op = some o) :
    Loop.operator? op = some (o.act : K → K → K) := by
  cases op <;> cases known <;> rfl

theorem operator?_of_arithmetic {op : BinaryOp} {o : VecOp} (ok : arithmetic prof op = .ok o) :
    Loop.operator? op = some (o.act : K → K → K) := by
  unfold arithmetic supported at ok
  split at ok
  · split at ok
    · cases ok
    · cases ok
      exact operator?_of_vecOp? ‹_›
  · cases ok

/-- A subscript by the iterator. -/
theorem sequential?_eq_some {n : Node} {a : String} (found : p.sequential? n = some a) :
    ∃ m m' m'', n.unparen = .index m (.name m' a) (.name m'' p.iterator) := by
  unfold sequential? at found
  split at found
  · split at found
    · rename_i shape same
      cases found
      rw [← beq_iff_eq.mp same]
      exact ⟨_, _, _, shape⟩
    · cases found
  · cases found

/-- A term reads no scalar that the loop changes. -/
theorem term_scalars {n : Node} {t : VecTerm} (ok : p.term u prof n = .ok t) :
    ∀ x ∈ t.scalars, p.isReserved x = false := by
  fun_induction LoopPattern.term p u prof n generalizing t with
  | case1 mark x ih => exact ih ok
  | case2 => cases ok; simp [VecTerm.scalars]
  | case3 => cases ok
  | case4 => cases ok
  | case5 mark x free =>
      cases ok
      simpa [VecTerm.scalars] using free
  | case6 => cases ok; simp [VecTerm.scalars]
  | case7 mark x ih =>
      obtain ⟨t, inner, made⟩ := ok_of_bind ok
      cases made
      simpa [VecTerm.scalars] using ih inner
  | case8 mark op x y ihx ihy =>
      obtain ⟨o, -, ok⟩ := ok_of_bind ok
      obtain ⟨l, left, ok⟩ := ok_of_bind ok
      obtain ⟨r, right, made⟩ := ok_of_bind ok
      cases made
      intro z read
      rcases List.mem_append.mp read with here | there
      · exact ihx left z here
      · exact ihy right z there
  | case9 => cases ok

/-- A term has the value of its expression. -/
theorem eval?_term (literals : Literals K) (i : Int) (m : Memory K) {n : Node} {t : VecTerm}
    (ok : p.term u prof n = .ok t) :
    Loop.eval? literals p.iterator i m n = some (t.value literals m.scalars (m.column i)) := by
  fun_induction LoopPattern.term p u prof n generalizing t with
  | case1 mark x ih => exact ih ok
  | case2 mark x j array found =>
      cases ok
      obtain ⟨_, _, _, shape⟩ := sequential?_eq_some found
      cases shape
      exact if_pos rfl
  | case3 => cases ok
  | case4 => cases ok
  | case5 mark x free =>
      cases ok
      have other : x ≠ p.iterator := by
        rintro rfl
        simp [isReserved] at free
      exact congrArg some (if_neg other)
  | case6 mark kind text => cases ok; rfl
  | case7 mark x ih =>
      obtain ⟨t, inner, made⟩ := ok_of_bind ok
      cases made
      -- a minus is written as a difference from zero
      show (Loop.eval? literals p.iterator i m x).map _ = some (literals.value "0" - _)
      rw [ih inner, literals.zero, zero_sub]
      rfl
  | case8 mark op x y ihx ihy =>
      obtain ⟨o, known, ok⟩ := ok_of_bind ok
      obtain ⟨l, left, ok⟩ := ok_of_bind ok
      obtain ⟨r, right, made⟩ := ok_of_bind ok
      cases made
      show (Loop.operator? op).bind _ = _
      rw [operator?_of_arithmetic known]
      show (Loop.eval? literals p.iterator i m x).bind _ = _
      rw [ihx left]
      show (Loop.eval? literals p.iterator i m y).bind _ = _
      rw [ihy right]
      rfl
  | case9 => cases ok

/-! ## One iteration -/

/-- The memory at place `i`, and the accumulator, as a lane has them. -/
structure Holds (p : LoopPattern) (i : Int) (s : Lane K) (m : Memory K) : Prop where
  column : m.column i = s.column
  sum : ∀ v, p.reduction = some v → m.scalars v = s.sum

/-- Two memories differ at most at place `i` and in the accumulator. -/
structure Apart (p : LoopPattern) (i : Int) (m m' : Memory K) : Prop where
  arrays : ∀ a j, j ≠ i → m'.arrays a j = m.arrays a j
  scalars : ∀ x, p.reduction ≠ some x → m'.scalars x = m.scalars x

/-- A statement with a vector form is a reduction or an assignment to an array at the iterator. -/
theorem vecStmt_cases {n : Node} {t : VecStmt} (ok : p.vecStmt u prof n = .ok t) :
    (∃ v x y, Loop.reductionOf? n = some (v, x) ∧ p.reduction = some v ∧ p.term u prof x = .ok y ∧
      t = .accumulate y) ∨
    ∃ mark op target x a y, n = .assign mark op [target] [x] ∧ p.sequential? target = some a ∧
      p.term u prof x = .ok y ∧ ((op = .set ∧ t = .store a y) ∨
        ∃ b o, op = .update b ∧ vecOp? b = some o ∧ t = .update o a y) := by
  have stored (ok : p.storeStmt u prof n = .ok t) : ∃ mark op target x a y,
      n = .assign mark op [target] [x] ∧ p.sequential? target = some a ∧
      p.term u prof x = .ok y ∧ ((op = .set ∧ t = .store a y) ∨
        ∃ b o, op = .update b ∧ vecOp? b = some o ∧ t = .update o a y) := by
    unfold storeStmt at ok
    split at ok
    · split at ok
      · cases ok
      · rename_i a found
        obtain ⟨y, term, ok⟩ := ok_of_bind ok
        refine ⟨_, _, _, _, a, y, rfl, found, term, ?_⟩
        split at ok
        · cases ok
          exact Or.inl ⟨rfl, rfl⟩
        · split at ok
          · rename_i o known
            obtain ⟨o', has, made⟩ := ok_of_bind ok
            cases made
            unfold supported at has
            split at has
            · cases has
            · cases has
              exact Or.inr ⟨_, o, rfl, known, rfl⟩
          · cases ok
        · cases ok
    · cases ok
  unfold vecStmt at ok
  split at ok
  · rename_i v x found
    split at ok
    · rename_i isReduction
      obtain ⟨y, term, made⟩ := ok_of_bind ok
      cases made
      exact Or.inl ⟨v, x, y, found, beq_iff_eq.mp isReduction, term, rfl⟩
    · exact Or.inr (stored ok)
  · exact Or.inr (stored ok)

omit [Div K] in
theorem Holds.putScalar {s : Lane K} (holds : p.Holds i s m) {v : String}
    (isReduction : p.reduction = some v)
    (w : K) : p.Holds i { s with sum := s.sum + w } (Loop.putScalar m v (m.scalars v + w)) ∧
      p.Apart i m (Loop.putScalar m v (m.scalars v + w)) := by
  refine ⟨⟨holds.column, fun v' same => ?_⟩, fun _ _ _ => rfl, fun x other => ?_⟩
  · obtain rfl := Option.some.inj (isReduction.symm.trans same)
    simp [Loop.putScalar, holds.sum v isReduction]
  · have away : x ≠ v := fun same => other (same ▸ isReduction)
    exact Function.update_of_ne away _ _

omit [CommRing K] [Div K] in
theorem Holds.putElement {s : Lane K} (holds : p.Holds i s m) (a : String) (w : K) :
    p.Holds i { s with column := Function.update s.column a w } (Loop.putElement i m a w) ∧
      p.Apart i m (Loop.putElement i m a w) := by
  refine ⟨⟨?_, holds.sum⟩, fun b j away => ?_, fun _ _ => rfl⟩
  · funext b
    show Function.update m.arrays a _ b i = Function.update s.column a w b
    by_cases same : b = a
    · subst same
      simp
    · rw [Function.update_of_ne same, Function.update_of_ne same, ← holds.column]
      rfl
  · show Function.update m.arrays a _ b j = m.arrays b j
    by_cases same : b = a
    · subst same
      simp [away]
    · rw [Function.update_of_ne same]

theorem vecStmt_scalars {n : Node} {t : VecStmt} (ok : p.vecStmt u prof n = .ok t) :
    ∀ x ∈ t.scalars, p.isReserved x = false := by
  rcases vecStmt_cases ok with ⟨v, x, y, -, -, term, rfl⟩ |
    ⟨mark, op, target, x, a, y, -, -, term, ⟨-, rfl⟩ | ⟨b, o, -, -, rfl⟩⟩
  · exact term_scalars term
  · exact term_scalars term
  · exact term_scalars term

/-- What has a vector form does to an iteration what the vector form does to its lane. -/
theorem assign?_vecStmt (literals : Literals K) (other : p.reduction ≠ some p.iterator) {n : Node}
    {t : VecStmt} (ok : p.vecStmt u prof n = .ok t) {s : Lane K} (holds : p.Holds i s m) :
    ∃ m', Loop.assign? literals p.iterator i m n = some m' ∧
      p.Holds i (t.act literals m.scalars s.column s) m' ∧ p.Apart i m m' := by
  rcases vecStmt_cases ok with ⟨v, x, y, found, isReduction, term, rfl⟩ |
    ⟨mark, op, target, x, a, y, rfl, found, term, form⟩
  · have value := eval?_term literals i m term
    have away : v ≠ p.iterator := fun same => other (same ▸ isReduction)
    rw [holds.column] at value
    exact ⟨_, Loop.assign?_reduction found away value, holds.putScalar isReduction _⟩
  · have value := eval?_term literals i m term
    obtain ⟨_, _, _, shape⟩ := sequential?_eq_some found
    rw [holds.column] at value
    rcases form with ⟨rfl, rfl⟩ | ⟨b, o, rfl, known, rfl⟩
    · exact ⟨_, Loop.assign?_element shape value rfl, holds.putElement a _⟩
    · have stores : Loop.combine? (m.arrays a i) (y.value literals m.scalars s.column) (.update b) =
          some (o.act (s.column a) (y.value literals m.scalars s.column)) := by
        rw [← holds.column]
        simp [Loop.combine?, operator?_of_vecOp? known, Memory.column]
      exact ⟨_, Loop.assign?_element shape value stores, holds.putElement a _⟩

omit [CommRing K] [Div K] in
theorem Apart.trans {m₁ m₂ : Memory K} (first : p.Apart i m m₁) (second : p.Apart i m₁ m₂) :
    p.Apart i m m₂ :=
  ⟨fun a j away => (second.arrays a j away).trans (first.arrays a j away),
    fun x other => (second.scalars x other).trans (first.scalars x other)⟩

omit [CommRing K] [Div K] in
/-- What is not reserved keeps its value. -/
theorem Apart.scalar {m' : Memory K} (apart : p.Apart i m m') {x : String}
    (free : p.isReserved x = false) : m'.scalars x = m.scalars x := by
  refine apart.scalars x fun isReduction => ?_
  simp [isReserved, isReduction] at free

/-- A body has a vector form if every statement has one. -/
theorem vecBody_cons {n : Node} {body : List Node} {stmts : List VecStmt}
    (ok : (n :: body).mapM (p.vecStmt u prof) = .ok stmts) :
    ∃ t rest, p.vecStmt u prof n = .ok t ∧ body.mapM (p.vecStmt u prof) = .ok rest ∧
      stmts = t :: rest := by
  rw [List.mapM_cons] at ok
  obtain ⟨t, first, ok⟩ := ok_of_bind ok
  obtain ⟨rest, others, made⟩ := ok_of_bind ok
  cases made
  exact ⟨t, rest, first, others, rfl⟩

theorem vecBody_scalars {body : List Node} {stmts : List VecStmt}
    (ok : body.mapM (p.vecStmt u prof) = .ok stmts) :
    ∀ t ∈ stmts, ∀ x ∈ t.scalars, p.isReserved x = false := by
  induction body generalizing stmts with
  | nil => cases ok; simp
  | cons n body ih =>
      obtain ⟨t, rest, first, others, rfl⟩ := vecBody_cons ok
      exact List.forall_mem_cons.mpr ⟨vecStmt_scalars first, ih others⟩

/-- A body does to an iteration what its vector form does to a lane in order. -/
theorem runBody?_vecBody (literals : Literals K) (other : p.reduction ≠ some p.iterator)
    {body : List Node} {stmts : List VecStmt} (ok : body.mapM (p.vecStmt u prof) = .ok stmts)
    {s : Lane K} (holds : p.Holds i s m) :
    ∃ m', Loop.runBody? literals p.iterator i body m = some m' ∧
      p.Holds i (inOrder literals m.scalars stmts s) m' ∧ p.Apart i m m' := by
  induction body generalizing m s stmts with
  | nil =>
      cases ok
      exact ⟨m, rfl, holds, fun _ _ _ => rfl, fun _ _ => rfl⟩
  | cons n body ih =>
      obtain ⟨t, rest, first, others, rfl⟩ := vecBody_cons ok
      obtain ⟨m₁, ran, holds₁, apart₁⟩ := assign?_vecStmt literals other first holds
      obtain ⟨m₂, ranRest, holds₂, apart₂⟩ := ih others holds₁
      refine ⟨m₂, ?_, ?_, apart₁.trans apart₂⟩
      · rw [Loop.runBody?, List.foldlM_cons, ran]
        exact ranRest
      · -- the accumulator has changed, but no statement reads it
        rw [inOrder_congr _ fun t later x read =>
          apart₁.scalar (vecBody_scalars others t later x read)]
          at holds₂
        exact holds₂

/-! ## A chunk of iterations -/

/-- What a lane that starts with an empty sum does in order at place `j`. -/
def gain (literals : Literals K) (stmts : List VecStmt) (m : Memory K) (j : Int) : Lane K :=
  inOrder literals m.scalars stmts ⟨m.column j, 0⟩

/-- One iteration gains at its place, whatever the accumulator holds. -/
theorem runBody?_gain (literals : Literals K) (other : p.reduction ≠ some p.iterator)
    {body : List Node} {stmts : List VecStmt} (ok : body.mapM (p.vecStmt u prof) = .ok stmts)
    (i : Int) (m : Memory K) :
    ∃ m', Loop.runBody? literals p.iterator i body m = some m' ∧
      m'.column i = (gain literals stmts m i).column ∧
      (∀ v, p.reduction = some v → m'.scalars v = m.scalars v + (gain literals stmts m i).sum) ∧
      p.Apart i m m' := by
  have start : p.Holds i ⟨m.column i, 0 + (p.reduction.map m.scalars).getD 0⟩ m :=
    ⟨rfl, fun v isReduction => by simp [isReduction]⟩
  obtain ⟨m', ran, holds, apart⟩ := runBody?_vecBody literals other ok start
  have split := inOrder_sum literals m.scalars stmts ⟨m.column i, 0⟩
    ((p.reduction.map m.scalars).getD 0)
  rw [split] at holds
  refine ⟨m', ran, holds.column, fun v isReduction => ?_, apart⟩
  rw [holds.sum v isReduction, add_comm]
  simp [isReduction, gain]

theorem gain_eq_of_apart (literals : Literals K) {stmts : List VecStmt}
    (free : ∀ t ∈ stmts, ∀ x ∈ t.scalars, p.isReserved x = false) {m m' : Memory K}
    (apart : p.Apart i m m') {j : Int} (away : j ≠ i) :
    gain literals stmts m' j = gain literals stmts m j := by
  have column : m'.column j = m.column j := funext fun a => apart.arrays a j away
  rw [gain, gain, column]
  exact inOrder_congr _ fun t member x read => apart.scalar (free t member x read)

/-- Iterations at different places do not meet. -/
theorem runChunk?_gain (literals : Literals K) (other : p.reduction ≠ some p.iterator)
    {body : List Node} {stmts : List VecStmt} (ok : body.mapM (p.vecStmt u prof) = .ok stmts)
    {places : List Int} (distinct : places.Nodup) (m : Memory K) :
    ∃ m', Loop.runChunk? literals p.iterator body places m = some m' ∧
      (∀ a j, m'.arrays a j =
        if j ∈ places then (gain literals stmts m j).column a else m.arrays a j) ∧
      ∀ v, p.reduction = some v →
        m'.scalars v = m.scalars v + (places.map fun j => (gain literals stmts m j).sum).sum := by
  induction places generalizing m with
  | nil => exact ⟨m, rfl, by simp, by simp⟩
  | cons i places ih =>
      obtain ⟨fresh, distinct⟩ := List.nodup_cons.mp distinct
      obtain ⟨m₁, ran, column, sum, apart⟩ := runBody?_gain literals other ok i m
      obtain ⟨m₂, ranRest, columns, sums⟩ := ih distinct m₁
      have later {j : Int} (member : j ∈ places) :
          gain literals stmts m₁ j = gain literals stmts m j :=
        gain_eq_of_apart literals (vecBody_scalars ok) apart fun same => fresh (same ▸ member)
      refine ⟨m₂, ?_, fun a j => ?_, fun v isReduction => ?_⟩
      · rw [Loop.runChunk?, List.foldlM_cons, ran]
        exact ranRest
      · rw [columns a j]
        by_cases member : j ∈ places
        · rw [if_pos member, if_pos (List.mem_cons_of_mem _ member), later member]
        · rw [if_neg member]
          by_cases here : j = i
          · rw [here, if_pos List.mem_cons_self]
            exact congrFun column a
          · rw [if_neg (by simp [here, member])]
            exact apart.arrays a j here
      · have rest : places.map (fun j => (gain literals stmts m₁ j).sum) =
            places.map fun j => (gain literals stmts m j).sum :=
          List.map_congr_left fun j member => congrArg Lane.sum (later member)
        rw [sums v isReduction, sum v isReduction, rest, List.map_cons, List.sum_cons, add_assoc]

end LoopPattern

/-! ## Vector bodies -/

namespace Chunk

variable {K : Type} [CommRing K] {n : Nat} (ch : Chunk K n)

/-- The iterations of the active lanes, in order. -/
def places : List Int :=
  ((List.finRange n).filter fun k => ch.active k).map fun k => ch.base + (k.val : Int)

theorem places_nodup : ch.places.Nodup := by
  refine List.Nodup.map ?_ ((List.nodup_finRange n).filter _)
  intro k k' same
  simp only at same
  exact Fin.ext (by omega)

theorem mem_places {j : Int} : j ∈ ch.places ↔ ∃ k, ch.lane? j = some k := by
  simp only [places, List.mem_map, List.mem_filter, List.mem_finRange, true_and, lane?_eq_some]
  exact exists_congr fun k => and_congr_right fun _ => eq_comm

theorem sum_places (f : Int → K) : (ch.places.map f).sum =
    ∑ k : Fin n, if ch.active k then f (ch.base + (k.val : Int)) else 0 := by
  have filtered (lanes : List (Fin n)) :
      (((lanes.filter fun k => ch.active k).map fun k => ch.base + (k.val : Int)).map f).sum =
        (lanes.map fun k => if ch.active k then f (ch.base + (k.val : Int)) else 0).sum := by
    induction lanes with
    | nil => rfl
    | cons k lanes ih => by_cases active : ch.active k = true <;> simp [active, ← ih]
  rw [Fin.sum_univ_def]
  exact filtered _

end Chunk

namespace LoopPattern

variable (p : LoopPattern)

/-- The names that the code around a body declares, the iterator apart. -/
def helpers (prof : Profile) : List String :=
  ["vl"] ++ (if prof.isPredicated then ["pg", "pg_tail"] else []) ++
    if p.reduction.isSome then [sumName] else []

/-- The chunk of a loop from `base` on, in the lanes that are active. -/
def chunk {K : Type} [CommRing K] {n : Nat} (prof : Profile) (literals : Literals K)
    (env : String → K) (base : Int) (active : Fin n → Bool) : Chunk K n where
  literals := literals
  env := env
  iterator := p.iterator
  helpers := p.helpers prof
  base := base
  active := active

variable {p} {K : Type} [CommRing K] [Div K] {u : SourceUnit} {prof : Profile}

/-- Undisturbed, a lane does what its iteration does. -/
theorem atOnce_eq_gain {stmts : List VecStmt} (undisturbed : Undisturbed stmts)
    (literals : Literals K) (m : Memory K) (j : Int) (sum : K) :
    atOnce literals m.scalars (m.column j) stmts ⟨m.column j, sum⟩ =
      ⟨(gain literals stmts m j).column, (gain literals stmts m j).sum + sum⟩ := by
  have split := inOrder_sum literals m.scalars stmts ⟨m.column j, 0⟩ sum
  have same : inOrder literals m.scalars stmts ⟨m.column j, sum⟩ =
      atOnce literals m.scalars (m.column j) stmts ⟨m.column j, sum⟩ :=
    inOrder_eq_atOnce undisturbed _ fun _ _ _ _ => rfl
  rw [zero_add] at split
  exact same.symm.trans split

/-- Undisturbed lines leave the arrays and the total of the sums as the iterations do. -/
theorem run_lines_agrees (other : p.reduction ≠ some p.iterator) {stmts : List VecStmt}
    (ok : p.vecBody u prof = .ok stmts) (undisturbed : Undisturbed stmts) {n : Nat} (ch : Chunk K n)
    (uncaptured : Uncaptured ch.iterator ch.helpers stmts) (arrays : String → Int → K)
    (sums : Fin n → K) :
    ∃ st m', runLines ch (linesOf stmts) ⟨arrays, fun _ => none, sums⟩ = some st ∧
      Loop.runChunk? ch.literals p.iterator p.body ch.places ⟨arrays, ch.env⟩ = some m' ∧
      st.arrays = m'.arrays ∧
      ∀ v, p.reduction = some v → ch.env v + ∑ k, st.sums k = m'.scalars v + ∑ k, sums k := by
  obtain ⟨st, ran, tracks⟩ := run_lines uncaptured arrays sums
  obtain ⟨m', ranLoop, columns, total⟩ :=
    runChunk?_gain ch.literals other ok ch.places_nodup ⟨arrays, ch.env⟩
  have lane (k : Fin n) := atOnce_eq_gain undisturbed ch.literals ⟨arrays, ch.env⟩
    (ch.base + (k.val : Int)) (sums k)
  refine ⟨st, m', ran, ranLoop, ?_, fun v isReduction => ?_⟩
  · funext a j
    rw [tracks.arrays a j, columns a j]
    cases found : ch.lane? j with
    | none => rw [if_neg (by simp [ch.mem_places, found])]; rfl
    | some k =>
        rw [if_pos (ch.mem_places.mpr ⟨k, found⟩), (Chunk.lane?_eq_some.mp found).2]
        exact congrFun (congrArg Lane.column (lane k)) a
  · have partials (k : Fin n) : st.sums k = sums k + if ch.active k then
        (gain ch.literals stmts ⟨arrays, ch.env⟩ (ch.base + (k.val : Int))).sum else 0 := by
      rw [tracks.sums k]
      by_cases active : ch.active k = true
      · rw [if_pos active, if_pos active, add_comm]
        exact congrArg Lane.sum (lane k)
      · rw [if_neg active, if_neg active, add_zero]
    rw [total v isReduction, ch.sum_places, Finset.sum_congr rfl fun k _ => partials k,
      Finset.sum_add_distrib, add_comm (∑ k, sums k), add_assoc]

/-! ## Generated loops -/

theorem reduction_ne_iterator {k : KernelFn} {loop : Node} (found : ofLoop? u k loop = some p) :
    p.reduction ≠ some p.iterator := by
  unfold ofLoop? at found
  obtain ⟨⟨h, body⟩, -, same⟩ := Option.bind_eq_some_iff.mp found
  cases same
  intro isIterator
  obtain ⟨n, -, kept⟩ := List.exists_of_findSome?_eq_some isIterator
  split at kept
  · split at kept
    · rename_i differs
      simp [Option.some.inj kept] at differs
    · cases kept
  · cases kept

theorem generate_eq_ok {target text : String} (ok : p.generate u target = .ok text) :
    ∃ prof stmts, Profile.find? target p.elemType = some prof ∧ p.vecBody u prof = .ok stmts ∧
      text = String.join ((p.setupLines prof ++ p.mainLines prof stmts ++ p.tailLines u prof stmts ++
        p.reductionLines prof).map (· ++ "\n")) := by
  unfold generate at ok
  split at ok
  · cases ok
  · split at ok
    · cases ok
    · rename_i prof found
      obtain ⟨stmts, body, made⟩ := ok_of_bind ok
      cases made
      exact ⟨prof, stmts, found, body, rfl⟩

end LoopPattern

/-- The vector body of a generated loop leaves every array and the total of the accumulator as the
statements of the loop do, run for the iterations of its active lanes.  That is, if no statement
loads what an earlier one has stored and the code declares no name of the body. -/
theorem vector_body_agrees {u : SourceUnit} {k : KernelFn} {loop : Node} {p : LoopPattern}
    {target text : String} (found : LoopPattern.ofLoop? u k loop = some p)
    (generated : p.generate u target = .ok text) :
    ∃ prof stmts, Profile.find? target p.elemType = some prof ∧ p.vecBody u prof = .ok stmts ∧
      text = String.join ((p.setupLines prof ++ p.mainLines prof stmts ++ p.tailLines u prof stmts ++
        p.reductionLines prof).map (· ++ "\n")) ∧
      (∀ pred, p.bodyLines prof pred stmts = (linesOf stmts).map (p.lineText prof pred)) ∧
      (Undisturbed stmts → Uncaptured p.iterator (p.helpers prof) stmts →
        ∀ {K : Type} [CommRing K] [Div K] {n : Nat} (literals : Literals K) (m : Memory K) (base : Int)
          (active : Fin n → Bool) (sums : Fin n → K),
          ∃ st m', runLines (p.chunk prof literals m.scalars base active) (linesOf stmts)
              ⟨m.arrays, fun _ => none, sums⟩ = some st ∧
            Loop.runChunk? literals p.iterator p.body
              (p.chunk prof literals m.scalars base active).places m = some m' ∧
            st.arrays = m'.arrays ∧
            ∀ v, p.reduction = some v →
              m.scalars v + ∑ k, st.sums k = m'.scalars v + ∑ k, sums k) := by
  obtain ⟨prof, stmts, profile, body, written⟩ := LoopPattern.generate_eq_ok generated
  refine ⟨prof, stmts, profile, body, written, fun pred => p.bodyLines_eq prof pred stmts, ?_⟩
  intro undisturbed uncaptured K _ _ n literals m base active sums
  exact LoopPattern.run_lines_agrees (LoopPattern.reduction_ne_iterator found) body undisturbed
    (p.chunk prof literals m.scalars base active) uncaptured m.arrays sums

/-! ## Two bodies -/

namespace VectorBody

/-- The loop `for i := 0; i < n; i++` around a body. -/
def counting (body : List Node) : Node :=
  .forStmt ⟨1, 0, 0⟩
    (some (.assign ⟨2, 0, 0⟩ .define [.name ⟨3, 0, 0⟩ "i"] [.literal ⟨4, 0, 0⟩ .int "0"]))
    (some (.binary ⟨5, 0, 0⟩ .lt (.name ⟨6, 0, 0⟩ "i") (.name ⟨7, 0, 0⟩ "n")))
    (some (.step ⟨8, 0, 0⟩ true (.name ⟨9, 0, 0⟩ "i"))) (.block ⟨10, 0, 0⟩ body)

def element (array : String) : Node :=
  .index ⟨11, 0, 0⟩ (.name ⟨12, 0, 0⟩ array) (.name ⟨13, 0, 0⟩ "i")

/-- The body `s += a[i] * b[i]; b[i] = a[i] + 2`. -/
def weighing : List Node :=
  [.assign ⟨14, 0, 0⟩ (.update .add) [.name ⟨15, 0, 0⟩ "s"]
      [.binary ⟨16, 0, 0⟩ .mul (element "a") (element "b")],
    .assign ⟨17, 0, 0⟩ .set [element "b"]
      [.binary ⟨18, 0, 0⟩ .add (element "a") (.literal ⟨19, 0, 0⟩ .int "2")]]

/-- The body `a[i] = 2; b[i] = a[i]`. -/
def passing : List Node :=
  [.assign ⟨14, 0, 0⟩ .set [element "a"] [.literal ⟨15, 0, 0⟩ .int "2"],
    .assign ⟨16, 0, 0⟩ .set [element "b"] [element "a"]]

def pattern (body : List Node) : LoopPattern :=
  (LoopPattern.ofLoop? default default (counting body)).getD default

/-- Integers as they are written. -/
def integers : Literals Int := ⟨fun text => (Text.readLiteral text).clamped, by decide⟩

theorem some_getD {α : Type} [Inhabited α] {x : Option α} (isSome : x.isSome = true) :
    x = some (x.getD default) := by
  obtain ⟨a, rfl⟩ := Option.isSome_iff_exists.mp isSome
  rw [Option.getD_some]

theorem found_of_isSome {body : List Node}
    (isSome : (LoopPattern.ofLoop? default default (counting body)).isSome = true) :
    LoopPattern.ofLoop? default default (counting body) = some (pattern body) :=
  some_getD isSome

theorem ok_of_toOption {ε α : Type} {x : Except ε α} {a : α} (some : x.toOption = .some a) :
    x = .ok a := by
  cases x with
  | error e => cases some
  | ok b => exact congrArg _ (Option.some.inj some)

theorem ok_of_isOk {ε α : Type} {x : Except ε α} (isOk : x.isOk = true) : ∃ a, x = .ok a := by
  cases x with
  | error e => cases isOk
  | ok a => exact ⟨a, rfl⟩

/-- The vector form of `weighing`. -/
def weighed : List VecStmt :=
  [.accumulate (.arith .mul (.load "a") (.load "b")),
    .store "b" (.arith .add (.load "a") (.literal "2"))]

/-- Arrays that count, and a sum that has begun. -/
def counted : Memory Int := ⟨fun _ j => j, fun _ => 100⟩

/-- Three of four lanes. -/
def front : Fin 4 → Bool := fun k => k < 3

def words : Profile := Profile.sve ⟨"int", "s32", "int32", 32⟩

end VectorBody

open VectorBody in
/-- A sum of products and a store, on a target with predicates, in three of four lanes. -/
theorem vector_body_agrees_weighing :
    LoopPattern.ofLoop? default default (counting weighing) = some (pattern weighing) ∧
      ((pattern weighing).generate default "SVE").isOk = true ∧ Undisturbed weighed ∧
      Uncaptured (pattern weighing).iterator ((pattern weighing).helpers words) weighed ∧
      ∃ st m', runLines ((pattern weighing).chunk words integers counted.scalars 0 front)
          (linesOf weighed) ⟨counted.arrays, fun _ => none, fun _ => 7⟩ = some st ∧
        Loop.runChunk? integers "i" weighing [0, 1, 2] counted = some m' ∧
        st.arrays = m'.arrays ∧ 100 + ∑ k, st.sums k = m'.scalars "s" + 28 := by
  have found : LoopPattern.ofLoop? default default (counting weighing) = some (pattern weighing) :=
    found_of_isSome (by decide)
  have isOk : ((pattern weighing).generate default "SVE").isOk = true := by decide
  obtain ⟨text, generated⟩ : ∃ text, (pattern weighing).generate default "SVE" = .ok text := by
    cases outcome : (pattern weighing).generate default "SVE" with
    | ok text => exact ⟨text, rfl⟩
    | error err => simp [outcome, Except.isOk, Except.toBool] at isOk
  have undisturbed : Undisturbed weighed := by decide
  have uncaptured :
      Uncaptured (pattern weighing).iterator ((pattern weighing).helpers words) weighed :=
    ⟨by decide, by decide, by decide⟩
  obtain ⟨prof, stmts, profile, body, -, -, agrees⟩ := vector_body_agrees found generated
  obtain rfl : words = prof := Option.some.inj (Eq.trans (by decide) profile)
  obtain rfl : weighed = stmts :=
    Except.ok.inj ((ok_of_toOption (by decide)).symm.trans body)
  obtain ⟨st, m', ran, ranLoop, arrays, total⟩ :=
    agrees undisturbed uncaptured integers counted 0 front fun _ => 7
  refine ⟨found, isOk, undisturbed, uncaptured, st, m', ran, ?_, arrays, ?_⟩
  · exact ranLoop
  · exact total "s" (by decide)

open VectorBody in
/-- A statement that reads what the one before it has stored gets the old element. -/
theorem vector_body_stale :
    LoopPattern.ofLoop? default default (counting passing) = some (pattern passing) ∧
      ((pattern passing).generate default "NEON").isOk = true ∧
      ((pattern passing).vecBody default (Profile.neon ⟨"int", "s32", "int32", 32⟩)).toOption =
        some [.store "a" (.literal "2"), .store "b" (.load "a")] ∧
      (runLines ((pattern passing).chunk (Profile.neon ⟨"int", "s32", "int32", 32⟩) integers
          (fun _ => 0) 0 fun _ : Fin 4 => true)
        (linesOf [.store "a" (.literal "2"), .store "b" (.load "a")])
        ⟨fun _ _ => 0, fun _ => none, fun _ => 0⟩).map (fun st => st.arrays "b" 0) = some 0 ∧
      (Loop.runChunk? integers "i" passing [0, 1, 2, 3] ⟨fun _ _ => 0, fun _ => 0⟩).map
        (fun m => m.arrays "b" 0) = some 2 :=
  ⟨found_of_isSome (by decide), by decide, by decide, by decide,
    by decide⟩

end Retarget
