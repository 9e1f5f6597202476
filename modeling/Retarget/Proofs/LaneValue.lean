/-
# Proofs.LaneValue -- the lanes of a vector term and the values of its expression

An expression of the source has values of several types on its way: an index is an integer, a scalar
may be one, and what two integers give is an integer again (`SourceNumbers`).  Its vector term knows
one type only.  Every scalar and every literal is converted to the type of the elements when it is
broadcast, and all arithmetic comes after that.

So the two agree exactly where conversion commutes with every operation on the way
(`lanesAgree_iff_commutes`).  Sums, differences and products of integers always do; a quotient of
integers does only if it comes out the same among the elements (`Number.commutes_iff`).  The text of
a term says nothing else: it is read back as the term, and the term runs as it is read unless the
code around it declares one of its scalars (`vector_lanes_agree`).

Hence `b[i] * (1 / 2)` is half of `b[i]` in the lanes, but zero in the source
(`vector_lanes_halved`).
-/
import Mathlib.Algebra.Field.Rat
import Mathlib.Data.Int.Cast.Basic
import Retarget.Proofs.TermText

namespace Retarget

open Retarget.Source (Node Mark BinaryOp)

set_option autoImplicit false
set_option linter.dupNamespace false

/-! ## The values of the source -/

/-- How the source computes.  Its values may be of several types; the elements of arrays are of one,
and `lane` converts to it. -/
structure SourceNumbers (V K : Type) [Zero K] where
  /-- Nothing where an operation is not defined. -/
  op? : VecOp → V → V → Option V
  neg : V → V
  integer : Int → V
  index? : V → Option Int
  literal : String → V
  element : K → V
  lane : V → K
  index_integer : ∀ i, index? (integer i) = some i
  lane_element : ∀ x, lane (element x) = x
  lane_zero : lane (literal "0") = 0

/-- Arrays of elements, and scalars of any type. -/
structure TypedMemory (V K : Type) where
  arrays : String → Int → K
  scalars : String → V

namespace SourceNumbers

section Value

variable {V K : Type} [Zero K] (numbers : SourceNumbers V K) (iterator : String) (i : Int)
  (m : TypedMemory V K)

/-- The value of an expression in the iteration at `i`. -/
def value? : Node → Option V
  | .paren _ x => value? x
  | .name _ x => some (if x = iterator then numbers.integer i else m.scalars x)
  | .literal _ _ text => some (numbers.literal text)
  | .index _ (.name _ a) j =>
    ((value? j).bind numbers.index?).map fun j => numbers.element (m.arrays a j)
  | .unary _ .minus x => (value? x).map numbers.neg
  | .binary _ op x y => do
    let o ← LoopPattern.vecOp? op
    let v ← value? x
    let w ← value? y
    numbers.op? o v w
  | _ => none

/-- What holds of the operands wherever an expression computes. -/
def OnOperands (minus : V → Prop) (binary : VecOp → V → V → Prop) (n : Node) : Prop :=
  ∀ part ∈ n.arithmeticParts, match part with
    | .unary _ .minus x => ∀ v ∈ numbers.value? iterator i m x, minus v
    | .binary _ op x y => ∀ o ∈ LoopPattern.vecOp? op, ∀ v ∈ numbers.value? iterator i m x,
        ∀ w ∈ numbers.value? iterator i m y, binary o v w
    | _ => True

/-- Every operation on the way is defined. -/
def Defined (n : Node) : Prop :=
  numbers.OnOperands iterator i m (fun _ => True) (fun o v w => (numbers.op? o v w).isSome = true) n

variable {numbers iterator i m} {minus : V → Prop} {binary : VecOp → V → V → Prop}

theorem OnOperands.part {n x : Node} (all : numbers.OnOperands iterator i m minus binary n)
    (part : x ∈ n.arithmeticParts) : numbers.OnOperands iterator i m minus binary x :=
  fun y below => all y (Node.arithmeticParts_subset part below)

theorem onOperands_congr {minus' : V → Prop} {binary' : VecOp → V → V → Prop}
    (same : ∀ v, minus v ↔ minus' v) (sameBinary : ∀ o v w, binary o v w ↔ binary' o v w)
    (n : Node) : numbers.OnOperands iterator i m minus binary n ↔
      numbers.OnOperands iterator i m minus' binary' n := by
  simp only [OnOperands, same, sameBinary]

theorem onOperands_paren (mark : Mark) (x : Node) :
    numbers.OnOperands iterator i m minus binary (.paren mark x) ↔
      numbers.OnOperands iterator i m minus binary x :=
  List.forall_mem_cons.trans (and_iff_right trivial)

theorem onOperands_minus (mark : Mark) (x : Node) :
    numbers.OnOperands iterator i m minus binary (.unary mark .minus x) ↔
      (∀ v ∈ numbers.value? iterator i m x, minus v) ∧
        numbers.OnOperands iterator i m minus binary x :=
  List.forall_mem_cons

theorem onOperands_binary (mark : Mark) (op : BinaryOp) (x y : Node) :
    numbers.OnOperands iterator i m minus binary (.binary mark op x y) ↔
      (∀ o ∈ LoopPattern.vecOp? op, ∀ v ∈ numbers.value? iterator i m x,
        ∀ w ∈ numbers.value? iterator i m y, binary o v w) ∧
        numbers.OnOperands iterator i m minus binary x ∧
        numbers.OnOperands iterator i m minus binary y :=
  List.forall_mem_cons.trans (and_congr_right fun _ => List.forall_mem_append)

variable {p : LoopPattern} {u : SourceUnit} {prof : Profile}

theorem value?_load {x y : Node} {mark : Mark} {array : String}
    (found : p.sequential? (.index mark x y) = some array) :
    numbers.value? p.iterator i m (.index mark x y) =
      some (numbers.element (m.arrays array i)) := by
  obtain ⟨_, _, _, shape⟩ := LoopPattern.sequential?_eq_some found
  cases shape
  dsimp only [value?]
  rw [if_pos rfl, Option.bind_some, numbers.index_integer, Option.map_some]

theorem value?_scalar {mark : Mark} {x : String} (free : ¬ p.isReserved x = true) :
    numbers.value? p.iterator i m (.name mark x) = some (m.scalars x) := by
  have other : x ≠ p.iterator := by
    rintro rfl
    simp [LoopPattern.isReserved] at free
  exact congrArg some (if_neg other)

theorem value?_binary {mark : Mark} {op : BinaryOp} {o : VecOp} {x y : Node} {v : V}
    (operator : LoopPattern.vecOp? op = some o)
    (value : numbers.value? iterator i m (.binary mark op x y) = some v) :
    ∃ a b, numbers.value? iterator i m x = some a ∧ numbers.value? iterator i m y = some b ∧
      numbers.op? o a b = some v := by
  obtain ⟨o', same, value⟩ := Option.bind_eq_some_iff.mp value
  obtain ⟨a, valueX, value⟩ := Option.bind_eq_some_iff.mp value
  obtain ⟨b, valueY, result⟩ := Option.bind_eq_some_iff.mp value
  obtain rfl := Option.some.inj (operator.symm.trans same)
  exact ⟨a, b, valueX, valueY, result⟩

/-- An expression with a term has a value exactly if every operation on the way is defined. -/
theorem isSome_value?_iff {n : Node} {t : VecTerm} (ok : p.term u prof n = .ok t) :
    (numbers.value? p.iterator i m n).isSome = true ↔ numbers.Defined p.iterator i m n := by
  fun_induction LoopPattern.term p u prof n generalizing t with
  | case1 mark x ih => exact (ih ok).trans (onOperands_paren mark x).symm
  | case2 mark x j array found =>
      rw [value?_load found]
      exact iff_of_true rfl (List.forall_mem_singleton.mpr trivial)
  | case3 => cases ok
  | case4 => cases ok
  | case5 mark x free =>
      rw [value?_scalar free]
      exact iff_of_true rfl (List.forall_mem_singleton.mpr trivial)
  | case6 mark kind text => exact iff_of_true rfl (List.forall_mem_singleton.mpr trivial)
  | case7 mark x ih =>
      obtain ⟨s, inner, -⟩ := LoopPattern.term_minus mark ok
      dsimp only [value?]
      rw [Option.isSome_map, ih inner]
      refine Iff.trans ?_ (onOperands_minus mark x).symm
      exact (and_iff_right fun _ _ => trivial).symm
  | case8 mark op x y ihx ihy =>
      obtain ⟨o, s, t, operator, -, left, right, -⟩ := LoopPattern.term_binary mark ok
      refine Iff.trans ?_ (onOperands_binary mark op x y).symm
      dsimp only [value?]
      rw [← Defined, ← Defined, ← ihx left, ← ihy right, operator]
      cases numbers.value? p.iterator i m x <;> cases numbers.value? p.iterator i m y <;> simp
  | case9 => cases ok

end Value

section Lanes

variable {V K : Type} [CommRing K] [Div K] (numbers : SourceNumbers V K)

/-- Every operation on the way does the same before and after conversion. -/
def Commutes (iterator : String) (i : Int) (m : TypedMemory V K) (n : Node) : Prop :=
  numbers.OnOperands iterator i m (fun v => numbers.lane (numbers.neg v) = -numbers.lane v)
    (fun o v w => ∀ r ∈ numbers.op? o v w, numbers.lane r = o.act (numbers.lane v) (numbers.lane w))
    n

/-- Literals are converted when they are broadcast. -/
def literals : Literals K := ⟨fun text => numbers.lane (numbers.literal text), numbers.lane_zero⟩

/-- Scalars are converted when they are broadcast. -/
def env (m : TypedMemory V K) : String → K := fun x => numbers.lane (m.scalars x)

/-- The value of a term in the lane at place `i`. -/
def laneValue (i : Int) (m : TypedMemory V K) (t : VecTerm) : K :=
  t.value numbers.literals (numbers.env m) fun a => m.arrays a i

/-- An expression and all that it is computed from have in their lane the value they have in the
source. -/
def LanesAgree (p : LoopPattern) (u : SourceUnit) (prof : Profile) (i : Int) (m : TypedMemory V K)
    (n : Node) : Prop :=
  ∀ part ∈ n.arithmeticParts, ∀ t, p.term u prof part = .ok t →
    ∀ v ∈ numbers.value? p.iterator i m part, numbers.laneValue i m t = numbers.lane v

variable {numbers} {p : LoopPattern} {u : SourceUnit} {prof : Profile} {i : Int}
  {m : TypedMemory V K}

/-- A minus is written as a difference from zero. -/
theorem laneValue_minus (t : VecTerm) :
    numbers.laneValue i m (.arith .sub (.literal "0") t) = -numbers.laneValue i m t := by
  have zero : numbers.laneValue i m (.literal "0") = 0 := numbers.lane_zero
  show numbers.laneValue i m (.literal "0") - numbers.laneValue i m t = _
  rw [zero, zero_sub]

theorem laneValue_arith (o : VecOp) (s t : VecTerm) : numbers.laneValue i m (.arith o s t) =
    o.act (numbers.laneValue i m s) (numbers.laneValue i m t) := rfl

/-- Where every operation commutes with conversion, a lane has the value of the source. -/
theorem laneValue_eq {n : Node} {t : VecTerm} (ok : p.term u prof n = .ok t)
    (commutes : numbers.Commutes p.iterator i m n) {v : V}
    (value : numbers.value? p.iterator i m n = some v) :
    numbers.laneValue i m t = numbers.lane v := by
  fun_induction LoopPattern.term p u prof n generalizing t v with
  | case1 mark x ih => exact ih ok ((onOperands_paren mark x).mp commutes) value
  | case2 mark x j array found =>
      cases ok
      rw [value?_load found, Option.some.injEq] at value
      rw [← value, numbers.lane_element]
      rfl
  | case3 => cases ok
  | case4 => cases ok
  | case5 mark x free =>
      cases ok
      rw [value?_scalar free, Option.some.injEq] at value
      rw [← value]
      rfl
  | case6 mark kind text =>
      cases ok
      rw [← Option.some.inj value]
      rfl
  | case7 mark x ih =>
      obtain ⟨s, inner, rfl⟩ := LoopPattern.term_minus mark ok
      obtain ⟨w, operand, rfl⟩ := Option.map_eq_some_iff.mp value
      obtain ⟨here, operands⟩ := (onOperands_minus mark x).mp commutes
      rw [laneValue_minus, ih inner operands operand, here w operand]
  | case8 mark op x y ihx ihy =>
      obtain ⟨o, s, t, operator, -, left, right, rfl⟩ := LoopPattern.term_binary mark ok
      obtain ⟨a, b, valueX, valueY, result⟩ := value?_binary operator value
      obtain ⟨here, operandsX, operandsY⟩ := (onOperands_binary mark op x y).mp commutes
      rw [laneValue_arith, ihx left operandsX valueX, ihy right operandsY valueY,
        here o operator a valueX b valueY v result]
  | case9 => cases ok

/-- The lanes agree with the source exactly where every operation commutes with conversion. -/
theorem lanesAgree_iff_commutes {n : Node} {t : VecTerm} (ok : p.term u prof n = .ok t) :
    numbers.LanesAgree p u prof i m n ↔ numbers.Commutes p.iterator i m n := by
  constructor
  · intro agree part member
    have below {x : Node} (inside : x ∈ part.arithmeticParts) {s : VecTerm}
        (here : p.term u prof x = .ok s) {v : V}
        (value : numbers.value? p.iterator i m x = some v) :
        numbers.laneValue i m s = numbers.lane v :=
      agree x (Node.arithmeticParts_subset member inside) s here v value
    obtain ⟨s, here⟩ := LoopPattern.term_part ok member
    cases part with
    | unary mark op x =>
        cases op with
        | minus =>
            intro v value
            obtain ⟨t, inner, rfl⟩ := LoopPattern.term_minus mark here
            have outer := below (Node.self_mem_arithmeticParts _) here
              (congrArg (Option.map numbers.neg) value)
            have operand := below (List.mem_cons_of_mem _ (Node.self_mem_arithmeticParts x)) inner
              value
            rw [← outer, laneValue_minus, operand]
        | _ => trivial
    | binary mark op x y =>
        intro o operator v valueX w valueY r result
        obtain ⟨o', s, t, known, -, left, right, rfl⟩ := LoopPattern.term_binary mark here
        obtain rfl := Option.some.inj (operator.symm.trans known)
        have value : numbers.value? p.iterator i m (.binary mark op x y) = some r := by
          dsimp only [value?]
          rw [operator, valueX, valueY]
          exact result
        rw [← below (Node.self_mem_arithmeticParts _) here value, laneValue_arith,
          below (List.mem_cons_of_mem _ (List.mem_append_left _ (Node.self_mem_arithmeticParts x)))
            left valueX,
          below (List.mem_cons_of_mem _ (List.mem_append_right _ (Node.self_mem_arithmeticParts y)))
            right valueY]
    | _ => trivial
  · intro commutes part member s here v value
    exact laneValue_eq here (commutes.part member) value

end Lanes

end SourceNumbers

/-! ## Integers next to elements -/

/-- A value of a loop: an integer, or of the type of the elements. -/
inductive Number (K : Type) where
  | int (z : Int)
  | element (x : K)
deriving DecidableEq

namespace Number

section Mixed

variable {K : Type} [CommRing K] [Div K]

def lane : Number K → K
  | int z => z
  | element x => x

/-- Integers are divided towards zero; next to an element an integer is converted first. -/
def op? (o : VecOp) : Number K → Number K → Option (Number K)
  | int z, int d =>
    if o = .div then if d = 0 then none else some (int (z.tdiv d)) else some (int (o.act z d))
  | v, w => some (element (o.act v.lane w.lane))

/-- How a loop over elements of `K` computes. -/
def mixed (literal : String → Number K) (zero : (literal "0").lane = 0) :
    SourceNumbers (Number K) K where
  op? := op?
  neg
    | int z => int (-z)
    | element x => element (-x)
  integer := int
  index?
    | int z => some z
    | element _ => none
  literal := literal
  element := element
  lane := lane
  index_integer _ := rfl
  lane_element _ := rfl
  lane_zero := zero

variable {literal : String → Number K} {zero : (literal "0").lane = 0} {iterator : String} {i : Int}
  {m : TypedMemory (Number K) K}

variable (literal zero iterator i m) in
/-- No integer is divided by the integer zero. -/
def NoZeroDivisor (n : Node) : Prop :=
  (mixed literal zero).OnOperands iterator i m (fun _ => True)
    (fun o v w => ∀ z, o = .div → v = .int z → w ≠ .int 0) n

variable (literal zero iterator i m) in
/-- Every division of two integers comes out the same among the elements. -/
def ExactDivisions (n : Node) : Prop :=
  (mixed literal zero).OnOperands iterator i m (fun _ => True)
    (fun o v w => ∀ z d, o = .div → v = .int z → w = .int d → d ≠ 0 →
      ((z.tdiv d : Int) : K) = (z : K) / (d : K)) n

theorem op?_div (z d : Int) : op? .div (int z : Number K) (int d) =
    if d = 0 then none else some (int (z.tdiv d)) := rfl

theorem op?_int {o : VecOp} (other : o ≠ .div) (z d : Int) :
    op? o (int z : Number K) (int d) = some (int (o.act z d)) := if_neg other

theorem isSome_op?_iff (o : VecOp) (v w : Number K) :
    (op? o v w).isSome = true ↔ ∀ z, o = .div → v = .int z → w ≠ .int 0 := by
  cases v with
  | element x => cases w <;> simp [op?]
  | int z =>
      cases w with
      | element y => simp [op?]
      | int d =>
          by_cases divides : o = .div
          · by_cases zero : d = 0 <;> simp [divides, op?_div, zero]
          · simp [divides, op?_int divides]

theorem cast_act {o : VecOp} (other : o ≠ .div) (z d : Int) :
    ((o.act z d : Int) : K) = o.act (z : K) (d : K) := by
  cases o with
  | add => exact Int.cast_add z d
  | sub => exact Int.cast_sub z d
  | mul => exact Int.cast_mul z d
  | div => exact absurd rfl other

theorem lane_op?_iff (o : VecOp) (v w : Number K) :
    (∀ r ∈ op? o v w, r.lane = o.act v.lane w.lane) ↔
      ∀ z d, o = .div → v = .int z → w = .int d → d ≠ 0 →
        ((z.tdiv d : Int) : K) = (z : K) / (d : K) := by
  cases v with
  | element x => cases w <;> simp [op?, lane]
  | int z =>
      cases w with
      | element y => simp [op?, lane]
      | int d =>
          by_cases divides : o = .div
          · by_cases zero : d = 0 <;> simp [divides, op?_div, zero, lane, VecOp.act]
          · simp [divides, op?_int divides, lane, cast_act divides]

theorem defined_iff (n : Node) : (mixed literal zero).Defined iterator i m n ↔
    NoZeroDivisor literal zero iterator i m n :=
  SourceNumbers.onOperands_congr (fun _ => Iff.rfl) isSome_op?_iff n

theorem commutes_iff (n : Node) : (mixed literal zero).Commutes iterator i m n ↔
    ExactDivisions literal zero iterator i m n := by
  refine SourceNumbers.onOperands_congr (fun v => iff_true_intro ?_) lane_op?_iff n
  cases v with
  | int z => exact Int.cast_neg z
  | element x => rfl

end Mixed

end Number

/-! ## Runs -/

section Run

variable {K : Type} [CommRing K] [Div K] {width : Nat} {ch : Chunk K width} {st : VecState K width}
  {arrays : String → Int → K} {names : List String}

omit [Div K] in
theorem Filled.sees_iff (filled : Filled ch arrays names st.locals) {x : String} :
    ch.sees st x = true ↔ Plain ch.helpers names x := by
  constructor
  · intro seen
    simp only [Chunk.sees, Bool.and_eq_true, Bool.not_eq_true', List.contains_eq_mem,
      decide_eq_false_iff_not, Option.isNone_iff_eq_none] at seen
    refine ⟨seen.1, fun a loaded => ?_⟩
    rintro rfl
    rw [filled.filled a loaded] at seen
    cases seen.2
  · exact filled.sees

/-- A term runs exactly if the code around it declares none of its scalars. -/
theorem isSome_run_iff (filled : Filled ch arrays names st.locals) {t : VecTerm}
    (loads : ∀ a ∈ t.loads, a ∈ names) (apart : ∀ x ∈ t.scalars, x ≠ ch.iterator) :
    (t.run ch st).isSome = true ↔ ∀ x ∈ t.scalars, Plain ch.helpers names x := by
  induction t with
  | load a =>
      rw [VecTerm.run, filled.filled a (loads a (by simp [VecTerm.loads]))]
      simp [VecTerm.scalars]
  | scalar x =>
      have other := apart x (by simp [VecTerm.scalars])
      simp [VecTerm.run, VecTerm.scalars, other, filled.sees_iff]
  | literal text => simp [VecTerm.run, VecTerm.scalars]
  | arith op x y ihx ihy =>
      simp only [VecTerm.loads, VecTerm.scalars, List.mem_append, or_imp, forall_and]
        at loads apart ⊢
      rw [← ihx loads.1 apart.1, ← ihy loads.2 apart.2, VecTerm.run]
      cases x.run ch st <;> cases y.run ch st <;> simp

end Run

namespace SourceNumbers

variable {V K : Type} [CommRing K] [Div K] {numbers : SourceNumbers V K} {p : LoopPattern}
  {u : SourceUnit} {prof : Profile} {m : TypedMemory V K}

/-- The chunk of a loop whose scalars and literals are converted. -/
def chunk (numbers : SourceNumbers V K) (p : LoopPattern) (prof : Profile) (m : TypedMemory V K)
    {width : Nat} (base : Int) (active : Fin width → Bool) : Chunk K width :=
  p.chunk prof numbers.literals (numbers.env m) base active

theorem run_eq_laneValue {n : Node} {t : VecTerm} (ok : p.term u prof n = .ok t) {width : Nat}
    {base : Int} {active : Fin width → Bool} {names : List String} {st : VecState K width}
    (filled : Filled (numbers.chunk p prof m base active) m.arrays names st.locals)
    (loads : ∀ a ∈ t.loads, a ∈ names) :
    ((t.run (numbers.chunk p prof m base active) st).isSome = true ↔
      ∀ x ∈ t.scalars, Plain (p.helpers prof) names x) ∧
    ∀ w ∈ t.run (numbers.chunk p prof m base active) st, ∀ k, active k = true →
      w k = numbers.laneValue (base + (k.val : Int)) m t := by
  have apart : ∀ x ∈ t.scalars, x ≠ p.iterator := by
    rintro x read rfl
    have free := LoopPattern.term_scalars ok _ read
    simp [LoopPattern.isReserved] at free
  have runs := isSome_run_iff filled loads apart
  refine ⟨runs, fun w ran k isActive => ?_⟩
  have plain := runs.mp (by rw [ran]; rfl)
  obtain ⟨w', ran', lanes⟩ := run_term filled t loads fun x read => ⟨apart x read, plain x read⟩
  obtain rfl := Option.some.inj (Eq.trans (Eq.symm ran) ran')
  exact lanes k isActive

end SourceNumbers

/-! ## Expressions in vectors -/

/-- An expression has a vector term unless something speaks against one of its parts, and the first
such part is told.  The term has the shape of the expression and loads what the expression reads.
Its text is read back as the term exactly if it is readable.  It runs exactly if the code around it
declares none of its scalars, and every active lane gets the value of the term at its own place.
That is the value of the expression there, and the same for all that it is computed from, exactly if
every operation of the source commutes with conversion: next to elements, if every quotient of
integers is exact. -/
theorem vector_lanes_agree {target elem : String} {prof : Profile}
    (found : Profile.find? target elem = some prof) (p : LoopPattern) (u : SourceUnit) (n : Node) :
    (∀ e, p.term u prof n = .error e ↔ n.arithmeticParts.findSome? (p.refusal? u prof) = some e) ∧
    ∀ t, p.term u prof n = .ok t → LaneForm p.iterator n t ∧ t.loads = n.arraysRead ∧
      (n.Written → ∀ pred, isIdentifier pred = true →
        (prof.readTerm? pred (LoopPattern.termText prof pred t) = some t ↔ t.isReadable = true)) ∧
      (∀ {V K : Type} [CommRing K] [Div K] (numbers : SourceNumbers V K) (m : TypedMemory V K),
        (∀ {width : Nat} (base : Int) (active : Fin width → Bool) (names : List String)
          (st : VecState K width),
          Filled (numbers.chunk p prof m base active) m.arrays names st.locals →
          (∀ a ∈ t.loads, a ∈ names) →
          ((t.run (numbers.chunk p prof m base active) st).isSome = true ↔
            ∀ x ∈ t.scalars, Plain (p.helpers prof) names x) ∧
          ∀ w ∈ t.run (numbers.chunk p prof m base active) st, ∀ k, active k = true →
            w k = numbers.laneValue (base + (k.val : Int)) m t) ∧
        ∀ i, ((numbers.value? p.iterator i m n).isSome = true ↔ numbers.Defined p.iterator i m n) ∧
          (numbers.LanesAgree p u prof i m n ↔ numbers.Commutes p.iterator i m n)) ∧
      ∀ {K : Type} [CommRing K] [Div K] (literal : String → Number K)
        (zero : (literal "0").lane = 0) (m : TypedMemory (Number K) K) (i : Int),
        (((Number.mixed literal zero).value? p.iterator i m n).isSome = true ↔
          Number.NoZeroDivisor literal zero p.iterator i m n) ∧
        ((Number.mixed literal zero).LanesAgree p u prof i m n ↔
          Number.ExactDivisions literal zero p.iterator i m n) := by
  constructor
  · intro e
    have outcome := LoopPattern.term_eq_findSome? p u prof n
    split at outcome
    · rename_i e' first
      rw [outcome, first]
      simp
    · rename_i none
      obtain ⟨t, ok⟩ := outcome
      rw [ok, none]
      simp
  · intro t ok
    refine ⟨LoopPattern.laneForm_term ok, LoopPattern.loads_term ok, ?_, ?_, ?_⟩
    · intro written pred ident
      exact LoopPattern.readTerm?_term (Profile.readable_of_find? found) ident ok written
    · intro V K _ _ numbers m
      exact ⟨fun base active names st filled loads =>
        SourceNumbers.run_eq_laneValue ok filled loads, fun i =>
        ⟨SourceNumbers.isSome_value?_iff ok, SourceNumbers.lanesAgree_iff_commutes ok⟩⟩
    · intro K _ _ literal zero m i
      exact ⟨(SourceNumbers.isSome_value?_iff ok).trans (Number.defined_iff n),
        (SourceNumbers.lanesAgree_iff_commutes ok).trans (Number.commutes_iff n)⟩

/-! ## Two expressions -/

namespace VectorBody

/-- The value `b[i] * (z / d)`. -/
def scaled (z d : String) : Node :=
  .binary ⟨20, 0, 0⟩ .mul (.index ⟨21, 0, 0⟩ (.name ⟨22, 0, 0⟩ "b") (.name ⟨23, 0, 0⟩ "i"))
    (.paren ⟨24, 0, 0⟩
      (.binary ⟨25, 0, 0⟩ .div (.literal ⟨26, 0, 0⟩ .int z) (.literal ⟨27, 0, 0⟩ .int d)))

/-- What the loop around `a[i] = b[i] * (z / d)` over floats is read as. -/
def scaling (z d : String) : LoopPattern :=
  (LoopPattern.ofLoop? default (declaring "float *" "float *")
    (counting [.assign ⟨28, 0, 0⟩ .set [element "a"] [scaled z d]])).getD default

def scaledTerm (z d : String) : VecTerm :=
  .arith .mul (.load "b") (.arith .div (.literal z) (.literal d))

/-- Integers as they are written, next to rational elements. -/
def rationals : SourceNumbers (Number ℚ) ℚ :=
  Number.mixed (fun text => .int (Text.readLiteral text).clamped) (by decide)

/-- Arrays of fours. -/
def fours : TypedMemory (Number ℚ) ℚ := ⟨fun _ _ => 4, fun _ => .int 0⟩

end VectorBody

open VectorBody in
/-- Six thirds are an integer: every lane has the value of the source. -/
theorem vector_lanes_agree_doubling :
    Profile.find? "NEON" "float" = some floats ∧
      (scaling "6" "3").term default floats (scaled "6" "3") = .ok (scaledTerm "6" "3") ∧
      floats.readTerm? "pg" (LoopPattern.termText floats "pg" (scaledTerm "6" "3")) =
        some (scaledTerm "6" "3") ∧
      rationals.LanesAgree (scaling "6" "3") default floats 0 fours (scaled "6" "3") := by
  have found : Profile.find? "NEON" "float" = some floats := by decide +kernel
  have ok : (scaling "6" "3").term default floats (scaled "6" "3") = .ok (scaledTerm "6" "3") :=
    ok_of_toOption (by decide +kernel)
  obtain ⟨-, told⟩ := vector_lanes_agree found (scaling "6" "3") default (scaled "6" "3")
  obtain ⟨-, -, reads, -, exact⟩ := told _ ok
  have written : (scaled "6" "3").Written := by
    have six : IsLiteral "6" := ⟨'6', [], .int, ['6'], [], by decide +kernel⟩
    have three : IsLiteral "3" := ⟨'3', [], .int, ['3'], [], by decide +kernel⟩
    have names : isIdentifier "b" = true ∧ isIdentifier "i" = true := by decide +kernel
    simp [Source.Node.Written, scaled, Node.preorder_eq, Node.children, six, three, names]
  refine ⟨found, ok, (reads written "pg" (by decide +kernel)).mpr (by decide +kernel), ?_⟩
  refine (exact _ (by decide +kernel) fours 0).2.mpr ?_
  have six : (Text.readLiteral "6").clamped = 6 := by decide +kernel
  have three : (Text.readLiteral "3").clamped = 3 := by decide +kernel
  have divides : (2 : ℚ) = 6 / 3 := by decide +kernel
  refine (SourceNumbers.onOperands_binary _ _ _ _).mpr
    ⟨?_, List.forall_mem_singleton.mpr trivial, (SourceNumbers.onOperands_paren _ _).mpr
      ((SourceNumbers.onOperands_binary _ _ _ _).mpr ⟨?_, List.forall_mem_singleton.mpr trivial,
        List.forall_mem_singleton.mpr trivial⟩)⟩
  · rintro _ ⟨⟩ v - w - z d ⟨⟩
  · rintro _ ⟨⟩ _ ⟨⟩ _ ⟨⟩ z d - numerator denominator -
    rw [← Number.int.inj numerator, ← Number.int.inj denominator, six, three]
    exact divides

open VectorBody in
/-- One half of integers is zero, but one half in the lanes. -/
theorem vector_lanes_halved :
    LoopPattern.ofLoop? default (declaring "float *" "float *")
        (counting [.assign ⟨28, 0, 0⟩ .set [element "a"] [scaled "1" "2"]]) =
        some (scaling "1" "2") ∧
      ((scaling "1" "2").generate default "NEON").isOk = true ∧
      Profile.find? "NEON" (scaling "1" "2").elemType = some floats ∧
      ((scaling "1" "2").vecBody default floats).toOption = some [.store "a" (scaledTerm "1" "2")] ∧
      (scaling "1" "2").bodyLines floats "pg" [.store "a" (scaledTerm "1" "2")] =
        ["float32x4_t b_vec = vld1q_f32(b + i);",
          "vst1q_f32(a + i, vmulq_f32(b_vec, vdivq_f32(vdupq_n_f32(1), vdupq_n_f32(2))));"] ∧
      floats.readTerm? "pg" "vmulq_f32(b_vec, vdivq_f32(vdupq_n_f32(1), vdupq_n_f32(2)))" =
        some (scaledTerm "1" "2") ∧
      rationals.value? "i" 0 fours (scaled "1" "2") = some (.element 0) ∧
      ((runLines (rationals.chunk (scaling "1" "2") floats fours 0 fun _ : Fin 4 => true)
          [.load "b"] ⟨fours.arrays, fun _ => none, fun _ => 0⟩).bind fun st =>
        ((scaledTerm "1" "2").run
          (rationals.chunk (scaling "1" "2") floats fours 0 fun _ : Fin 4 => true) st).map
            fun w => w 0) = some 2 :=
  ⟨some_getD (by decide +kernel), by decide +kernel, by decide +kernel, by decide +kernel,
    by decide +kernel, by decide +kernel, by decide +kernel, by decide +kernel⟩

end Retarget
