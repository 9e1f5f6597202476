/-
# Proofs.VectorCount -- the iterations that a generated loop runs

The lines that a generated loop puts around its bodies are read as C reads them: the iterator is a
word, the bound is converted to one, sums wrap around and comparisons are unsigned
(`WordExpr.value`, `WordTest.holds`).  A part of the loop repeats its body in all lanes, runs it
once in the lanes that are left, or repeats a single iteration (`LoopPart.Runs`); its text is that
of the generated lines (`flatMap_partLines`).

The parts run the iterations from the start up to the bound, each once and in order, exactly if no
comparison on the way is misled by the width of a word (`runs_iff_unmisled`): what a wrong answer
adds or drops, no later line makes good.  From a start that is not negative, and with no more lanes
than half the words, that is the case exactly if the bound is not negative either
(`vector_loop_counts`).  Below zero a bound is converted to a large word, and the loop runs where
the loop of the source stops at once (`vector_loop_counts_negative`).
-/
import Retarget.Proofs.LoopHeader
import Retarget.Proofs.VectorBody

namespace Retarget

set_option autoImplicit false
set_option linter.dupNamespace false

/-! ## Words -/

/-- An integer modulo `2 ^ 64`. -/
abbrev Word := BitVec 64

/-- An integer converted to a word. -/
def word (n : Int) : Word := BitVec.ofInt 64 n

theorem word_toNat (n : Int) : (word n).toNat = (n % 18446744073709551616).toNat :=
  BitVec.toNat_ofInt n

theorem word_add (n : Int) (k : Nat) : word (n + k) = word n + BitVec.ofNat 64 k := by
  rw [word, BitVec.ofInt_add, BitVec.ofInt_natCast]
  rfl

/-- What is added up in a control line. -/
inductive WordExpr where
  /-- A variable or a literal. -/
  | atom (text : String)
  | sum (x y : WordExpr)
deriving Repr, DecidableEq

inductive WordTest where
  | atMost (x y : WordExpr)
  | below (x y : WordExpr)
deriving Repr, DecidableEq

namespace WordExpr

def text : WordExpr → String
  | atom text => text
  | sum x y => x.text ++ " + " ++ y.text

def value (env : String → Word) : WordExpr → Word
  | atom text => env text
  | sum x y => x.value env + y.value env

end WordExpr

namespace WordTest

def text : WordTest → String
  | atMost x y => x.text ++ " <= " ++ y.text
  | below x y => x.text ++ " < " ++ y.text

def holds (env : String → Word) : WordTest → Bool
  | atMost x y => x.value env ≤ y.value env
  | below x y => x.value env < y.value env

end WordTest

/-! ## Parts of a loop -/

/-- What a generated loop puts around a body. -/
inductive LoopPart where
  /-- `for (; test; i += step)` around the body in all lanes. -/
  | vectors (test : WordTest) (step : WordExpr)
  /-- `if (test)` around the body in the lanes of which the iterator is below the limit. -/
  | masked (test : WordTest) (limit : WordExpr)
  /-- `for (; test; i++)` around a single iteration. -/
  | singles (test : WordTest)
deriving Repr, DecidableEq

/-- The name of the number of lanes. -/
def laneCount : String := "vl"

/-- What the names in a control line stand for: the iterator, the number of lanes, and the integers
of the source. -/
structure Surroundings where
  iterator : String
  lanes : Nat
  outer : String → Int

namespace Surroundings

variable (s : Surroundings)

def env (i : Word) (x : String) : Word :=
  if x = s.iterator then i else if x = laneCount then BitVec.ofNat 64 s.lanes else word (s.outer x)

/-- The iterations of the first `n` lanes at `i`. -/
def lanesAt (i : Word) (n : Nat) : List Word := (List.range n).map fun k => i + BitVec.ofNat 64 k

/-- The number of lanes of which the iterator is below a limit. -/
def lanesBelow (i limit : Word) : Nat :=
  ((List.range s.lanes).filter fun k => i.toNat + k < limit.toNat).length

end Surroundings

open Surroundings (lanesAt)

namespace LoopPart

variable (s : Surroundings)

def test : LoopPart → WordTest
  | vectors test _ | masked test _ | singles test => test

/-- A part, from one value of the iterator to another, runs its body for some iterations. -/
inductive Runs : LoopPart → Word → List Word → Word → Prop where
  | leave {part : LoopPart} {i : Word} (stops : part.test.holds (s.env i) = false) :
      Runs part i [] i
  | vectors {test : WordTest} {step : WordExpr} {i j : Word} {rest : List Word}
      (goes : test.holds (s.env i) = true)
      (runs : Runs (.vectors test step) (i + step.value (s.env i)) rest j) :
      Runs (.vectors test step) i (lanesAt i s.lanes ++ rest) j
  | masked {test : WordTest} {limit : WordExpr} {i : Word} (goes : test.holds (s.env i) = true) :
      Runs (.masked test limit) i (lanesAt i (s.lanesBelow i (limit.value (s.env i)))) i
  | singles {test : WordTest} {i j : Word} {rest : List Word} (goes : test.holds (s.env i) = true)
      (runs : Runs (.singles test) (i + 1) rest j) : Runs (.singles test) i (i :: rest) j

/-- Parts one after the other. -/
inductive RunAll : List LoopPart → Word → List Word → Prop where
  | done {i : Word} : RunAll [] i []
  | next {part : LoopPart} {parts : List LoopPart} {i j : Word} {xs ys : List Word}
      (first : Runs s part i xs j) (rest : RunAll parts j ys) : RunAll (part :: parts) i (xs ++ ys)

/-- The lines that open a part. -/
def opening (iterator tailPredicate : String) : LoopPart → List String
  | vectors test step =>
    ["for (; " ++ test.text ++ "; " ++ iterator ++ " += " ++ step.text ++ ") \x7b"]
  | masked test limit =>
    ["if (" ++ test.text ++ ") \x7b"] ++ LoopPattern.indented ["svbool_t pg_tail = " ++
      tailPredicate ++ "((uint64_t)" ++ iterator ++ ", (uint64_t)" ++ limit.text ++ ");"]
  | singles test => ["for (; " ++ test.text ++ "; " ++ iterator ++ "++) \x7b"]

end LoopPart

namespace LoopPattern

variable (p : LoopPattern) (prof : Profile)

/-- All vectors that fit below the bound. -/
def mainPart : LoopPart :=
  .vectors (.atMost (.sum (.atom p.iterator) (.atom laneCount)) (.atom p.bound)) (.atom laneCount)

/-- What is left. -/
def tailPart : LoopPart :=
  if prof.isPredicated then .masked (.below (.atom p.iterator) (.atom p.bound)) (.atom p.bound)
  else .singles (.below (.atom p.iterator) (.atom p.bound))

/-- The parts of a generated loop. -/
def parts : List LoopPart := [p.mainPart, p.tailPart prof]

/-- The lines of a part: the body on vectors, under the predicate of the part, or as it was. -/
def partLines (u : SourceUnit) (stmts : List VecStmt) (part : LoopPart) : List String :=
  let (title, body) := match part with
    | .vectors .. => ("main vector loop", p.bodyLines prof "pg" stmts)
    | .masked .. => ("tail", p.bodyLines prof "pg_tail" stmts)
    | .singles .. => ("tail", p.scalarLines u)
  ["", "// " ++ title] ++ part.opening p.iterator prof.tailPredicate ++ indented body ++ ["\x7d"]

/-- The main loop and the tail are written as the parts. -/
theorem flatMap_partLines (u : SourceUnit) (stmts : List VecStmt) :
    (p.parts prof).flatMap (p.partLines prof u stmts) =
      p.mainLines prof stmts ++ p.tailLines u prof stmts := by
  have main : p.partLines prof u stmts p.mainPart = p.mainLines prof stmts := by
    simp [partLines, mainLines, mainPart, LoopPart.opening, WordTest.text, WordExpr.text, laneCount,
      String.append_assoc]
  have tail : p.partLines prof u stmts (p.tailPart prof) = p.tailLines u prof stmts := by
    by_cases predicated : prof.isPredicated = true
    · simp [partLines, tailLines, tailPart, predicated, LoopPart.opening, WordTest.text,
        WordExpr.text, indented, String.append_assoc]
    · simp [partLines, tailLines, tailPart, predicated, LoopPart.opening, WordTest.text,
        WordExpr.text, String.append_assoc]
  simp [parts, main, tail]

end LoopPattern

/-! ## Numbers and words -/

theorem Surroundings.length_lanesAt (i : Word) (n : Nat) : (lanesAt i n).length = n := by
  simp [lanesAt]

theorem Surroundings.lanesBelow_eq (s : Surroundings) (i limit : Word) :
    s.lanesBelow i limit = min s.lanes (limit.toNat - i.toNat) := by
  unfold lanesBelow
  induction s.lanes with
  | zero => simp
  | succ n ih =>
      rw [List.range_succ, List.filter_append, List.length_append, ih]
      by_cases below : i.toNat + n < limit.toNat <;> simp [below] <;> omega

namespace Loop

theorem length_between (start bound : Int) :
    (between start bound).length = (bound - start).toNat := by
  simp [between]

/-- The numbers of some lanes, and those from the next lane on. -/
theorem between_append {start bound : Int} {n : Nat} (fits : start + n ≤ bound) :
    between start bound =
      ((List.range n).map fun k : Nat => start + k) ++ between (start + n) bound := by
  have split : (bound - start).toNat = n + (bound - (start + n)).toNat := by omega
  rw [between, split, List.range_add, List.map_append, List.map_map]
  refine congrArg₂ (· ++ ·) rfl (List.map_congr_left fun k _ => ?_)
  simp only [Function.comp_apply]
  omega

end Loop

theorem word_lanes (start : Int) (n : Nat) :
    ((List.range n).map fun k : Nat => start + k).map word = lanesAt (word start) n := by
  rw [List.map_map, lanesAt]
  exact List.map_congr_left fun k _ => word_add start k

/-- Fewer numbers than there are words are as far apart as their words. -/
theorem word_between {start bound : Int} (few : bound - start < 18446744073709551616)
    (below : start < bound) (less : word start < word bound) :
    (Loop.between start bound).map word =
      lanesAt (word start) ((word bound).toNat - (word start).toNat) := by
  have apart : (bound - start).toNat = (word bound).toNat - (word start).toNat := by
    rw [BitVec.lt_def] at less
    rw [word_toNat, word_toNat] at *
    omega
  rw [Loop.between, apart, word_lanes]

/-! ## Comparisons that are told right -/

/-- The comparisons at `i` say of words what is so of the numbers. -/
structure ToldRight (bound : Int) (lanes : Nat) (i : Int) : Prop where
  vectors : word i + BitVec.ofNat 64 lanes ≤ word bound ↔ i + lanes ≤ bound
  rest : bound < i + lanes → (word i < word bound ↔ i < bound)

/-- All comparisons on the way from `start` are told right. -/
def Unmisled (bound : Int) (lanes : Nat) (start : Int) : Prop :=
  ∀ c : Nat, c = 0 ∨ start + c * lanes ≤ bound → ToldRight bound lanes (start + c * lanes)

theorem unmisled_step {bound start : Int} {lanes : Nat} (fits : start + lanes ≤ bound) :
    Unmisled bound lanes start ↔
      ToldRight bound lanes start ∧ Unmisled bound lanes (start + lanes) := by
  have shift (c : Nat) : start + lanes + c * lanes = start + (c + 1 : Nat) * lanes := by
    rw [Nat.cast_add_one, add_one_mul]
    omega
  constructor
  · intro unmisled
    refine ⟨by simpa using unmisled 0 (Or.inl rfl), fun c within => ?_⟩
    rw [shift]
    refine unmisled (c + 1) (Or.inr ?_)
    rcases within with rfl | within
    · simpa using fits
    · exact shift c ▸ within
  · rintro ⟨here, later⟩ c within
    cases c with
    | zero => simpa using here
    | succ c =>
        rw [← shift]
        exact later c (Or.inr (shift c ▸ within.resolve_left c.succ_ne_zero))

theorem unmisled_last {bound start : Int} {lanes : Nat} (last : bound < start + lanes) :
    Unmisled bound lanes start ↔ ToldRight bound lanes start := by
  refine ⟨fun unmisled => by simpa using unmisled 0 (Or.inl rfl), fun here c within => ?_⟩
  have first : c = 0 := by
    rcases within with zero | within
    · exact zero
    · by_contra more
      have : lanes ≤ c * lanes := Nat.le_mul_of_pos_left lanes (Nat.pos_of_ne_zero more)
      rw [← Nat.cast_mul] at within
      omega
  simpa [first] using here

/-- From a number on, and with no more lanes than half the words, only a negative bound misleads. -/
theorem unmisled_iff {bound start : Int} {lanes : Nat} (some : 1 ≤ lanes) (few : lanes ≤ 2 ^ 63)
    (start_nonneg : 0 ≤ start) (start_le : start ≤ Text.maxInt64) (bound_ge : Text.minInt64 ≤ bound)
    (bound_le : bound ≤ Text.maxInt64) : Unmisled bound lanes start ↔ 0 ≤ bound := by
  simp only [Text.maxInt64, Text.minInt64] at start_le bound_ge bound_le
  constructor
  · intro unmisled
    by_contra negative
    have last : bound < start + lanes := by omega
    have told := ((unmisled_last last).mp unmisled).rest last
    rw [BitVec.lt_def, word_toNat, word_toNat] at told
    omega
  · intro nonneg c within
    generalize place : start + c * lanes = i at within
    have lower : 0 ≤ i := by
      have : 0 ≤ (c : Int) * lanes :=
        Int.mul_nonneg (Int.natCast_nonneg c) (Int.natCast_nonneg lanes)
      omega
    have upper : i ≤ Text.maxInt64 := by
      rcases within with rfl | within
      · simp only [Text.maxInt64]
        simp at place
        omega
      · exact within.trans bound_le
    simp only [Text.maxInt64] at upper
    constructor
    · rw [BitVec.le_def, BitVec.toNat_add, BitVec.toNat_ofNat, word_toNat, word_toNat]
      omega
    · intro _
      rw [BitVec.lt_def, word_toNat, word_toNat]
      omega

/-! ## Runs -/

namespace LoopPattern

variable {p : LoopPattern} {prof : Profile}

/-- The code declares no name of the header but the iterator. -/
structure HeaderApart (p : LoopPattern) (prof : Profile) : Prop where
  iterator : p.iterator ∉ p.helpers prof
  bound : p.bound ∉ p.helpers prof
  other : p.bound ≠ p.iterator

/-- The iterator of the pattern, some lanes, and the integers of the source. -/
def surroundings (p : LoopPattern) (lanes : Nat) (outer : String → Int) : Surroundings where
  iterator := p.iterator
  lanes := lanes
  outer := outer

section Runs

variable (apart : p.HeaderApart prof) {lanes : Nat} {outer : String → Int} {i : Word}

theorem env_iterator : (p.surroundings lanes outer).env i p.iterator = i := if_pos rfl

include apart

theorem HeaderApart.env_lanes :
    (p.surroundings lanes outer).env i laneCount = BitVec.ofNat 64 lanes := by
  have other : laneCount ≠ p.iterator := fun same =>
    apart.iterator (same ▸ by simp [helpers, laneCount])
  simp [Surroundings.env, surroundings, other]

theorem HeaderApart.env_bound :
    (p.surroundings lanes outer).env i p.bound = word (outer p.bound) := by
  have other : p.bound ≠ laneCount := fun same => apart.bound (same ▸ by simp [helpers, laneCount])
  simp [Surroundings.env, surroundings, other, apart.other]

theorem HeaderApart.mainPart_holds : p.mainPart.test.holds ((p.surroundings lanes outer).env i) =
    decide (i + BitVec.ofNat 64 lanes ≤ word (outer p.bound)) := by
  simp [mainPart, LoopPart.test, WordTest.holds, WordExpr.value, env_iterator, apart.env_lanes,
    apart.env_bound]

theorem HeaderApart.tailPart_holds :
    (p.tailPart prof).test.holds ((p.surroundings lanes outer).env i) =
      decide (i < word (outer p.bound)) := by
  unfold tailPart
  split <;> simp [LoopPart.test, WordTest.holds, WordExpr.value, env_iterator, apart.env_bound]

/-- The main part takes the lanes at the iterator and goes on behind them, or is left. -/
theorem HeaderApart.runAll_mainPart {parts : List LoopPart} {zs : List Word} :
    LoopPart.RunAll (p.surroundings lanes outer) (p.mainPart :: parts) i zs ↔
      if i + BitVec.ofNat 64 lanes ≤ word (outer p.bound) then
        ∃ later, zs = lanesAt i lanes ++ later ∧ LoopPart.RunAll (p.surroundings lanes outer)
          (p.mainPart :: parts) (i + BitVec.ofNat 64 lanes) later
      else LoopPart.RunAll (p.surroundings lanes outer) parts i zs := by
  have test : p.mainPart.test.holds ((p.surroundings lanes outer).env i) =
      decide (i + BitVec.ofNat 64 lanes ≤ word (outer p.bound)) := apart.mainPart_holds
  split
  · rename_i goes
    simp only [goes, decide_true] at test
    constructor
    · rintro (_ | ⟨first, rest⟩)
      cases first with
      | leave stops => simp [test] at stops
      | vectors goes' runs =>
          rw [WordExpr.value, apart.env_lanes] at runs
          exact ⟨_, List.append_assoc .., .next runs rest⟩
    · rintro ⟨later, rfl, _ | ⟨first, rest⟩⟩
      rw [← List.append_assoc]
      refine .next (.vectors test ?_) rest
      rwa [WordExpr.value, apart.env_lanes]
  · rename_i stops
    simp only [stops, decide_false] at test
    constructor
    · rintro (_ | ⟨first, rest⟩)
      cases first with
      | leave _ => exact rest
      | vectors goes _ => cases test.symm.trans goes
    · intro rest
      exact .next (.leave test) rest

omit apart in
/-- Single iterations run up to the bound. -/
theorem runs_singles {test : WordTest}
    (holds : ∀ i, test.holds ((p.surroundings lanes outer).env i) =
      decide (i < word (outer p.bound))) {zs : List Word} :
    (∃ j, LoopPart.Runs (p.surroundings lanes outer) (.singles test) i zs j) ↔
      zs = lanesAt i ((word (outer p.bound)).toNat - i.toNat) := by
  -- induction on the iterations that are left
  induction left : (word (outer p.bound)).toNat - i.toNat generalizing i zs with
  | zero =>
      have stops : ¬ i < word (outer p.bound) := by
        rw [BitVec.lt_def]
        omega
      constructor
      · rintro ⟨j, ran⟩
        cases ran with
        | leave _ => rfl
        | singles goes _ => simp [holds, stops] at goes
      · rintro rfl
        exact ⟨i, .leave (by simp [LoopPart.test, holds, stops])⟩
  | succ n ih =>
      have goes : i < word (outer p.bound) := by
        rw [BitVec.lt_def]
        omega
      have next : (word (outer p.bound)).toNat - (i + 1).toNat = n := by
        have := (word (outer p.bound)).isLt
        have one : (1 : Word).toNat = 1 := rfl
        rw [BitVec.toNat_add, one]
        omega
      have first : lanesAt i (n + 1) = i :: lanesAt (i + 1) n := by
        simp only [lanesAt, List.range_succ_eq_map, List.map_cons, List.map_map]
        refine congrArg₂ List.cons (by simp) (List.map_congr_left fun k _ => ?_)
        simp only [Function.comp_apply, Nat.succ_eq_add_one, BitVec.ofNat_add]
        rw [BitVec.add_comm (BitVec.ofNat 64 k), BitVec.add_assoc]
        rfl
      rw [first]
      constructor
      · rintro ⟨j, ran⟩
        cases ran with
        | leave stops => simp [LoopPart.test, holds, goes] at stops
        | singles _ runs => rw [(ih next).mp ⟨j, runs⟩]
      · rintro rfl
        obtain ⟨j, runs⟩ := (ih next).mpr rfl
        exact ⟨j, .singles (by simp [holds, goes]) runs⟩

/-- The iterations of the tail. -/
def tailCount (prof : Profile) (lanes : Nat) (i limit : Word) : Nat :=
  if prof.isPredicated then min lanes (limit.toNat - i.toNat) else limit.toNat - i.toNat

theorem HeaderApart.runAll_tailPart {zs : List Word} :
    LoopPart.RunAll (p.surroundings lanes outer) [p.tailPart prof] i zs ↔
      zs = lanesAt i (tailCount prof lanes i (word (outer p.bound))) := by
  have alone : LoopPart.RunAll (p.surroundings lanes outer) [p.tailPart prof] i zs ↔
      ∃ j, LoopPart.Runs (p.surroundings lanes outer) (p.tailPart prof) i zs j := by
    constructor
    · rintro (_ | ⟨first, _ | _⟩)
      exact ⟨_, by simpa using first⟩
    · rintro ⟨j, ran⟩
      simpa using LoopPart.RunAll.next ran .done
  have test (i : Word) : (p.tailPart prof).test.holds ((p.surroundings lanes outer).env i) =
      decide (i < word (outer p.bound)) := apart.tailPart_holds
  rw [alone, tailCount]
  unfold tailPart at test ⊢
  split
  · rename_i predicated
    rw [if_pos predicated] at test
    have count : (p.surroundings lanes outer).lanesBelow i (word (outer p.bound)) =
        min lanes ((word (outer p.bound)).toNat - i.toNat) :=
      Surroundings.lanesBelow_eq _ i (word (outer p.bound))
    constructor
    · rintro ⟨j, ran⟩
      cases ran with
      | leave stops =>
          simp only [LoopPart.test] at stops test
          simp only [test, decide_eq_false_iff_not, BitVec.lt_def] at stops
          rw [Nat.sub_eq_zero_of_le (by omega), Nat.min_zero]
          rfl
      | masked _ => rw [WordExpr.value, apart.env_bound, count]
    · rintro rfl
      by_cases goes : i < word (outer p.bound)
      · refine ⟨i, ?_⟩
        rw [← count, ← apart.env_bound (i := i)]
        exact .masked (by simpa [LoopPart.test, goes] using test i)
      · have stops := goes
        rw [BitVec.lt_def] at stops
        rw [Nat.sub_eq_zero_of_le (by omega), Nat.min_zero]
        exact ⟨i, .leave (by simpa [LoopPart.test, goes] using test i)⟩
  · rename_i predicated
    rw [if_neg predicated] at test
    exact runs_singles test

/-- What fits no vector is left to the tail, which takes it if its first comparison is told
right. -/
theorem HeaderApart.tail_iff {start : Int} (some : 1 ≤ lanes) (few : lanes < 2 ^ 64)
    (last : outer p.bound < start + lanes) :
    LoopPart.RunAll (p.surroundings lanes outer) [p.tailPart prof] (word start)
        ((Loop.between start (outer p.bound)).map word) ↔
      (word start < word (outer p.bound) ↔ start < outer p.bound) := by
  rw [apart.runAll_tailPart]
  have none_iff : tailCount prof lanes (word start) (word (outer p.bound)) = 0 ↔
      ¬ word start < word (outer p.bound) := by
    rw [BitVec.lt_def, tailCount]
    split <;> omega
  constructor
  · intro same
    have count := congrArg List.length same
    rw [List.length_map, Loop.length_between, Surroundings.length_lanesAt] at count
    rw [← not_iff_not, ← none_iff, ← count]
    omega
  · intro told
    by_cases more : start < outer p.bound
    · have less := told.mpr more
      have rest := word_between (by omega) more less
      have fits : (word (outer p.bound)).toNat - (word start).toNat ≤ lanes := by
        have count := congrArg List.length rest
        rw [List.length_map, Loop.length_between, Surroundings.length_lanesAt] at count
        omega
      rw [rest, tailCount, Nat.min_eq_right fits, ite_self]
    · rw [Loop.between_empty (by omega), none_iff.mpr (mt told.mp more)]
      rfl

/-- The parts run the iterations from `start` up to the bound exactly if no comparison misleads
them. -/
theorem HeaderApart.runs_iff_unmisled (some : 1 ≤ lanes) (few : lanes < 2 ^ 64) (start : Int) :
    LoopPart.RunAll (p.surroundings lanes outer) (p.parts prof) (word start)
        ((Loop.between start (outer p.bound)).map word) ↔
      Unmisled (outer p.bound) lanes start := by
  have length (a b : Int) : ((Loop.between a b).map word).length = (b - a).toNat := by
    rw [List.length_map, Loop.length_between]
  rw [parts, apart.runAll_mainPart]
  -- induction on the numbers that are left
  induction left : (outer p.bound - start).toNat using Nat.strong_induction_on
    generalizing start with
  | _ n ih =>
      by_cases fits : start + lanes ≤ outer p.bound
      · rw [unmisled_step fits]
        split
        · rename_i goes
          have here : ToldRight (outer p.bound) lanes start :=
            ⟨iff_of_true goes fits, fun last => absurd fits (by omega)⟩
          have later := ih (outer p.bound - (start + lanes)).toNat (by omega) (start + lanes) rfl
          rw [← apart.runAll_mainPart, word_add] at later
          simp only [here, true_and, ← later, Loop.between_append fits, List.map_append, word_lanes,
            List.append_cancel_left_eq]
          exact ⟨fun ⟨_, same, ran⟩ => same ▸ ran, fun ran => ⟨_, rfl, ran⟩⟩
        · rename_i stops
          refine iff_of_false (fun ran => ?_) fun told => stops (told.1.vectors.mpr fits)
          rw [apart.runAll_tailPart] at ran
          -- the tail is too short, whether the sum wrapped around or not
          have count := congrArg List.length ran
          rw [length, Surroundings.length_lanesAt, tailCount] at count
          have wide := (word (outer p.bound)).isLt
          rw [BitVec.le_def, BitVec.toNat_add, BitVec.toNat_ofNat] at stops
          split at count <;> omega
      · have last : outer p.bound < start + lanes := by omega
        rw [unmisled_last last]
        split
        · rename_i goes
          refine iff_of_false ?_ fun told => fits (told.vectors.mp goes)
          rintro ⟨later, same, -⟩
          have count := congrArg List.length same
          rw [length, List.length_append, Surroundings.length_lanesAt] at count
          omega
        · rename_i stops
          rw [apart.tail_iff some few last]
          exact ⟨fun told => ⟨iff_of_false stops fits, fun _ => told⟩, fun told => told.rest last⟩

end Runs

end LoopPattern

/-! ## Generated loops -/

namespace Loop

/-- A literal is malformed, or it is digits with the sign and the bounds of 64 bits applied. -/
theorem readLiteral_cases (text : String) : Text.readLiteral text = .malformed ∨
    ∃ negative n fits, Text.readLiteral text = Text.signed negative n fits := by
  unfold Text.readLiteral
  dsimp only
  split
  · exact Or.inl rfl
  · split
    · split
      · exact Or.inl rfl
      · exact Or.inr ⟨_, _, _, rfl⟩
    · exact Or.inl rfl

theorem signed_clamped_le (negative : Bool) (n : Nat) (fits : Bool) :
    (Text.signed negative n fits).clamped ≤ Text.maxInt64 := by
  unfold Text.signed
  split <;> split
  · decide
  · simp only [Text.IntegerReading.clamped, Text.maxInt64]
    omega
  · decide
  · rename_i small
    simp only [Bool.or_eq_true, decide_eq_true_eq, not_or] at small
    simp only [Text.IntegerReading.clamped, Text.maxInt64]
    omega

theorem startOf_le (init : Option Source.Node) : startOf init ≤ Text.maxInt64 := by
  unfold startOf
  split
  · rename_i value
    cases read : integerLiteral? value with
    | none => decide
    | some n =>
        unfold integerLiteral? at read
        split at read
        · rename_i text
          cases read
          rcases readLiteral_cases text with malformed | ⟨negative, n, fits, reading⟩
          · simp only [malformed, Option.getD_some]
            decide
          · rw [Option.getD_some, reading]
            exact signed_clamped_le negative n fits
        · cases read
  · decide

end Loop

theorem LoopPattern.start_le {u : SourceUnit} {k : KernelFn} {loop : Source.Node} {p : LoopPattern}
    (found : LoopPattern.ofLoop? u k loop = some p) : p.start ≤ Text.maxInt64 := by
  obtain ⟨h, body, header, same⟩ := LoopPattern.header_of_ofLoop? found
  have start : h.start ≤ Text.maxInt64 := by
    obtain ⟨-, ⟨m, init, cond, post, rfl, rfl⟩ | ⟨m, m', x, range, rfl, rfl⟩⟩ :=
      Loop.headerOf?_cases header
    · exact Loop.startOf_le init
    · show (0 : Int) ≤ Text.maxInt64
      decide
  rwa [same] at start

/-- The parts of a generated loop run the iterations from the start up to the bound, each once and
in order, exactly if no comparison on the way is misled: from a start that is not negative, if the
bound is not negative. -/
theorem vector_loop_counts {u : SourceUnit} {k : KernelFn} {loop : Source.Node} {p : LoopPattern}
    {target text : String} (found : LoopPattern.ofLoop? u k loop = some p)
    (generated : p.generate u target = .ok text) :
    p.step = 1 ∧ ∃ prof stmts, Profile.find? target p.elemType = some prof ∧
      p.vecBody u prof = .ok stmts ∧
      text = String.join ((p.setupLines prof ++ (p.parts prof).flatMap (p.partLines prof u stmts) ++
        p.reductionLines prof).map (· ++ "\n")) ∧
      "size_t " ++ p.iterator ++ " = " ++ toString p.start ++ ";" ∈ p.setupLines prof ∧
      (p.HeaderApart prof → ∀ (outer : String → Int) (lanes : Nat), 1 ≤ lanes → lanes < 2 ^ 64 →
        (LoopPart.RunAll (p.surroundings lanes outer) (p.parts prof) (word p.start)
            ((Loop.between p.start (outer p.bound)).map word) ↔
          Unmisled (outer p.bound) lanes p.start) ∧
        (0 ≤ p.start → lanes ≤ 2 ^ 63 → Text.minInt64 ≤ outer p.bound →
          outer p.bound ≤ Text.maxInt64 → (Unmisled (outer p.bound) lanes p.start ↔
            0 ≤ outer p.bound))) := by
  have vectorizable : p.isVectorizable = true := by
    cases verdict : p.isVectorizable with
    | true => rfl
    | false =>
        rw [LoopPattern.generate, verdict] at generated
        cases generated
  obtain ⟨prof, stmts, profile, body, written⟩ := LoopPattern.generate_eq_ok generated
  refine ⟨p.step_of_isVectorizable vectorizable, prof, stmts, profile, body, ?_, ?_, ?_⟩
  · rw [p.flatMap_partLines, written, List.append_assoc (p.setupLines prof)]
  · simp [LoopPattern.setupLines]
  · intro apart outer lanes some few
    exact ⟨apart.runs_iff_unmisled some few p.start, fun nonneg half lower upper =>
      unmisled_iff some half nonneg (LoopPattern.start_le found) lower upper⟩

open VectorBody in
/-- Ten iterations in vectors of four, on a target with predicates. -/
theorem vector_loop_counts_weighing :
    LoopPattern.ofLoop? default default (counting weighing) = some (pattern weighing) ∧
      ((pattern weighing).generate default "SVE").isOk = true ∧
      (pattern weighing).HeaderApart words ∧
      LoopPart.RunAll ((pattern weighing).surroundings 4 fun _ => 10)
        ((pattern weighing).parts words) (word (pattern weighing).start)
        ((Loop.between (pattern weighing).start 10).map word) := by
  have found : LoopPattern.ofLoop? default default (counting weighing) = some (pattern weighing) :=
    found_of_isSome (by decide)
  have isOk : ((pattern weighing).generate default "SVE").isOk = true := by decide
  obtain ⟨text, generated⟩ := ok_of_isOk isOk
  have apart : (pattern weighing).HeaderApart words :=
    ⟨by decide, by decide, by decide⟩
  obtain ⟨-, prof, stmts, profile, -, -, -, counts⟩ := vector_loop_counts found generated
  obtain rfl : words = prof := Option.some.inj (Eq.trans (by decide) profile)
  obtain ⟨runs, plain⟩ := counts apart (fun _ => 10) 4 (by decide) (by decide)
  refine ⟨found, isOk, apart, runs.mpr ((plain ?_ ?_ ?_ ?_).mpr ?_)⟩ <;> decide

open VectorBody in
/-- Minus one is converted to the largest word: the loop of the source runs no iteration below it,
and the main loop never ends. -/
theorem vector_loop_counts_negative :
    LoopPattern.ofLoop? default default (counting passing) = some (pattern passing) ∧
      ((pattern passing).generate default "NEON").isOk = true ∧
      Loop.between (pattern passing).start (-1) = [] ∧
      ∀ visited, ¬ LoopPart.RunAll ((pattern passing).surroundings 4 fun _ => -1)
        ((pattern passing).parts (Profile.neon ⟨"int", "s32", "int32", 32⟩))
        (word (pattern passing).start) visited := by
  refine ⟨found_of_isSome (by decide), by decide, by decide, ?_⟩
  have apart : (pattern passing).HeaderApart (Profile.neon ⟨"int", "s32", "int32", 32⟩) :=
    ⟨by decide, by decide, by decide⟩
  -- no word is above minus one, so the test of the main loop never fails
  have endless {part : LoopPart} {i j : Word} {visited : List Word}
      (ran : LoopPart.Runs ((pattern passing).surroundings 4 fun _ => -1) part i visited j) :
      part ≠ (pattern passing).mainPart := by
    induction ran with
    | leave stops =>
        rintro rfl
        rw [apart.mainPart_holds] at stops
        simp only [decide_eq_false_iff_not, BitVec.le_def] at stops
        exact stops (Nat.le_of_lt_succ (BitVec.isLt _))
    | vectors _ _ ih => exact ih
    | masked _ => nofun
    | singles _ _ _ => nofun
  rintro visited (_ | ⟨first, -⟩)
  exact endless first rfl

end Retarget
