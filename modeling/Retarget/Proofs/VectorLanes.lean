/-
# Proofs.VectorLanes -- vector lines, lane by lane

The lines of a vector body are read as what they do in every lane: a load fills a register from an
array, arithmetic works lane by lane, a store writes the active lanes back, and the vector of sums
keeps one partial sum for each lane (`VecLine.run`).  Registers are known by their names in the
code.  A name that the code declares hides one of the source, and a line that would read the hidden
one is stuck.

What a lane does is said once on the column of elements it stands at.  All loads come before all
statements, so a lane acts on the elements as they were before the body (`atOnce`); the body is
written to act on them as they are (`inOrder`).  The two agree if no statement loads an array that
an earlier one has stored to (`inOrder_eq_atOnce`).  Where no name is hidden the lines run to their
end and do in each active lane what it does at once (`run_lines`).
-/
import Mathlib.Algebra.Group.Basic
import Mathlib.Algebra.Ring.Defs
import Mathlib.Logic.Function.Basic
import Retarget.Loop.Vector
import Retarget.Proofs.DefUse

namespace Retarget

open Retarget.Text (addNew)

set_option autoImplicit false
set_option linter.dupNamespace false

/-! ## One lane -/

/-- How literals are read.  All that matters is that zero is read as zero. -/
structure Literals (K : Type) [Zero K] where
  value : String → K
  zero : value "0" = 0

/-- The elements of all arrays at one place, and a partial sum. -/
structure Lane (K : Type) where
  column : String → K
  sum : K

namespace VecTerm

/-- The scalars a term reads. -/
def scalars : VecTerm → List String
  | load _ => []
  | scalar x => [x]
  | literal _ => []
  | arith _ x y => x.scalars ++ y.scalars

end VecTerm

namespace VecStmt

def stored? : VecStmt → Option String
  | accumulate _ => none
  | store array _ => some array
  | update _ array _ => some array

def scalars : VecStmt → List String
  | accumulate x => x.scalars
  | store _ x => x.scalars
  | update _ _ x => x.scalars

end VecStmt

section Lane

variable {K : Type} [CommRing K] [Div K]

def VecOp.act : VecOp → K → K → K
  | add, x, y => x + y
  | sub, x, y => x - y
  | mul, x, y => x * y
  | div, x, y => x / y

/-- The value of a term in a lane that sees the elements `seen`. -/
def VecTerm.value (literals : Literals K) (env : String → K) (seen : String → K) : VecTerm → K
  | load array => seen array
  | scalar x => env x
  | literal text => literals.value text
  | arith op x y => op.act (x.value literals env seen) (y.value literals env seen)

/-- What a statement does in a lane that sees the elements `seen`. -/
def VecStmt.act (literals : Literals K) (env : String → K) (seen : String → K) (s : Lane K) :
    VecStmt → Lane K
  | accumulate x => { s with sum := s.sum + x.value literals env seen }
  | store array x =>
    { s with column := Function.update s.column array (x.value literals env seen) }
  | update op array x =>
    { s with column :=
        Function.update s.column array (op.act (seen array) (x.value literals env seen)) }

variable (literals : Literals K) (env : String → K)

/-- Every statement sees what those before it have stored. -/
def inOrder (stmts : List VecStmt) (s : Lane K) : Lane K :=
  stmts.foldl (fun s t => t.act literals env s.column s) s

/-- Every statement sees the same elements. -/
def atOnce (seen : String → K) (stmts : List VecStmt) (s : Lane K) : Lane K :=
  stmts.foldl (fun s t => t.act literals env seen s) s

/-- No statement loads what an earlier one has stored. -/
def Undisturbed (stmts : List VecStmt) : Prop :=
  stmts.Pairwise fun s t => ∀ a ∈ s.stored?, a ∉ t.loads

instance (stmts : List VecStmt) : Decidable (Undisturbed stmts) :=
  inferInstanceAs (Decidable (stmts.Pairwise _))

variable {literals env} {env' seen seen' : String → K}

theorem VecTerm.value_congr {x : VecTerm} (same : ∀ a ∈ x.loads, seen a = seen' a)
    (sameEnv : ∀ y ∈ x.scalars, env y = env' y) :
    x.value literals env seen = x.value literals env' seen' := by
  induction x with
  | load array => exact same array (by simp [loads])
  | scalar y => exact sameEnv y (by simp [scalars])
  | literal text => rfl
  | arith op x y ihx ihy =>
      simp only [loads, scalars, List.mem_append] at same sameEnv
      have left := ihx (fun a read => same a (Or.inl read)) fun z read => sameEnv z (Or.inl read)
      have right := ihy (fun a read => same a (Or.inr read)) fun z read => sameEnv z (Or.inr read)
      rw [value, value, left, right]

theorem VecStmt.act_congr {t : VecStmt} {s : Lane K} (same : ∀ a ∈ t.loads, seen a = seen' a)
    (sameEnv : ∀ y ∈ t.scalars, env y = env' y) :
    t.act literals env seen s = t.act literals env' seen' s := by
  cases t with
  | accumulate x => rw [act, act, VecTerm.value_congr same sameEnv]
  | store array x => rw [act, act, VecTerm.value_congr same sameEnv]
  | update op array x =>
      simp only [loads, List.mem_append, List.mem_singleton] at same
      rw [act, act, VecTerm.value_congr (fun a read => same a (Or.inl read)) sameEnv,
        same array (Or.inr rfl)]

theorem inOrder_congr {stmts : List VecStmt} (s : Lane K)
    (sameEnv : ∀ t ∈ stmts, ∀ y ∈ t.scalars, env y = env' y) :
    inOrder literals env stmts s = inOrder literals env' stmts s := by
  induction stmts generalizing s with
  | nil => rfl
  | cons t stmts ih =>
      have first : t.act literals env s.column s = t.act literals env' s.column s :=
        VecStmt.act_congr (fun _ _ => rfl) (sameEnv t List.mem_cons_self)
      rw [inOrder, inOrder, List.foldl_cons, List.foldl_cons, first]
      exact ih _ fun t later => sameEnv t (List.mem_cons_of_mem _ later)

/-- A statement changes no array but the one it stores to. -/
theorem VecStmt.act_column {t : VecStmt} {s : Lane K} {a : String} (other : a ∉ t.stored?) :
    (t.act literals env seen s).column a = s.column a := by
  cases t with
  | accumulate x => rfl
  | store array x => exact Function.update_of_ne (fun same => other (by simp [stored?, same])) _ _
  | update op array x => exact Function.update_of_ne (fun same => other (by simp [stored?, same])) _ _

/-- Undisturbed statements see what they would see at once. -/
theorem inOrder_eq_atOnce {stmts : List VecStmt} (undisturbed : Undisturbed stmts) (s : Lane K)
    (fresh : ∀ t ∈ stmts, ∀ a ∈ t.loads, s.column a = seen a) :
    inOrder literals env stmts s = atOnce literals env seen stmts s := by
  induction stmts generalizing s with
  | nil => rfl
  | cons t stmts ih =>
      obtain ⟨apart, rest⟩ := List.pairwise_cons.mp undisturbed
      have first : t.act literals env s.column s = t.act literals env seen s :=
        VecStmt.act_congr (fresh t List.mem_cons_self) fun _ _ => rfl
      rw [inOrder, atOnce, List.foldl_cons, List.foldl_cons, first]
      refine ih rest _ fun t' later a read => ?_
      have kept : (t.act literals env seen s).column a = s.column a :=
        VecStmt.act_column fun stores => apart t' later a stores read
      exact kept.trans (fresh t' (List.mem_cons_of_mem _ later) a read)

/-- What a body adds to the sum does not depend on the sum. -/
theorem inOrder_sum (literals : Literals K) (env : String → K) (stmts : List VecStmt) (s : Lane K)
    (more : K) :
    inOrder literals env stmts { s with sum := s.sum + more } =
      { inOrder literals env stmts s with sum := (inOrder literals env stmts s).sum + more } := by
  induction stmts generalizing s with
  | nil => rfl
  | cons t stmts ih =>
      have first : t.act literals env s.column { s with sum := s.sum + more } =
          { t.act literals env s.column s with
            sum := (t.act literals env s.column s).sum + more } := by
        cases t with
        | accumulate x => simp only [VecStmt.act, add_right_comm]
        | store array x => rfl
        | update op array x => rfl
      rw [inOrder, List.foldl_cons, first]
      exact ih _

end Lane

/-! ## Vector lines -/

/-- A line of a vector body. -/
inductive VecLine where
  /-- Declare the register of an array and fill it. -/
  | load (array : String)
  | accumulate (x : VecTerm)
  | store (array : String) (x : VecTerm)

/-- The line of a statement; what is combined with an array is combined in its register. -/
def VecStmt.line : VecStmt → VecLine
  | accumulate x => .accumulate x
  | store array x => .store array x
  | update op array x => .store array (.arith op (.load array) x)

/-- The arrays that are loaded, each once. -/
def loadedBy (stmts : List VecStmt) : List String := addNew [] (stmts.flatMap (·.loads))

theorem mem_loadedBy {stmts : List VecStmt} {a : String} :
    a ∈ loadedBy stmts ↔ ∃ t ∈ stmts, a ∈ t.loads := by
  simp [loadedBy, Text.mem_addNew]

/-- The lines of a body: all loads, then the statements. -/
def linesOf (stmts : List VecStmt) : List VecLine :=
  (loadedBy stmts).map .load ++ stmts.map (·.line)

/-- A name that is neither among `helpers` nor that of a register of `names`. -/
def Plain (helpers names : List String) (x : String) : Prop :=
  x ∉ helpers ∧ ∀ a ∈ names, x ≠ LoopPattern.vecName a

instance (helpers names : List String) (x : String) : Decidable (Plain helpers names x) :=
  inferInstanceAs (Decidable (_ ∧ _))

/-- The register that the vector of sums has in the code. -/
def sumName : String := "sum_vec"

/-- The names of a body are those of the source: the code declares none of them. -/
structure Uncaptured (iterator : String) (helpers : List String) (stmts : List VecStmt) : Prop where
  index : Plain helpers (loadedBy stmts) iterator
  names : ∀ t ∈ stmts, ∀ x ∈ t.loads ++ t.stored?.toList ++ t.scalars,
    x ≠ iterator ∧ Plain helpers (loadedBy stmts) x
  sums : ∀ t ∈ stmts, t.stored? = none → ∀ a ∈ loadedBy stmts, sumName ≠ LoopPattern.vecName a

namespace LoopPattern

variable (p : LoopPattern)

def lineText (prof : Profile) (pred : String) : VecLine → String
  | .load array => p.loadText prof pred array
  | .accumulate x => p.stmtText prof pred (.accumulate x)
  | .store array x => p.stmtText prof pred (.store array x)

/-- The text of a body is that of its lines. -/
theorem bodyLines_eq (prof : Profile) (pred : String) (stmts : List VecStmt) :
    p.bodyLines prof pred stmts = (linesOf stmts).map (p.lineText prof pred) := by
  have line (t : VecStmt) : p.stmtText prof pred t = p.lineText prof pred t.line := by
    cases t <;> rfl
  simp only [bodyLines, linesOf, loadedBy, List.map_append, List.map_map]
  refine congrArg₂ (· ++ ·) rfl (List.map_congr_left fun t _ => line t)

end LoopPattern

/-! ## Chunks of iterations -/

/-- The iterations that one run of the lines stands for: lane `k` is the iteration at `base + k`,
if it is active. -/
structure Chunk (K : Type) [Zero K] (n : Nat) where
  literals : Literals K
  env : String → K
  iterator : String
  /-- The names that the code around the body declares, the iterator apart. -/
  helpers : List String
  base : Int
  active : Fin n → Bool

/-- What lines change: the arrays, the registers declared in the body, and the vector of sums. -/
structure VecState (K : Type) (n : Nat) where
  arrays : String → Int → K
  locals : String → Option (Fin n → K)
  sums : Fin n → K

namespace Chunk

variable {K : Type} [CommRing K] {n : Nat} (ch : Chunk K n)

/-- The active lane at a place of the arrays. -/
def lane? (j : Int) : Option (Fin n) :=
  (List.finRange n).find? fun k => ch.active k && j == ch.base + (k.val : Int)

/-- A name means what it means in the source. -/
def sees (st : VecState K n) (x : String) : Bool :=
  !ch.helpers.contains x && (st.locals x).isNone

/-- An array can be addressed at the iterator. -/
def reaches (st : VecState K n) (array : String) : Bool :=
  array != ch.iterator && ch.sees st array && ch.sees st ch.iterator

/-- Lanes that are not active keep what they have. -/
def merge (old new : Fin n → K) : Fin n → K := fun k => if ch.active k then new k else old k

/-- The elements that lane `k` stands at. -/
def column (arrays : String → Int → K) (k : Fin n) : String → K :=
  fun a => arrays a (ch.base + (k.val : Int))

/-- Fill the register of an array; lanes that are not active get zero. -/
def fill (st : VecState K n) (array : String) : VecState K n :=
  { st with
    locals := Function.update st.locals (LoopPattern.vecName array)
      (some (ch.merge (fun _ => 0) fun k => ch.column st.arrays k array)) }

/-- Store the active lanes of a vector. -/
def scatter (arrays : String → Int → K) (array : String) (v : Fin n → K) : String → Int → K :=
  Function.update arrays array fun j => ((ch.lane? j).map v).getD (arrays array j)

variable {ch}

theorem fill_same (st : VecState K n) (a : String) : (ch.fill st a).locals (LoopPattern.vecName a) =
    some (ch.merge (fun _ => 0) fun k => ch.column st.arrays k a) := Function.update_self ..

theorem fill_other (st : VecState K n) {a x : String} (other : x ≠ LoopPattern.vecName a) :
    (ch.fill st a).locals x = st.locals x := Function.update_of_ne other ..

theorem lane?_eq_some {j : Int} {k : Fin n} :
    ch.lane? j = some k ↔ ch.active k = true ∧ j = ch.base + (k.val : Int) := by
  constructor
  · intro found
    simpa using List.find?_some found
  · rintro ⟨active, rfl⟩
    cases found : ch.lane? (ch.base + (k.val : Int)) with
    | none =>
        have missed := List.find?_eq_none.mp found k (List.mem_finRange k)
        simp [active] at missed
    | some k' =>
        have fits := List.find?_some found
        simp only [Bool.and_eq_true, beq_iff_eq] at fits
        rw [Option.some.injEq, Fin.ext_iff]
        omega

end Chunk

/-! ## Registers -/

section Registers

variable {K : Type} [CommRing K] {n : Nat} {ch : Chunk K n} {st before : VecState K n}

/-- The registers are those of the arrays in `names`, filled from `arrays`. -/
structure Filled (ch : Chunk K n) (arrays : String → Int → K) (names : List String)
    (locals : String → Option (Fin n → K)) : Prop where
  filled : ∀ a ∈ names, locals (LoopPattern.vecName a) =
    some (ch.merge (fun _ => 0) fun k => ch.column arrays k a)
  free : ∀ x, (∀ a ∈ names, x ≠ LoopPattern.vecName a) → locals x = none

theorem vecName_injective {a b : String} (same : LoopPattern.vecName a = LoopPattern.vecName b) :
    a = b := by
  have chars := congrArg String.toList same
  simp only [LoopPattern.vecName, String.toList_append] at chars
  exact String.toList_injective (List.append_cancel_right chars)

theorem Filled.sees {arrays : String → Int → K} {names : List String} {x : String}
    (loaded : Filled ch arrays names st.locals) (plain : Plain ch.helpers names x) :
    ch.sees st x = true := by
  simp [Chunk.sees, plain.1, loaded.free x plain.2]

theorem Filled.reaches {arrays : String → Int → K} {names : List String} {a : String}
    (loaded : Filled ch arrays names st.locals) (plain : Plain ch.helpers names a)
    (other : a ≠ ch.iterator)
    (iterator : Plain ch.helpers names ch.iterator) : ch.reaches st a = true := by
  simp [Chunk.reaches, other, loaded.sees plain, loaded.sees iterator]

theorem Filled.fill {names : List String} (loaded : Filled ch st.arrays names st.locals)
    (a : String) :
    Filled ch st.arrays (names ++ [a]) (ch.fill st a).locals where
  filled := by
    intro b member
    by_cases same : b = a
    · rw [same, Chunk.fill_same]
    · rw [Chunk.fill_other st fun named => same (vecName_injective named)]
      refine loaded.filled b ?_
      simpa [same] using member
  free := by
    intro x other
    rw [Chunk.fill_other st (other a (by simp))]
    exact loaded.free x fun b member => other b (by simp [member])

/-- The state after some statements, of which each active lane has done its part. -/
structure Tracks (ch : Chunk K n) (before : VecState K n) (lanes : Fin n → Lane K)
    (st : VecState K n) : Prop where
  arrays : ∀ a j, st.arrays a j =
    ((ch.lane? j).map fun k => (lanes k).column a).getD (before.arrays a j)
  sums : ∀ k, st.sums k = if ch.active k then (lanes k).sum else before.sums k

theorem Tracks.scatter {lanes : Fin n → Lane K} (tracks : Tracks ch before lanes st) (array : String)
    {v value : Fin n → K} (fits : ∀ k, ch.active k = true → v k = value k) :
    Tracks ch before
      (fun k => { lanes k with column := Function.update (lanes k).column array (value k) })
      { st with arrays := ch.scatter st.arrays array v } where
  arrays := by
    intro a j
    show Function.update st.arrays array _ a j = _
    by_cases same : a = array
    · subst same
      rw [Function.update_self]
      cases found : ch.lane? j with
      | none => simpa [found] using tracks.arrays a j
      | some k => simp [fits k (Chunk.lane?_eq_some.mp found).1]
    · rw [Function.update_of_ne same, tracks.arrays a j]
      simp [Function.update_of_ne same]
  sums := tracks.sums

end Registers

/-! ## What lines do -/

section Run

variable {K : Type} [CommRing K] [Div K] {n : Nat} (ch : Chunk K n)

def VecTerm.run (st : VecState K n) : VecTerm → Option (Fin n → K)
  | load array => st.locals (LoopPattern.vecName array)
  | scalar x => if x != ch.iterator && ch.sees st x then some fun _ => ch.env x else none
  | literal text => some fun _ => ch.literals.value text
  | arith op x y => do
    let a ← x.run st
    let b ← y.run st
    return ch.merge a fun k => op.act (a k) (b k)

def VecLine.run (st : VecState K n) : VecLine → Option (VecState K n)
  | load array => if ch.reaches st array then some (ch.fill st array) else none
  | accumulate x => do
    let v ← x.run ch st
    match st.locals sumName with
    -- a register of the body hides the vector of sums
    | some s =>
      return { st with
        locals := Function.update st.locals sumName (some (ch.merge s fun k => s k + v k)) }
    | none => return { st with sums := ch.merge st.sums fun k => st.sums k + v k }
  | store array x => do
    let v ← x.run ch st
    if ch.reaches st array then return { st with arrays := ch.scatter st.arrays array v }
    else none

def runLines (lines : List VecLine) (st : VecState K n) : Option (VecState K n) :=
  lines.foldlM (fun st line => line.run ch st) st

variable {ch} {st : VecState K n}

/-! ## Loads -/

/-- The loads of a body fill its registers and change nothing else. -/
theorem run_loads (st : VecState K n) (todo done : List String)
    (loaded : Filled ch st.arrays done st.locals)
    (plain : ∀ a ∈ todo, a ≠ ch.iterator ∧ Plain ch.helpers (done ++ todo) a)
    (iterator : Plain ch.helpers (done ++ todo) ch.iterator) :
    ∃ locals, runLines ch (todo.map .load) st = some { st with locals := locals } ∧
      Filled ch st.arrays (done ++ todo) locals := by
  induction todo generalizing st done with
  | nil => exact ⟨st.locals, rfl, by simpa using loaded⟩
  | cons a todo ih =>
      have shift : done ++ a :: todo = (done ++ [a]) ++ todo := by simp
      have early {x : String} (all : Plain ch.helpers (done ++ a :: todo) x) :
          Plain ch.helpers done x :=
        ⟨all.1, fun b member => all.2 b (List.mem_append_left _ member)⟩
      have here := plain a List.mem_cons_self
      have reaches := loaded.reaches (early here.2) here.1 (early iterator)
      obtain ⟨locals, ran, filled⟩ := ih (ch.fill st a) (done ++ [a]) (loaded.fill a)
        (fun b member => shift ▸ plain b (List.mem_cons_of_mem _ member)) (shift ▸ iterator)
      refine ⟨locals, ?_, shift ▸ filled⟩
      rw [List.map_cons, runLines, List.foldlM_cons, VecLine.run, if_pos reaches]
      exact ran

/-! ## Terms -/

/-- In every active lane a term has the value it has on the elements that were loaded. -/
theorem run_term {arrays : String → Int → K} {names : List String}
    (loaded : Filled ch arrays names st.locals) (x : VecTerm) (loads : ∀ a ∈ x.loads, a ∈ names)
    (scalars : ∀ y ∈ x.scalars, y ≠ ch.iterator ∧ Plain ch.helpers names y) :
    ∃ v, x.run ch st = some v ∧
      ∀ k, ch.active k = true → v k = x.value ch.literals ch.env (ch.column arrays k) := by
  induction x with
  | load a =>
      refine ⟨_, loaded.filled a (loads a (by simp [VecTerm.loads])), fun k active => ?_⟩
      simp [Chunk.merge, active, VecTerm.value]
  | scalar y =>
      obtain ⟨other, plain⟩ := scalars y (by simp [VecTerm.scalars])
      refine ⟨fun _ => ch.env y, ?_, fun k _ => rfl⟩
      simp [VecTerm.run, other, loaded.sees plain]
  | literal text => exact ⟨_, rfl, fun k _ => rfl⟩
  | arith op x y ihx ihy =>
      simp only [VecTerm.loads, VecTerm.scalars, List.mem_append] at loads scalars
      obtain ⟨a, ranx, fitsx⟩ := ihx (fun a read => loads a (Or.inl read))
        fun z read => scalars z (Or.inl read)
      obtain ⟨b, rany, fitsy⟩ := ihy (fun a read => loads a (Or.inr read))
        fun z read => scalars z (Or.inr read)
      refine ⟨_, by simp only [VecTerm.run, ranx, rany]; rfl, fun k active => ?_⟩
      simp [Chunk.merge, active, VecTerm.value, fitsx k active, fitsy k active]

/-! ## Statements -/

variable {before : VecState K n} {lanes : Fin n → Lane K}

/-- A store writes the value of its term in every active lane. -/
theorem run_store {names : List String} (loaded : Filled ch before.arrays names st.locals)
    (tracks : Tracks ch before lanes st) {array : String} (reaches : ch.reaches st array = true)
    (x : VecTerm) (loads : ∀ a ∈ x.loads, a ∈ names)
    (scalars : ∀ y ∈ x.scalars, y ≠ ch.iterator ∧ Plain ch.helpers names y) :
    ∃ st', (VecLine.store array x).run ch st = some st' ∧ st'.locals = st.locals ∧
      Tracks ch before (fun k => { lanes k with
        column := Function.update (lanes k).column array
          (x.value ch.literals ch.env (ch.column before.arrays k)) }) st' := by
  obtain ⟨v, ran, fits⟩ := run_term loaded x loads scalars
  refine ⟨{ st with arrays := ch.scatter st.arrays array v }, ?_, rfl, tracks.scatter array fits⟩
  simp [VecLine.run, ran, reaches]

/-- A statement does in every active lane what it does there at once. -/
theorem run_stmt {names : List String} (loaded : Filled ch before.arrays names st.locals)
    (tracks : Tracks ch before lanes st) (t : VecStmt) (loads : ∀ a ∈ t.loads, a ∈ names)
    (iterator : Plain ch.helpers names ch.iterator)
    (plain : ∀ x ∈ t.loads ++ t.stored?.toList ++ t.scalars,
      x ≠ ch.iterator ∧ Plain ch.helpers names x)
    (sums : t.stored? = none → ∀ a ∈ names, sumName ≠ LoopPattern.vecName a) :
    ∃ st', t.line.run ch st = some st' ∧ st'.locals = st.locals ∧
      Tracks ch before
        (fun k => t.act ch.literals ch.env (ch.column before.arrays k) (lanes k)) st' := by
  have scalars : ∀ y ∈ t.scalars, y ≠ ch.iterator ∧ Plain ch.helpers names y := fun y read =>
    plain y (by simp [read])
  have reaches (array : String) (stores : t.stored? = some array) : ch.reaches st array = true := by
    obtain ⟨other, here⟩ := plain array (by simp [stores])
    exact loaded.reaches here other iterator
  cases t with
  | accumulate x =>
      obtain ⟨v, ran, fits⟩ := run_term loaded x loads scalars
      have outer : st.locals sumName = none := loaded.free _ (sums rfl)
      refine ⟨{ st with sums := ch.merge st.sums fun k => st.sums k + v k }, ?_, rfl,
        tracks.arrays, ?_⟩
      · simp [VecStmt.line, VecLine.run, ran, outer]
      · intro k
        by_cases active : ch.active k = true
        · simp [Chunk.merge, active, VecStmt.act, tracks.sums k, fits k active]
        · simp [Chunk.merge, active, tracks.sums k]
  | store array x => exact run_store loaded tracks (reaches array rfl) x loads scalars
  | update op array x =>
      refine run_store loaded tracks (reaches array rfl) (.arith op (.load array) x) ?_ scalars
      intro a read
      refine loads a ?_
      simpa [VecTerm.loads, VecStmt.loads, or_comm] using read

theorem run_stmts {names : List String} (stmts : List VecStmt)
    (loaded : Filled ch before.arrays names st.locals) (tracks : Tracks ch before lanes st)
    (loads : ∀ t ∈ stmts, ∀ a ∈ t.loads, a ∈ names) (iterator : Plain ch.helpers names ch.iterator)
    (plain : ∀ t ∈ stmts, ∀ x ∈ t.loads ++ t.stored?.toList ++ t.scalars,
      x ≠ ch.iterator ∧ Plain ch.helpers names x)
    (sums : ∀ t ∈ stmts, t.stored? = none → ∀ a ∈ names, sumName ≠ LoopPattern.vecName a) :
    ∃ st', runLines ch (stmts.map (·.line)) st = some st' ∧
      Tracks ch before
        (fun k => atOnce ch.literals ch.env (ch.column before.arrays k) stmts (lanes k)) st' := by
  induction stmts generalizing st lanes with
  | nil => exact ⟨st, rfl, tracks⟩
  | cons t stmts ih =>
      obtain ⟨st₁, ran, kept, tracked⟩ :=
        run_stmt loaded tracks t (loads t List.mem_cons_self) iterator
          (plain t List.mem_cons_self) (sums t List.mem_cons_self)
      obtain ⟨st₂, rest, done⟩ := ih (kept ▸ loaded) tracked
        (fun t later => loads t (List.mem_cons_of_mem _ later))
        (fun t later => plain t (List.mem_cons_of_mem _ later))
        (fun t later => sums t (List.mem_cons_of_mem _ later))
      refine ⟨st₂, ?_, done⟩
      rw [List.map_cons, runLines, List.foldlM_cons, ran]
      exact rest

/-- The lines of a body run to their end, and every active lane has done its part at once. -/
theorem run_lines {stmts : List VecStmt} (uncaptured : Uncaptured ch.iterator ch.helpers stmts)
    (arrays : String → Int → K) (sums : Fin n → K) :
    ∃ st, runLines ch (linesOf stmts) ⟨arrays, fun _ => none, sums⟩ = some st ∧
      Tracks ch ⟨arrays, fun _ => none, sums⟩
        (fun k => atOnce ch.literals ch.env (ch.column arrays k) stmts ⟨ch.column arrays k, sums k⟩)
        st := by
  have loads : ∀ t ∈ stmts, ∀ a ∈ t.loads, a ∈ loadedBy stmts := fun t member a read =>
    mem_loadedBy.mpr ⟨t, member, read⟩
  have names : ∀ a ∈ loadedBy stmts, a ≠ ch.iterator ∧ Plain ch.helpers (loadedBy stmts) a := by
    intro a member
    obtain ⟨t, listed, read⟩ := mem_loadedBy.mp member
    exact uncaptured.names t listed a (by simp [read])
  obtain ⟨locals, ran, loaded⟩ := run_loads ⟨arrays, fun _ => none, sums⟩ (loadedBy stmts) []
    ⟨by simp, fun _ _ => rfl⟩ names uncaptured.index
  have start : Tracks ch ⟨arrays, fun _ => none, sums⟩
      (fun k => ⟨ch.column arrays k, sums k⟩) ⟨arrays, locals, sums⟩ := by
    refine ⟨fun a j => ?_, fun k => by simp⟩
    cases found : ch.lane? j with
    | none => rfl
    | some k => simp [Chunk.column, (Chunk.lane?_eq_some.mp found).2]
  obtain ⟨st, rest, tracked⟩ := run_stmts stmts loaded start loads uncaptured.index uncaptured.names
    uncaptured.sums
  refine ⟨st, ?_, tracked⟩
  rw [linesOf, runLines, List.foldlM_append]
  exact (congrArg (· >>= _) ran).trans rest

end Run

end Retarget
