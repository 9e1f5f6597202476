/-
# Proofs.BlockSet -- a row of words is a set of blocks

Block `i` is bit `i % 64` of word `i / 64`.  `has_eq_testBit` reads membership off the word; the
other lemmas say what each operation does to membership, for every block number, and to the
number of words.
-/
import Mathlib.Data.Nat.Bitwise
import Retarget.Flow.PostDominance

namespace Retarget.BlockSet

set_option autoImplicit false
set_option linter.dupNamespace false

/-- The number of words for blocks below `n`. -/
def words (n : Nat) : Nat := (n + 63) / 64

theorem word_lt {i n : Nat} (low : i < n) : i / 64 < words n := by
  unfold words
  omega

theorem bit_toNat (i : Nat) : (bit i).toNat = 2 ^ (i % 64) := by
  have small : 2 ^ (i % 64) < 2 ^ 64 := Nat.pow_lt_pow_right (by omega) (Nat.mod_lt i (by omega))
  have place : (UInt64.ofNat i % 64).toNat = i % 64 := by
    simp only [UInt64.toNat_mod, UInt64.toNat_ofNat', UInt64.reduceToNat]
    omega
  rw [bit, UInt64.toNat_shiftLeft, place, Nat.mod_mod_of_dvd _ (by decide), Nat.shiftLeft_eq]
  simpa using small

theorem has_eq_testBit (s : BlockSet) (i : Nat) :
    s.has i = (s.getD (i / 64) 0).toNat.testBit (i % 64) := by
  have word : (s.getD (i / 64) 0 &&& bit i).toNat
      = ((s.getD (i / 64) 0).toNat.testBit (i % 64)).toNat * 2 ^ (i % 64) := by
    rw [UInt64.toNat_and, bit_toNat, Nat.and_two_pow]
  unfold has
  cases held : (s.getD (i / 64) 0).toNat.testBit (i % 64) with
  | false =>
      rw [held] at word
      have zero : s.getD (i / 64) 0 &&& bit i = 0 := UInt64.toNat_inj.mp (by simpa using word)
      rw [zero, bne_self_eq_false]
  | true =>
      refine bne_iff_ne.mpr fun zero => ?_
      rw [held, zero] at word
      have positive : 0 < 2 ^ (i % 64) := Nat.two_pow_pos _
      simp only [UInt64.toNat_zero, Bool.toNat_true, Nat.one_mul] at word
      omega

theorem has_none (n i : Nat) : (none n).has i = false := by
  have zero : (none n).getD (i / 64) 0 = 0 := by
    simp only [none, List.getD_eq_getElem?_getD, List.getElem?_replicate]
    split <;> rfl
  rw [has_eq_testBit, zero]
  simp

theorem has_insert {s : BlockSet} {i j : Nat} (room : j / 64 < s.length) :
    (s.insert j).has i = (s.has i || i == j) := by
  rw [has_eq_testBit, has_eq_testBit, insert]
  by_cases same : i / 64 = j / 64
  · have value : (s.modify (j / 64) (· ||| bit j)).getD (i / 64) 0
        = s.getD (i / 64) 0 ||| bit j := by
      simp [List.getD_eq_getElem?_getD, same, room]
    have place : decide (j % 64 = i % 64) = (i == j) := by
      rw [beq_eq_decide]
      exact decide_eq_decide.mpr (by omega)
    rw [value, UInt64.toNat_or, bit_toNat, Nat.testBit_or, Nat.testBit_two_pow, place]
  · have differ : i ≠ j := fun equal => same (by rw [equal])
    simp [List.getD_eq_getElem?_getD, Ne.symm same, differ]

theorem has_inter (a b : BlockSet) (i : Nat) : (a.inter b).has i = (a.has i && b.has i) := by
  simp only [has_eq_testBit, inter, List.getD_eq_getElem?_getD, List.getElem?_zipWith]
  cases a[i / 64]? <;> cases b[i / 64]? <;> simp

@[simp] theorem length_none (n : Nat) : (none n).length = words n := by simp [none, words]

@[simp] theorem length_insert (s : BlockSet) (i : Nat) : (s.insert i).length = s.length := by
  simp [insert]

theorem length_inter {a b : BlockSet} {n : Nat} (left : a.length = n) (right : b.length = n) :
    (a.inter b).length = n := by
  simp [inter, left, right]

theorem length_foldl_insert (s : BlockSet) (is : List Nat) :
    (is.foldl insert s).length = s.length := by
  induction is generalizing s with
  | nil => rfl
  | cons i is ih => rw [List.foldl_cons, ih, length_insert]

@[simp] theorem length_all (n : Nat) : (all n).length = words n := by
  rw [all, length_foldl_insert, length_none]

theorem has_foldl_insert {s : BlockSet} {is : List Nat} (room : ∀ j ∈ is, j / 64 < s.length)
    (i : Nat) : (is.foldl insert s).has i = (s.has i || is.contains i) := by
  induction is generalizing s with
  | nil => simp
  | cons j is ih =>
      have later : ∀ k ∈ is, k / 64 < (s.insert j).length := by
        intro k member
        rw [length_insert]
        exact room k (List.mem_cons_of_mem j member)
      rw [List.foldl_cons, ih later, has_insert (room j List.mem_cons_self), List.contains_cons,
        Bool.or_assoc]

theorem has_all {n i : Nat} (low : i < n) : (all n).has i = true := by
  have room : ∀ j ∈ List.range n, j / 64 < (none n).length := by
    intro j listed
    rw [length_none]
    exact word_lt (List.mem_range.mp listed)
  rw [all, has_foldl_insert room, has_none]
  simpa using low

end Retarget.BlockSet
