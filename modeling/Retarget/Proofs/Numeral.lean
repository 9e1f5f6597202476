/-
# Proofs.Numeral -- numbers as text are read back

The decimal digits of a number are read as the number unless it leaves the range
(`readDigits_digits`).  So a number of 64 bits that is written in a document without quotes stands
for itself (`Yaml.senseOf_toString`).
-/
import Mathlib.Data.List.TakeWhile
import Retarget.Yaml.Scalar

namespace Retarget

set_option autoImplicit false
set_option linter.dupNamespace false

namespace Text

theorem le_ofDigitChars (cs : List Char) (n : Nat) : n ≤ Nat.ofDigitChars 10 cs n := by
  induction cs generalizing n with
  | nil => simp
  | cons c cs ih =>
      rw [Nat.ofDigitChars_cons]
      exact Nat.le_trans (by omega) (ih _)

/-- Digits are read as the number they spell, unless it leaves the range. -/
theorem readDigits_digits (underscores : Bool) (cs : List Char)
    (digits : ∀ c ∈ cs, c.isDigit = true) (n : Nat) :
    readDigits 10 underscores n cs = some (Nat.ofDigitChars 10 cs n, true) ∨
      maxWord64 < Nat.ofDigitChars 10 cs n ∧
        readDigits 10 underscores n cs = some (maxWord64, false) := by
  induction cs generalizing n with
  | nil => exact Or.inl (by simp [readDigits])
  | cons c cs ih =>
      have digit : '0' ≤ c ∧ c ≤ '9' := by
        simpa [Char.isDigit, Char.le_def] using digits c List.mem_cons_self
      have value : digitValue? c = some (c.toNat - '0'.toNat) := by simp [digitValue?, digit]
      have small : ¬10 ≤ c.toNat - '0'.toNat := by
        have high : c.toNat ≤ '9'.toNat := digit.2
        simp only [Char.reduceToNat] at high ⊢
        omega
      have plain : (c == '_') = false := by
        rw [beq_eq_false_iff_ne]
        rintro rfl
        exact absurd digit.2 (by decide)
      have shift : n * 10 + (c.toNat - '0'.toNat) = 10 * n + (c.toNat - '0'.toNat) := by omega
      simp only [readDigits, plain, Bool.false_and, Bool.false_eq_true, if_false, value, small]
      rw [shift, Nat.ofDigitChars_cons]
      split
      · rename_i beyond
        exact Or.inr ⟨Nat.lt_of_lt_of_le beyond (le_ofDigitChars _ _), rfl⟩
      · exact ih (fun c member => digits c (List.mem_cons_of_mem _ member)) _

theorem splitSign_digits {cs : List Char} (digits : ∀ c ∈ cs, c.isDigit = true) :
    splitSign cs = (false, cs) := by
  unfold splitSign
  split
  · exact absurd (digits _ List.mem_cons_self) (by decide)
  · exact absurd (digits _ List.mem_cons_self) (by decide)
  · rfl

/-! ## The decimal digits of a number -/

theorem isDigit_of_mem_toDigits {n : Nat} {c : Char} (member : c ∈ Nat.toDigits 10 n) :
    c.isDigit = true :=
  Nat.isDigit_of_mem_toDigits (by decide) (by decide) member

theorem readDigits_toDigits (underscores : Bool) {n : Nat} (fits : n ≤ maxWord64) :
    readDigits 10 underscores 0 (Nat.toDigits 10 n) = some (n, true) := by
  have read := readDigits_digits underscores (Nat.toDigits 10 n)
    (fun _ => isDigit_of_mem_toDigits) 0
  rw [Nat.ofDigitChars_ten_toDigits] at read
  exact read.resolve_right fun beyond => absurd beyond.1 (by omega)

/-- Only zero starts with a zero. -/
theorem head_toDigits {n : Nat} {c : Char} {cs : List Char} (first : Nat.toDigits 10 n = c :: cs)
    (positive : 0 < n) : c ≠ '0' := by
  induction n using Nat.strongRecOn generalizing cs with
  | ind n ih =>
      rcases Nat.lt_or_ge n 10 with small | large
      · rw [Nat.toDigits_of_lt_base small, List.cons.injEq] at first
        have digit : n ∈ [1, 2, 3, 4, 5, 6, 7, 8, 9] := by
          simp only [List.mem_cons, List.not_mem_nil, or_false]
          omega
        have differ : ∀ d ∈ [1, 2, 3, 4, 5, 6, 7, 8, 9], Nat.digitChar d ≠ '0' := by decide
        exact first.1 ▸ differ n digit
      · rw [Nat.toDigits_of_base_le (by decide) large] at first
        cases front : Nat.toDigits 10 (n / 10) with
        | nil => exact absurd front Nat.toDigits_ne_nil
        | cons d ds =>
            rw [front, List.cons_append, List.cons.injEq] at first
            exact ih (n / 10) (by omega) (first.1 ▸ front) (by omega)

/-- The digits of a number are read as a literal of base ten, or as the octal zero. -/
theorem readDigits_literalBase {n : Nat} (fits : n ≤ maxWord64) :
    readDigits (literalBase (Nat.toDigits 10 n)).1 true 0 (literalBase (Nat.toDigits 10 n)).2.1 =
        some (n, true) ∧ '_' ∉ (literalBase (Nat.toDigits 10 n)).2.1 := by
  rcases Nat.eq_zero_or_pos n with rfl | positive
  · exact ⟨rfl, by decide⟩
  · have ten : literalBase (Nat.toDigits 10 n) = (10, Nat.toDigits 10 n, '^') := by
      unfold literalBase
      split
      · rename_i first
        exact absurd rfl (head_toDigits first positive)
      · rename_i first
        exact absurd rfl (head_toDigits first positive)
      · rfl
    rw [ten]
    exact ⟨readDigits_toDigits true fits, Nat.underscore_not_in_toDigits⟩

theorem toList_toString (n : Int) : (toString n).toList =
    if n < 0 then '-' :: Nat.toDigits 10 n.natAbs else Nat.toDigits 10 n.natAbs := by
  have natural (m : Nat) : (Nat.repr m).toList = Nat.toDigits 10 m := by
    rw [Nat.repr_eq_ofList_toDigits, String.toList_ofList]
  rw [Int.toString_eq_repr]
  cases n with
  | ofNat m => simp [Int.repr, natural]
  | negSucc m =>
      rw [if_pos (Int.negSucc_lt_zero m), Int.natAbs_negSucc]
      simp [Int.repr, natural]

/-- A number of 64 bits is read back as a literal. -/
theorem readLiteral_toString {n : Int} (least : minInt64 ≤ n) (most : n ≤ maxInt64) :
    readLiteral (toString n) = .value n := by
  simp only [minInt64, maxInt64] at least most
  obtain ⟨read, plain⟩ := readDigits_literalBase (n := n.natAbs) (by simp only [maxWord64]; omega)
  have some : (Nat.toDigits 10 n.natAbs).isEmpty = false := by
    simp [List.isEmpty_eq_false_iff, Nat.toDigits_ne_nil]
  have contains : (literalBase (Nat.toDigits 10 n.natAbs)).2.1.contains '_' = false := by
    simpa using plain
  by_cases negative : n < 0
  · have within : ¬9223372036854775808 < n.natAbs := by omega
    have value : -(n.natAbs : Int) = n := by omega
    have chars := toList_toString n
    rw [if_pos negative] at chars
    simp only [readLiteral, chars, splitSign, some, read, contains, Bool.and_false, Bool.false_and,
      Bool.false_eq_true, if_false, signed, Bool.not_true, Bool.false_or, if_true, decide_eq_true_eq,
      within, value]
  · have within : ¬9223372036854775807 < n.natAbs := by omega
    have value : (n.natAbs : Int) = n := by omega
    have chars := toList_toString n
    rw [if_neg negative] at chars
    simp only [readLiteral, chars, splitSign_digits fun _ => isDigit_of_mem_toDigits, some, read,
      contains, Bool.and_false, Bool.false_and, Bool.false_eq_true, if_false, signed, Bool.not_true,
      Bool.false_or, decide_eq_true_eq, within, value]

end Text

namespace Yaml

open Retarget.Text (minInt64 maxInt64)

/-- A sign or none, and a digit. -/
def startsNumber (cs : List Char) : Bool :=
  match cs with
  | '-' :: c :: _ => isDigit c
  | c :: _ => isDigit c
  | [] => false

theorem startsNumber_toString (n : Int) : startsNumber (toString n).toList = true := by
  have digit {c : Char} (member : c ∈ Nat.toDigits 10 n.natAbs) : isDigit c = true := by
    simpa [isDigit, Char.isDigit, Char.le_def] using Text.isDigit_of_mem_toDigits member
  rw [Text.toList_toString]
  cases digits : Nat.toDigits 10 n.natAbs with
  | nil => exact absurd digits Nat.toDigits_ne_nil
  | cons c cs =>
      have first : isDigit c = true := digit (digits ▸ List.mem_cons_self)
      split
      · exact first
      · unfold startsNumber
        split
        · rename_i same
          obtain ⟨rfl, -⟩ := List.cons.inj same
          exact absurd first (by decide)
        · rename_i same
          obtain ⟨rfl, -⟩ := List.cons.inj same
          exact first
        · rename_i same
          cases same

theorem words_lookup_toString (n : Int) : words.lookup (toString n) = none := by
  have words : ∀ entry ∈ words, startsNumber entry.1.toList = false := by decide
  rw [List.lookup_eq_none_iff]
  intro entry listed
  rw [bne_iff_ne]
  intro same
  have starts := startsNumber_toString n
  rw [same, words entry listed] at starts
  cases starts

/-- A number has no second part, so it is no date. -/
theorem isTime_toString (n : Int) : isTime (toString n).toList = false := by
  have digit : ∀ c ∈ Nat.toDigits 10 n.natAbs, isDigit c = true := fun c member => by
    simpa [isDigit, Char.isDigit, Char.le_def] using Text.isDigit_of_mem_toDigits member
  have noDate : date? (toString n).toList = none := by
    rw [Text.toList_toString]
    split
    · rfl
    · unfold date?
      rw [List.takeWhile_eq_self_iff.mpr digit]
      simp only [bne_iff_ne, ne_eq, ite_not]
      split
      · rename_i four
        rw [List.drop_eq_nil_of_le (Nat.le_of_eq four)]
        rfl
      · rfl
  rw [isTime, noDate]

/-- A number of 64 bits stands for itself. -/
theorem senseOf_toString {n : Int} (least : minInt64 ≤ n) (most : n ≤ maxInt64) :
    senseOf (toString n) = .integer n := by
  have plain : (toString n).toList.filter (· != '_') = (toString n).toList := by
    rw [List.filter_eq_self]
    intro c listed
    rw [Text.toList_toString] at listed
    rw [bne_iff_ne]
    rintro rfl
    split at listed
    · exact Nat.underscore_not_in_toDigits ((List.mem_cons.mp listed).resolve_left (by decide))
    · exact Nat.underscore_not_in_toDigits listed
  have number : numberSense (toString n).toList = .integer n := by
    unfold numberSense integer?
    simp only [plain, String.ofList_toList, Text.readLiteral_toString least most,
      Text.IntegerReading.value?]
  have starts := startsNumber_toString n
  have time := isTime_toString n
  unfold senseOf
  rw [words_lookup_toString]
  cases chars : (toString n).toList with
  | nil =>
      rw [chars] at starts
      cases starts
  | cons c cs =>
      rw [chars] at starts time number
      have open_ : (isDigit c || c == '+' || c == '-') = true := by
        unfold startsNumber at starts
        split at starts
        · rename_i same
          obtain ⟨rfl, -⟩ := List.cons.inj same
          rfl
        · rename_i same
          obtain ⟨rfl, -⟩ := List.cons.inj same
          simp [starts]
        · cases starts
      simp only [open_, if_true, time, Bool.false_eq_true, if_false, number]

end Yaml

end Retarget
