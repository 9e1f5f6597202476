/-
# Proofs.WordList -- words without repetition

Only new words are added to a list (`addNew_nodup`), and sorted words stand in one order.  So the
sorted list of the distinct words of a list increases (`distinct_pairwise`) and is told by the words
in it (`eq_of_pairwise`).
-/
import Mathlib.Data.List.Nodup
import Mathlib.Data.List.Perm.Basic
import Retarget.Text.Basic

namespace Retarget.Text

set_option autoImplicit false
set_option linter.dupNamespace false

theorem addNew_nodup {words : List String} (once : words.Nodup) (more : List String) :
    (addNew words more).Nodup := by
  induction more generalizing words with
  | nil => exact once
  | cons w more ih =>
      have unfolded : addNew words (w :: more)
          = addNew (if words.contains w then words else words ++ [w]) more := rfl
      rw [unfolded]
      split
      · exact ih once
      · rename_i fresh
        have absent : w ∉ words := by simpa using fresh
        refine ih (List.nodup_append.mpr ⟨once, by simp, ?_⟩)
        intro x known y single same
        obtain rfl := List.mem_singleton.mp single
        exact absent (same ▸ known)

theorem mem_addNew {w : String} (words more : List String) :
    w ∈ addNew words more ↔ w ∈ words ∨ w ∈ more := by
  induction more generalizing words with
  | nil => simp [addNew]
  | cons x more ih =>
      have unfolded : addNew words (x :: more) =
          addNew (if words.contains x then words else words ++ [x]) more := rfl
      rw [unfolded, ih, List.mem_cons]
      by_cases known : x ∈ words
      · rw [if_pos (List.contains_iff_mem.mpr known)]
        constructor
        · rintro (old | later)
          · exact Or.inl old
          · exact Or.inr (Or.inr later)
        · rintro (old | rfl | later)
          · exact Or.inl old
          · exact Or.inl known
          · exact Or.inr later
      · rw [if_neg (fun found => known (List.contains_iff_mem.mp found)), List.mem_append,
          List.mem_singleton, or_assoc]

theorem addNew_append (words more others : List String) :
    addNew words (more ++ others) = addNew (addNew words more) others :=
  List.foldl_append

/-- Whether words are added one by one or after their repetitions are gone. -/
theorem addNew_addNew (words known more : List String) :
    addNew words (addNew known more) = addNew (addNew words known) more := by
  induction more generalizing known with
  | nil => rfl
  | cons w more ih =>
      have unfolded (l : List String) :
          addNew l (w :: more) = addNew (if l.contains w then l else l ++ [w]) more := rfl
      rw [unfolded, unfolded, ih]
      refine congrArg (addNew · more) ?_
      by_cases member : w ∈ known
      · have later : w ∈ addNew words known := (mem_addNew words known).mpr (.inr member)
        rw [if_pos (List.contains_iff_mem.mpr member), if_pos (List.contains_iff_mem.mpr later)]
      · rw [if_neg (fun found => member (List.contains_iff_mem.mp found)), addNew_append]
        rfl

theorem addNew_nil_eq_nil_iff {more : List String} : addNew [] more = [] ↔ more = [] := by
  simp [List.eq_nil_iff_forall_not_mem, mem_addNew]

theorem mem_distinct {w : String} {words : List String} :
    w ∈ sorted (addNew [] words) ↔ w ∈ words := by
  rw [sorted, (List.mergeSort_perm _ _).mem_iff, mem_addNew]
  simp

theorem distinct_nodup (words : List String) : (sorted (addNew [] words)).Nodup :=
  (List.mergeSort_perm _ _).nodup_iff.mpr (addNew_nodup List.nodup_nil words)

/-- The distinct words of a list, sorted, increase. -/
theorem distinct_pairwise (words : List String) : (sorted (addNew [] words)).Pairwise (· < ·) := by
  have ordered : (sorted (addNew [] words)).Pairwise fun a b => (!decide (b < a)) = true := by
    refine List.pairwise_mergeSort (fun a b c ab bc => ?_) (fun a b => ?_) _
    · simp only [Bool.not_eq_true', decide_eq_false_iff_not, String.not_lt] at *
      exact String.le_trans ab bc
    · simp only [Bool.or_eq_true, Bool.not_eq_true', decide_eq_false_iff_not, String.not_lt]
      exact String.le_total a b
  refine (ordered.and (distinct_nodup words)).imp ?_
  rintro a b ⟨before, differ⟩
  simp only [Bool.not_eq_true', decide_eq_false_iff_not] at before
  by_contra after
  exact differ (String.le_antisymm (String.not_lt.mp before) (String.not_lt.mp after))

/-- Words that increase are told by which they are. -/
theorem eq_of_pairwise {words others : List String} (increase : words.Pairwise (· < ·))
    (increase' : others.Pairwise (· < ·)) (same : ∀ w, w ∈ words ↔ w ∈ others) :
    words = others := by
  have once {l : List String} (up : l.Pairwise (· < ·)) : l.Nodup :=
    List.Pairwise.imp (fun {a b} (less : a < b) (equal : a = b) =>
      String.lt_irrefl b (equal ▸ less)) up
  refine List.Perm.eq_of_pairwise (fun a b _ _ ab ba => ?_) increase increase'
    ((List.perm_ext_iff_of_nodup (once increase) (once increase')).mpr same)
  exact absurd (String.lt_trans ab ba) (String.lt_irrefl a)

end Retarget.Text
