/-
# Proofs.Sweep -- round-robin passes over the blocks of a graph

The analyses of a flow graph recompute their blocks one after the other, in place, and pass
over all of them again and again.  Watched for one fact at a time, each of them is a set of
block numbers: a visit puts a block into the set exactly if a monotone rule says so of the set
as it stands.  This module says what such passes compute, whatever the rule.

* `iterate_pass_subset`: passes never leave a set that is closed under the rule;
* `subset_pass`: passes only add, once every member visited is one by the rule;
* `rule_iff_of_pass_eq`: a set that a pass leaves alone is a fixed point of the rule;
* `iterate_pass_stable`: below a bound `n` on the block numbers, `n` passes are enough.
-/
import Mathlib.Data.Set.Card
import Mathlib.Logic.Function.Iterate

namespace Retarget.Sweep

set_option autoImplicit false
set_option linter.dupNamespace false

/-- When a block is a member, given the members so far. -/
abbrev Rule := Set Nat → Nat → Prop

/-- More members make more members. -/
def Rule.Increasing (rule : Rule) : Prop := ∀ ⦃s t : Set Nat⦄, s ⊆ t → ∀ i, rule s i → rule t i

def visit (rule : Rule) (s : Set Nat) (i : Nat) : Set Nat :=
  {j | (j ≠ i ∧ j ∈ s) ∨ (j = i ∧ rule s i)}

def pass (rule : Rule) (order : List Nat) (s : Set Nat) : Set Nat := order.foldl (visit rule) s

/-- Every member that is visited is one by the rule. -/
def Supported (rule : Rule) (order : List Nat) (s : Set Nat) : Prop :=
  ∀ i ∈ order, i ∈ s → rule s i

variable {rule : Rule} {order : List Nat} {s t : Set Nat}

@[simp] theorem mem_visit {i j : Nat} :
    j ∈ visit rule s i ↔ (j ≠ i ∧ j ∈ s) ∨ (j = i ∧ rule s i) := Iff.rfl

theorem pass_cons (i : Nat) : pass rule (i :: order) s = pass rule order (visit rule s i) := rfl

/-! ## Closed sets bound the passes -/

theorem visit_subset (increasing : rule.Increasing) (closed : ∀ i, rule t i → i ∈ t)
    (sub : s ⊆ t) (i : Nat) : visit rule s i ⊆ t := by
  rintro j (⟨-, old⟩ | ⟨rfl, new⟩)
  · exact sub old
  · exact closed j (increasing sub j new)

theorem pass_subset (increasing : rule.Increasing) (closed : ∀ i, rule t i → i ∈ t)
    (sub : s ⊆ t) : pass rule order s ⊆ t := by
  induction order generalizing s with
  | nil => exact sub
  | cons i order ih => exact ih (visit_subset increasing closed sub i)

theorem iterate_pass_subset (increasing : rule.Increasing) (closed : ∀ i, rule t i → i ∈ t)
    (sub : s ⊆ t) (k : Nat) : (pass rule order)^[k] s ⊆ t := by
  induction k with
  | zero => exact sub
  | succ k ih =>
      rw [Function.iterate_succ_apply']
      exact pass_subset increasing closed ih

/-! ## Passes add members -/

theorem subset_visit {i : Nat} (supported : i ∈ s → rule s i) : s ⊆ visit rule s i := by
  intro j member
  by_cases same : j = i
  · subst same
    exact Or.inr ⟨rfl, supported member⟩
  · exact Or.inl ⟨same, member⟩

theorem Supported.visit (increasing : rule.Increasing) (supported : Supported rule order s)
    {i : Nat} (own : i ∈ s → rule s i) : Supported rule order (visit rule s i) := by
  rintro j listed (⟨-, old⟩ | ⟨rfl, new⟩)
  · exact increasing (subset_visit own) j (supported j listed old)
  · exact increasing (subset_visit own) j new

/-- A pass over part of the order keeps the whole order supported, and only adds. -/
theorem Supported.pass_of_subset (increasing : rule.Increasing) {part : List Nat}
    (within : part ⊆ order) (supported : Supported rule order s) :
    Supported rule order (pass rule part s) ∧ s ⊆ pass rule part s := by
  induction part generalizing s with
  | nil => exact ⟨supported, subset_rfl⟩
  | cons i part ih =>
      have own : i ∈ s → rule s i := supported i (within List.mem_cons_self)
      have rest : part ⊆ order := fun j member => within (List.mem_cons_of_mem i member)
      obtain ⟨kept, adds⟩ := ih rest (supported.visit increasing own)
      exact ⟨kept, (subset_visit own).trans adds⟩

theorem Supported.pass (increasing : rule.Increasing) (supported : Supported rule order s) :
    Supported rule order (pass rule order s) :=
  (supported.pass_of_subset increasing (List.Subset.refl order)).1

theorem subset_pass (increasing : rule.Increasing) (supported : Supported rule order s) :
    s ⊆ Sweep.pass rule order s :=
  (supported.pass_of_subset increasing (List.Subset.refl order)).2

theorem Supported.iterate (increasing : rule.Increasing) (supported : Supported rule order s)
    (k : Nat) : Supported rule order ((Sweep.pass rule order)^[k] s) := by
  induction k with
  | zero => exact supported
  | succ k ih =>
      rw [Function.iterate_succ_apply']
      exact ih.pass increasing

theorem subset_iterate (increasing : rule.Increasing) (supported : Supported rule order s)
    (k : Nat) : s ⊆ (Sweep.pass rule order)^[k] s := by
  induction k with
  | zero => exact subset_rfl
  | succ k ih =>
      rw [Function.iterate_succ_apply']
      exact ih.trans (subset_pass increasing (supported.iterate increasing k))

/-- A set that a pass leaves alone is a fixed point of the rule at every block visited. -/
theorem rule_iff_of_pass_eq (increasing : rule.Increasing) (supported : Supported rule order s)
    (fixed : Sweep.pass rule order s = s) {i : Nat} (listed : i ∈ order) : rule s i ↔ i ∈ s := by
  refine ⟨fun holds => ?_, supported i listed⟩
  obtain ⟨before, after, rfl⟩ := List.append_of_mem listed
  -- Up to the visit of `i` the set has grown to one between `s` and the fixed result.
  let mid := Sweep.pass rule before s
  have parts : Sweep.pass rule (before ++ i :: after) s
      = Sweep.pass rule after (visit rule mid i) := by
    simp [mid, Sweep.pass, List.foldl_append]
  obtain ⟨midSupported, grown⟩ := supported.pass_of_subset increasing
    (List.subset_append_left before (i :: after))
  have own : i ∈ mid → rule mid i := midSupported i listed
  have rest : after ⊆ before ++ i :: after := fun j member => by simp [member]
  have later := ((midSupported.visit increasing own).pass_of_subset increasing rest).2
  have joined : i ∈ visit rule mid i := Or.inr ⟨rfl, increasing grown i holds⟩
  rw [← fixed, parts]
  exact later joined

/-! ## Enough passes -/

theorem visit_bounded {n i : Nat} (bounded : ∀ j ∈ s, j < n) (low : i < n) :
    ∀ j ∈ visit rule s i, j < n := by
  rintro j (⟨-, old⟩ | ⟨rfl, -⟩)
  · exact bounded j old
  · exact low

theorem pass_bounded {n : Nat} (low : ∀ i ∈ order, i < n) (bounded : ∀ j ∈ s, j < n) :
    ∀ j ∈ pass rule order s, j < n := by
  induction order generalizing s with
  | nil => exact bounded
  | cons i order ih =>
      exact ih (fun j member => low j (List.mem_cons_of_mem i member))
        (visit_bounded bounded (low i List.mem_cons_self))

theorem iterate_pass_bounded {n : Nat} (low : ∀ i ∈ order, i < n) (bounded : ∀ j ∈ s, j < n)
    (k : Nat) : ∀ j ∈ (pass rule order)^[k] s, j < n := by
  induction k with
  | zero => exact bounded
  | succ k ih =>
      rw [Function.iterate_succ_apply']
      exact pass_bounded low ih

theorem subset_range {n : Nat} (bounded : ∀ j ∈ s, j < n) : s ⊆ Finset.range n := by
  intro j member
  simpa using bounded j member

/-- Either a pass changes nothing any more, or every pass so far has added a member. -/
theorem iterate_pass_eq_or_card (increasing : rule.Increasing)
    (supported : Supported rule order s) {n : Nat} (low : ∀ i ∈ order, i < n)
    (bounded : ∀ j ∈ s, j < n) (k : Nat) :
    (pass rule order)^[k + 1] s = (pass rule order)^[k] s ∨
      k + 1 ≤ ((pass rule order)^[k + 1] s).ncard := by
  have grows : ∀ m, (pass rule order)^[m] s ⊆ (pass rule order)^[m + 1] s := by
    intro m
    rw [Function.iterate_succ_apply']
    exact subset_pass increasing (supported.iterate increasing m)
  have finite : ∀ m, ((pass rule order)^[m] s).Finite := fun m =>
    (Finset.range n).finite_toSet.subset (subset_range (iterate_pass_bounded low bounded m))
  induction k with
  | zero =>
      by_cases same : (pass rule order)^[1] s = (pass rule order)^[0] s
      · exact Or.inl same
      · have strict := Set.ncard_lt_ncard ((grows 0).ssubset_of_ne (Ne.symm same)) (finite 1)
        exact Or.inr (by omega)
  | succ k ih =>
      rcases ih with still | many
      · refine Or.inl ?_
        calc (pass rule order)^[k + 2] s
            = pass rule order ((pass rule order)^[k + 1] s) := Function.iterate_succ_apply' ..
          _ = pass rule order ((pass rule order)^[k] s) := congrArg _ still
          _ = (pass rule order)^[k + 1] s := (Function.iterate_succ_apply' ..).symm
      · by_cases same : (pass rule order)^[k + 2] s = (pass rule order)^[k + 1] s
        · exact Or.inl same
        · have strict := Set.ncard_lt_ncard ((grows (k + 1)).ssubset_of_ne (Ne.symm same))
            (finite (k + 2))
          exact Or.inr (by omega)

/-- As many passes as there are blocks reach a set that no further pass changes. -/
theorem iterate_pass_stable (increasing : rule.Increasing) (supported : Supported rule order s)
    {n : Nat} (low : ∀ i ∈ order, i < n) (bounded : ∀ j ∈ s, j < n) {k : Nat} (enough : n ≤ k) :
    pass rule order ((pass rule order)^[k] s) = (pass rule order)^[k] s := by
  rw [← Function.iterate_succ_apply' (pass rule order) k s]
  rcases iterate_pass_eq_or_card increasing supported low bounded k with same | many
  · exact same
  · have within : (pass rule order)^[k + 1] s ⊆ Finset.range n :=
      subset_range (iterate_pass_bounded low bounded (k + 1))
    have few := Set.ncard_le_ncard within (Finset.range n).finite_toSet
    rw [Set.ncard_coe_finset, Finset.card_range] at few
    omega

end Retarget.Sweep
