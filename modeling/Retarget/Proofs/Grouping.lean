/-
# Proofs.Grouping -- lists by key

A list falls into the parts of its members with the same key (`perm_flatMap_filter`).  A list put
together from parts is the one part that is not empty (`flatMap_eq_of_unique`), and has no
repetition if no part has and no two share a member (`nodup_flatMap_of_apart`).  A table that lists
each key once answers with what stands beside the key (`lookup_eq_some_iff_mem`).  A key taken out of
a table is gone, and nothing else is (`lookup_filter_self`, `lookup_filter_of_ne`).
-/
import Mathlib.Data.List.Nodup
import Mathlib.Data.List.Perm.Basic

namespace Retarget

set_option autoImplicit false
set_option linter.dupNamespace false

variable {α β : Type}

/-- A list falls into the parts that belong to each key. -/
theorem perm_flatMap_filter [DecidableEq β] (key : α → β) {keys : List β} (once : keys.Nodup)
    (xs : List α) (keyed : ∀ x ∈ xs, key x ∈ keys) :
    xs.Perm (keys.flatMap fun k => xs.filter (key · == k)) := by
  induction keys generalizing xs with
  | nil =>
      have none : xs = [] :=
        List.eq_nil_iff_forall_not_mem.mpr fun x member => nomatch keyed x member
      rw [none]
      exact .refl _
  | cons k keys ih =>
      obtain ⟨fresh, rest⟩ := List.nodup_cons.mp once
      have others : ∀ x ∈ xs.filter (fun x => !(key x == k)), key x ∈ keys := by
        intro x member
        obtain ⟨listed, other⟩ := List.mem_filter.mp member
        exact (List.mem_cons.mp (keyed x listed)).resolve_left (by simpa using other)
      have later : (keys.flatMap fun k' => (xs.filter fun x => !(key x == k)).filter (key · == k'))
          = keys.flatMap fun k' => xs.filter (key · == k') := by
        refine List.flatMap_congr fun k' listed => ?_
        rw [List.filter_filter]
        refine List.filter_congr fun x _ => ?_
        have different : k' ≠ k := fun same => fresh (same ▸ listed)
        by_cases here : key x = k' <;> simp [here, different]
      rw [List.flatMap_cons, ← later]
      exact (List.filter_append_perm (key · == k) xs).symm.trans ((ih rest _ others).append_left _)

/-- Where all parts but one are empty, the list is that part. -/
theorem flatMap_eq_of_unique {xs : List α} {f : α → List β} {x : α}
    (once : xs.Nodup) (member : x ∈ xs) (others : ∀ y ∈ xs, y ≠ x → f y = []) :
    xs.flatMap f = f x := by
  obtain ⟨before, after, rfl⟩ := List.append_of_mem member
  rw [List.nodup_append, List.nodup_cons] at once
  obtain ⟨-, ⟨notAfter, -⟩, notBefore⟩ := once
  have none {ys : List α} (within : ∀ y ∈ ys, y ∈ before ++ x :: after ∧ y ≠ x) :
      ys.flatMap f = [] :=
    List.flatMap_eq_nil_iff.mpr fun y listed => others y (within y listed).1 (within y listed).2
  have left : before.flatMap f = [] := none fun y listed =>
    ⟨List.mem_append_left _ listed, notBefore y listed x List.mem_cons_self⟩
  have right : after.flatMap f = [] := none fun y listed =>
    ⟨List.mem_append_right _ (List.mem_cons_of_mem _ listed), fun same => notAfter (same ▸ listed)⟩
  rw [List.flatMap_append, List.flatMap_cons, left, right, List.nil_append, List.append_nil]

/-- Lists put together have no repetition if none has and no two share a member. -/
theorem nodup_flatMap_of_apart {xs : List α} {f : α → List β} (once : xs.Nodup)
    (each : ∀ x ∈ xs, (f x).Nodup)
    (apart : ∀ x ∈ xs, ∀ x' ∈ xs, ∀ y, y ∈ f x → y ∈ f x' → x = x') : (xs.flatMap f).Nodup := by
  refine List.nodup_flatMap.mpr ⟨each, List.Pairwise.imp_of_mem ?_ once⟩
  intro x x' listed listed' differ y left right
  exact differ (apart x listed x' listed' y left right)

/-- Lists put together by distinct keys have no repetition if their members tell the key. -/
theorem nodup_flatMap_of_key {xs : List α} {f : α → List β} (key : β → α)
    (once : xs.Nodup) (each : ∀ x ∈ xs, (f x).Nodup) (told : ∀ x ∈ xs, ∀ y ∈ f x, key y = x) :
    (xs.flatMap f).Nodup :=
  nodup_flatMap_of_apart once each fun x listed x' listed' y left right =>
    (told x listed y left).symm.trans (told x' listed' y right)

/-- In a table that lists each key once, looking a key up finds the entry that has it. -/
theorem lookup_eq_some_iff_mem [BEq α] [LawfulBEq α] {table : List (α × β)}
    (once : (table.map (·.1)).Nodup) {k : α} {v : β} :
    table.lookup k = some v ↔ (k, v) ∈ table := by
  induction table with
  | nil => simp
  | cons entry table ih =>
      obtain ⟨k', v'⟩ := entry
      obtain ⟨fresh, rest⟩ := List.nodup_cons.mp once
      rw [List.lookup_cons]
      by_cases same : k = k'
      · subst same
        have elsewhere : (k, v) ∉ table := fun listed => fresh (List.mem_map_of_mem (f := (·.1)) listed)
        simp [elsewhere, eq_comm]
      · have differ : (k == k') = false := beq_eq_false_iff_ne.mpr same
        simp [differ, same, ih rest]

/-- Taking a key out of a table leaves what stands beside the others. -/
theorem lookup_filter_of_ne [BEq α] [LawfulBEq α] {k key : α} (other : k ≠ key)
    (table : List (α × β)) : (table.filter (·.1 != key)).lookup k = table.lookup k := by
  induction table with
  | nil => rfl
  | cons entry table ih =>
      obtain ⟨k', v⟩ := entry
      by_cases gone : k' = key
      · have differ : (k == k') = false := beq_eq_false_iff_ne.mpr (gone ▸ other)
        rw [List.filter_cons_of_neg (by simpa using gone), List.lookup_cons, differ, ih]
      · rw [List.filter_cons_of_pos (by simpa using gone), List.lookup_cons, List.lookup_cons, ih]

/-- Nothing is found under a key that is taken out of a table. -/
theorem lookup_filter_self [BEq α] [LawfulBEq α] (key : α) (table : List (α × β)) :
    (table.filter (·.1 != key)).lookup key = none := by
  rw [List.lookup_eq_none_iff]
  intro entry kept
  have other : entry.1 ≠ key := by simpa using (List.mem_filter.mp kept).2
  exact bne_iff_ne.mpr other.symm

end Retarget
