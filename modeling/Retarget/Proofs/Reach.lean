/-
# Proofs.Reach -- breadth-first search meets what can be reached, each node once

The nodes met so far are those already expanded followed by those in the queue, none twice.
All of them can be reached, and what an expanded node leads to has been met (`Exploring`).
A step expands the head of the queue and keeps this (`Exploring.step`).  If all that can be
reached fits in a list, as many steps as the list is long empty the queue, and then the nodes
met are exactly the reachable ones (`mem_explore`, `explore_nodup`).
-/
import Mathlib.Data.List.Perm.Subperm
import Mathlib.Logic.Relation
import Retarget.Reach

namespace Retarget

set_option autoImplicit false
set_option linter.dupNamespace false

variable {α : Type} {next : α → List α} {starts : List α}

/-- Some start leads to the node. -/
def Reachable (next : α → List α) (starts : List α) (x : α) : Prop :=
  ∃ s ∈ starts, Relation.ReflTransGen (fun a b => b ∈ next a) s x

/-- The search has expanded `done` and has `queue` before it. -/
structure Exploring (next : α → List α) (starts done queue : List α) : Prop where
  once : (done ++ queue).Nodup
  begun : ∀ x ∈ starts, x ∈ done ++ queue
  found : ∀ x ∈ done ++ queue, Reachable next starts x
  closed : ∀ x ∈ done, ∀ y ∈ next x, y ∈ done ++ queue

/-- Once the queue is empty, the nodes met are the reachable ones. -/
theorem Exploring.mem_iff {done : List α} (state : Exploring next starts done []) {x : α} :
    x ∈ done ↔ Reachable next starts x := by
  have all : done ++ [] = done := List.append_nil done
  constructor
  · intro met
    exact state.found x (all.symm ▸ met)
  · rintro ⟨s, start, path⟩
    induction path with
    | refl => exact all ▸ state.begun s start
    | tail _ leads met => exact all ▸ state.closed _ met _ leads

variable [BEq α] [LawfulBEq α]

theorem mem_unseen {seen xs : List α} {x : α} : x ∈ unseen seen xs ↔ x ∈ xs ∧ x ∉ seen := by
  induction xs generalizing seen with
  | nil => simp [unseen]
  | cons y xs ih =>
      rw [unseen]
      by_cases known : y ∈ seen
      · rw [if_pos (List.contains_iff_mem.mpr known), ih, List.mem_cons]
        refine and_congr_left fun fresh => ⟨Or.inr, fun among => among.resolve_left ?_⟩
        rintro rfl
        exact fresh known
      · rw [if_neg (known ∘ List.contains_iff_mem.mp), List.mem_cons, ih, List.mem_cons,
          List.mem_cons]
        by_cases same : x = y
        · subst same
          exact iff_of_true (Or.inl rfl) ⟨Or.inl rfl, known⟩
        · simp only [same, false_or]

theorem unseen_nodup (seen xs : List α) : (unseen seen xs).Nodup := by
  induction xs generalizing seen with
  | nil => exact List.nodup_nil
  | cons y xs ih =>
      rw [unseen]
      split
      · exact ih seen
      · refine List.nodup_cons.mpr ⟨fun again => ?_, ih (y :: seen)⟩
        exact (mem_unseen.mp again).2 List.mem_cons_self

theorem exploring_start (next : α → List α) (starts : List α) :
    Exploring next starts [] (unseen [] starts) where
  once := unseen_nodup [] starts
  begun _ start := mem_unseen.mpr ⟨start, List.not_mem_nil⟩
  found x met := ⟨x, (mem_unseen.mp met).1, .refl⟩
  closed := nofun

theorem Exploring.step {done queue : List α} {x : α}
    (state : Exploring next starts done (x :: queue)) :
    Exploring next starts (done ++ [x])
      (queue ++ unseen (done ++ x :: queue) (next x)) := by
  have same : (done ++ [x]) ++ (queue ++ unseen (done ++ x :: queue) (next x))
      = (done ++ x :: queue) ++ unseen (done ++ x :: queue) (next x) := by simp
  have here : x ∈ done ++ x :: queue := List.mem_append_right _ List.mem_cons_self
  refine ⟨?_, ?_, ?_, ?_⟩
  · rw [same, List.nodup_append]
    refine ⟨state.once, unseen_nodup _ _, ?_⟩
    rintro y old z fresh rfl
    exact (mem_unseen.mp fresh).2 old
  · intro y start
    rw [same]
    exact List.mem_append_left _ (state.begun y start)
  · intro y met
    rw [same, List.mem_append] at met
    rcases met with old | fresh
    · exact state.found y old
    · obtain ⟨s, start, path⟩ := state.found x here
      exact ⟨s, start, path.tail (mem_unseen.mp fresh).1⟩
  · intro y expanded z leads
    rw [same, List.mem_append]
    rcases List.mem_append.mp expanded with old | last
    · exact Or.inl (state.closed y old z leads)
    · obtain rfl := List.mem_singleton.mp last
      by_cases known : z ∈ done ++ y :: queue
      · exact Or.inl known
      · exact Or.inr (mem_unseen.mpr ⟨leads, known⟩)

/-- Enough steps for all that can be reached leave nothing in the queue. -/
theorem exploreFrom_spec {room : List α} (inside : ∀ x, Reachable next starts x → x ∈ room)
    (steps : Nat) {done queue : List α} (state : Exploring next starts done queue)
    (enough : room.length ≤ done.length + steps) :
    (exploreFrom next steps queue (done ++ queue)).Nodup ∧
      ∀ x, x ∈ exploreFrom next steps queue (done ++ queue) ↔ Reachable next starts x := by
  induction steps generalizing done queue with
  | zero =>
      have fits : (done ++ queue).length ≤ room.length :=
        (List.subperm_of_subset state.once fun x met => inside x (state.found x met)).length_le
      have empty : queue = [] := by
        rw [List.length_append] at fits
        exact List.eq_nil_of_length_eq_zero (by omega)
      subst empty
      rw [exploreFrom, List.append_nil]
      exact ⟨List.append_nil done ▸ state.once, fun x => state.mem_iff⟩
  | succ steps ih =>
      cases queue with
      | nil =>
          rw [exploreFrom, List.append_nil]
          · exact ⟨List.append_nil done ▸ state.once, fun x => state.mem_iff⟩
          · simp
      | cons x queue =>
          have later := ih state.step (by rw [List.length_append, List.length_singleton]; omega)
          have same : (done ++ [x]) ++ (queue ++ unseen (done ++ x :: queue) (next x))
              = (done ++ x :: queue) ++ unseen (done ++ x :: queue) (next x) := by simp
          rw [same] at later
          exact later

section Explore

variable {room : List α} {size : Nat}

theorem mem_explore (inside : ∀ x, Reachable next starts x → x ∈ room)
    (enough : room.length ≤ size) {x : α} :
    x ∈ explore next size starts ↔ Reachable next starts x :=
  (exploreFrom_spec inside size (exploring_start next starts) (by simpa using enough)).2 x

theorem explore_nodup (inside : ∀ x, Reachable next starts x → x ∈ room)
    (enough : room.length ≤ size) : (explore next size starts).Nodup :=
  (exploreFrom_spec inside size (exploring_start next starts) (by simpa using enough)).1

end Explore

end Retarget
