/-
# Proofs.Dominance -- the dominators of a node form a chain

A node dominates another if every route from the root to that one passes through it.  Of two
different nodes that neither dominates the other each has a route that avoids the other, and then
every route from the root can be changed, step by step, into one that avoids one of the two
(`exists_avoiding_one`).  So the dominators of one node dominate each other in a row
(`Dominates.total`), and no two dominate each other (`Dominates.antisymm`).

The immediate dominator is the strict dominator that dominates no other strict dominator strictly.
It is the last one of the row, so there is one for every node reached but the root
(`exists_immediate`), no more than one (`Immediate.unique`), and what dominates a node is the node
itself and what dominates its immediate dominator (`Immediate.dominates_iff`).
-/
import Mathlib.Data.Finset.Card
import Mathlib.Data.Finset.Max
import Mathlib.Logic.Relation

namespace Retarget.Dominance

open Relation (ReflTransGen)

set_option autoImplicit false
set_option linter.dupNamespace false

variable {α : Type}

/-- The nodes of a route from `root` along `leads`, both ends included. -/
inductive Route (leads : α → α → Prop) (root : α) : List α → α → Prop
  | here : Route leads root [root] root
  | step {ids : List α} {x y : α} :
      Route leads root ids x → leads x y → Route leads root (ids ++ [y]) y

section

variable (leads : α → α → Prop) (root : α)

/-- The root leads to `y`, and every route there passes through `x`. -/
def Dominates (x y : α) : Prop :=
  ReflTransGen leads root y ∧ ∀ ids, Route leads root ids y → x ∈ ids

def Strictly (x y : α) : Prop := Dominates leads root x y ∧ x ≠ y

/-- A strict dominator of `y` that dominates no other one strictly. -/
def Immediate (x y : α) : Prop :=
  Strictly leads root x y ∧ ∀ z, Strictly leads root z y → ¬Strictly leads root x z

/-- A route to `y` that does not pass through `x`. -/
def Avoids (x y : α) : Prop := ∃ ids, Route leads root ids y ∧ x ∉ ids

open Classical in
/-- How many nodes of `room` dominate `y`. -/
noncomputable def rank (room : Finset α) (y : α) : Nat :=
  (room.filter (Dominates leads root · y)).card

end

variable {leads : α → α → Prop} {root x y z : α} {ids : List α} {room : Finset α}

/-! ## Routes -/

theorem Route.reaches (route : Route leads root ids y) : ReflTransGen leads root y := by
  induction route with
  | here => exact .refl
  | step _ arc ih => exact ih.tail arc

theorem exists_route (reaches : ReflTransGen leads root y) : ∃ ids, Route leads root ids y := by
  induction reaches with
  | refl => exact ⟨_, .here⟩
  | tail _ arc ih =>
      obtain ⟨ids, route⟩ := ih
      exact ⟨_, route.step arc⟩

theorem Route.root_mem (route : Route leads root ids y) : root ∈ ids := by
  induction route with
  | here => exact List.mem_singleton_self _
  | step _ _ ih => exact List.mem_append_left _ ih

theorem Route.end_mem (route : Route leads root ids y) : y ∈ ids := by
  cases route with
  | here => exact List.mem_singleton_self _
  | step => exact List.mem_append_right _ (List.mem_singleton_self _)

/-- A route up to a node it passes through. -/
theorem Route.upTo (route : Route leads root ids y) (passes : x ∈ ids) :
    ∃ before ⊆ ids, Route leads root before x := by
  induction route with
  | here => exact ⟨_, List.Subset.refl _, List.mem_singleton.mp passes ▸ .here⟩
  | step route arc ih =>
      rcases List.mem_append.mp passes with early | last
      · obtain ⟨before, sub, route⟩ := ih early
        exact ⟨before, List.subset_append_of_subset_left _ sub, route⟩
      · obtain rfl := List.mem_singleton.mp last
        exact ⟨_, List.Subset.refl _, route.step arc⟩

theorem avoids_iff : Avoids leads root x y ↔
    root ≠ x ∧ ReflTransGen (fun a b => leads a b ∧ b ≠ x) root y := by
  constructor
  · rintro ⟨ids, route, avoids⟩
    refine ⟨fun same => avoids (same ▸ route.root_mem), ?_⟩
    induction route with
    | here => exact .refl
    | step _ arc ih =>
        rw [List.mem_append, List.mem_singleton, not_or] at avoids
        exact (ih avoids.1).tail ⟨arc, Ne.symm avoids.2⟩
  · rintro ⟨apart, reaches⟩
    induction reaches with
    | refl => exact ⟨_, .here, by simpa using Ne.symm apart⟩
    | tail _ arc ih =>
        obtain ⟨ids, route, avoids⟩ := ih
        exact ⟨_, route.step arc.1, by simpa [avoids] using Ne.symm arc.2⟩

/-! ## Dominators -/

theorem not_avoids_iff : ¬Avoids leads root x y ↔ ∀ ids, Route leads root ids y → x ∈ ids := by
  simp [Avoids]

theorem Dominates.refl (reaches : ReflTransGen leads root y) : Dominates leads root y y :=
  ⟨reaches, fun _ route => route.end_mem⟩

theorem root_dominates (reaches : ReflTransGen leads root y) : Dominates leads root root y :=
  ⟨reaches, fun _ route => route.root_mem⟩

theorem dominates_root_iff : Dominates leads root x root ↔ x = root := by
  refine ⟨fun dominates => List.mem_singleton.mp (dominates.2 _ .here), ?_⟩
  rintro rfl
  exact .refl .refl

theorem Dominates.reaches (dominates : Dominates leads root x y) : ReflTransGen leads root x := by
  obtain ⟨ids, route⟩ := exists_route dominates.1
  obtain ⟨_, -, before⟩ := route.upTo (dominates.2 ids route)
  exact before.reaches

theorem Dominates.trans (first : Dominates leads root x y) (second : Dominates leads root y z) :
    Dominates leads root x z := by
  refine ⟨second.1, fun ids route => ?_⟩
  obtain ⟨before, sub, toY⟩ := route.upTo (second.2 ids route)
  exact sub (first.2 before toY)

/-- Were there two, no route would meet either: whichever came first would need the other. -/
theorem Dominates.antisymm (first : Dominates leads root x y) (second : Dominates leads root y x) :
    x = y := by
  by_contra apart
  have neither {ids : List α} {z : α} (route : Route leads root ids z) : x ∉ ids ∧ y ∉ ids := by
    induction route with
    | here =>
        refine ⟨fun met => ?_, fun met => ?_⟩
        · obtain rfl := List.mem_singleton.mp met
          exact apart (dominates_root_iff.mp second).symm
        · obtain rfl := List.mem_singleton.mp met
          exact apart (dominates_root_iff.mp first)
    | step route arc ih =>
        have whole := route.step arc
        simp only [List.mem_append, List.mem_singleton, ih.1, ih.2, false_or]
        refine ⟨?_, ?_⟩
        · rintro rfl
          exact apart (by simpa [ih.2, eq_comm] using second.2 _ whole)
        · rintro rfl
          exact apart (by simpa [ih.1] using first.2 _ whole)
  obtain ⟨ids, route⟩ := exists_route first.1
  exact (neither route).2 route.end_mem

/-- Every route can be changed into one that avoids `x` or one that avoids `y`: where it meets the
one that was to be avoided, a route that avoids the other takes its place. -/
theorem exists_avoiding_one (apart : x ≠ y) (toY : Avoids leads root x y)
    (toX : Avoids leads root y x) (reaches : ReflTransGen leads root z) :
    Avoids leads root x z ∨ Avoids leads root y z := by
  induction reaches with
  | refl =>
      by_cases same : root = x
      · exact .inr ⟨_, .here, by simpa [same] using Ne.symm apart⟩
      · exact .inl ⟨_, .here, by simpa using Ne.symm same⟩
  | @tail w z _ arc ih =>
      rcases ih with ⟨ids, route, avoids⟩ | ⟨ids, route, avoids⟩
      · by_cases same : z = x
        · exact .inr (same ▸ toX)
        · exact .inl ⟨_, route.step arc, by simpa [avoids] using Ne.symm same⟩
      · by_cases same : z = y
        · exact .inl (same ▸ toY)
        · exact .inr ⟨_, route.step arc, by simpa [avoids] using Ne.symm same⟩

theorem avoids_of_not_dominates (reaches : ReflTransGen leads root y)
    (free : ¬Dominates leads root x y) : Avoids leads root x y := by
  by_contra none
  exact free ⟨reaches, not_avoids_iff.mp none⟩

/-- Of two dominators of one node, one dominates the other. -/
theorem Dominates.total (first : Dominates leads root x z) (second : Dominates leads root y z) :
    Dominates leads root x y ∨ Dominates leads root y x := by
  by_contra neither
  obtain ⟨notX, notY⟩ := not_or.mp neither
  have apart : x ≠ y := by
    rintro rfl
    exact notX (.refl first.reaches)
  rcases exists_avoiding_one apart (avoids_of_not_dominates second.reaches notX)
    (avoids_of_not_dominates first.reaches notY) first.1 with ⟨ids, route, avoids⟩ | ⟨ids, route, avoids⟩
  · exact avoids (first.2 ids route)
  · exact avoids (second.2 ids route)

/-! ## Immediate dominators -/

/-- The immediate dominator is the strict one that all others dominate. -/
theorem immediate_iff : Immediate leads root x y ↔
    Strictly leads root x y ∧ ∀ z, Strictly leads root z y → z = x ∨ Dominates leads root z x := by
  refine and_congr_right fun strict => forall₂_congr fun z other => ?_
  constructor
  · intro last
    rcases other.1.total strict.1 with above | below
    · exact .inr above
    · exact .inl (by_contra fun apart => last ⟨below, Ne.symm apart⟩)
  · rintro (rfl | above) ⟨below, apart⟩
    · exact apart rfl
    · exact apart (below.antisymm above)

theorem Immediate.unique (first : Immediate leads root x z) (second : Immediate leads root y z) :
    x = y := by
  by_contra apart
  have below := (immediate_iff.mp first).2 y second.1
  have above := (immediate_iff.mp second).2 x first.1
  exact apart ((above.resolve_left apart).antisymm (below.resolve_left (Ne.symm apart)))

/-- What dominates a node is the node itself and what dominates its immediate dominator. -/
theorem Immediate.dominates_iff (immediate : Immediate leads root y z) :
    Dominates leads root x z ↔ x = z ∨ Dominates leads root x y := by
  constructor
  · intro dominates
    by_cases same : x = z
    · exact .inl same
    · refine .inr (((immediate_iff.mp immediate).2 x ⟨dominates, same⟩).elim ?_ id)
      rintro rfl
      exact .refl dominates.reaches
  · rintro (rfl | above)
    · exact .refl immediate.1.1.1
    · exact above.trans immediate.1.1

theorem Strictly.rank_lt (inside : ∀ z, ReflTransGen leads root z → z ∈ room)
    (strict : Strictly leads root x y) : rank leads root room x < rank leads root room y := by
  classical
  refine Finset.card_lt_card (Finset.ssubset_iff_of_subset ?_ |>.mpr ⟨y, ?_, ?_⟩)
  · intro z
    simp only [Finset.mem_filter]
    exact fun ⟨listed, above⟩ => ⟨listed, above.trans strict.1⟩
  · exact Finset.mem_filter.mpr ⟨inside y strict.1.1, .refl strict.1.1⟩
  · exact fun below => strict.2 (strict.1.antisymm (Finset.mem_filter.mp below).2)

/-- A node that is reached dominates itself. -/
theorem rank_pos (member : y ∈ room) (reaches : ReflTransGen leads root y) :
    0 < rank leads root room y := by
  classical exact Finset.card_pos.mpr ⟨y, Finset.mem_filter.mpr ⟨member, .refl reaches⟩⟩

theorem rank_le_card : rank leads root room y ≤ room.card := by
  classical exact Finset.card_filter_le _ _

/-- Every node reached but the root has an immediate dominator. -/
theorem exists_immediate (inside : ∀ z, ReflTransGen leads root z → z ∈ room)
    (reaches : ReflTransGen leads root y) (apart : y ≠ root) : ∃ x, Immediate leads root x y := by
  classical
  have start : root ∈ room.filter (Strictly leads root · y) :=
    Finset.mem_filter.mpr ⟨inside root .refl, root_dominates reaches, Ne.symm apart⟩
  obtain ⟨x, member, greatest⟩ := Finset.exists_max_image _ (rank leads root room) ⟨root, start⟩
  refine ⟨x, (Finset.mem_filter.mp member).2, fun z other below => ?_⟩
  have higher := greatest z (Finset.mem_filter.mpr ⟨inside z other.1.reaches, other⟩)
  exact Nat.not_lt_of_le higher (below.rank_lt inside)

theorem not_immediate_root : ¬Immediate leads root x root := fun immediate =>
  immediate.1.2 (dominates_root_iff.mp immediate.1.1)

end Retarget.Dominance
