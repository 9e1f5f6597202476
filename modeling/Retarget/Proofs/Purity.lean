/-
# Proofs.Purity -- which kernels are pure, and which calls are told of

A kernel is pure if no kernel that it reaches through calls has a direct effect: a store to
something other than a plain name, a call out of the unit, a call of a kernel without a body
(`DirectEffect`).  One kind of direct effect goes unnoticed: a range clause that assigns to
something other than a plain name (`RangeStore`).  Apart from these the verdict is exact, however
the calls run in circles (`isPure_iff`): the walk behind it visits every kernel that is reached, and
whoever is found impure makes the calls that lead to it impure as well.

The list of effects is less than that.  A call of an impure kernel is told of if the callee has not
been met before the call, and if it reaches an effect without the kernels met before (`MetBefore`).
What is told is true, but a kernel that an earlier callee leads to is left out, and so is one whose
effects are all behind kernels met before (`impureCalls_told_iff`).
-/
import Retarget.Proofs.Bracketing
import Retarget.Proofs.SideEffects

namespace Retarget

open Retarget.Source (Node)
open Retarget.Text (mem_addNew addNew_nil_eq_nil_iff)
open Relation (ReflTransGen)

set_option autoImplicit false
set_option linter.dupNamespace false

/-- A range clause that assigns to something other than a plain name. -/
def RangeStore : Node → Prop
  | .rangeStmt _ key value _ _ => ∃ t ∈ key.toList ++ value.toList, t.name? = none
  | _ => False

/-- What a range clause assigns to. -/
def rangeTargets : Node → List Node
  | .rangeStmt _ key value _ _ => key.toList ++ value.toList
  | _ => []

theorem rangeTargets_iff (n : Node) : (∃ t ∈ rangeTargets n, t.name? = none) ↔ RangeStore n := by
  cases n <;> simp [rangeTargets, RangeStore]

instance : DecidablePred RangeStore := fun n => decidable_of_iff _ (rangeTargets_iff n)

theorem RangeStore.not_effect {u : SourceUnit} {n : Node} (store : RangeStore n) :
    ¬u.Effect n := by
  rintro (_ | _ | _ | _) <;> exact store

theorem RangeStore.not_invoked {u : SourceUnit} {n : Node} (store : RangeStore n) :
    u.invoked? n = none := by
  cases n <;> first | rfl | exact store.elim

namespace SourceUnit

variable (u : SourceUnit)

/-- A node that does more than compute. -/
inductive DirectEffect (n : Node) : Prop
  /-- It stores to something other than a plain name, or calls what is not in the unit. -/
  | reported : u.Effect n → DirectEffect n
  /-- It calls a kernel without a body. -/
  | external {l : KernelFn} : u.invoked? n = some l → l.hasBody = false → DirectEffect n
  | ranged : RangeStore n → DirectEffect n

/-- What `k` has met by its first call of `g`: itself, and all that the kernels called before lead to
without going through `k`. -/
def MetBefore (k g l : KernelFn) : Prop :=
  l = k ∨ ∃ c ∈ (u.invocations k.nodes).takeWhile (·.id != g.id), u.Leads [k.id] c l

variable {u} {k g l : KernelFn} {n : Node} {ns before : List Node}

/-! ## The verdict -/

theorem leads_nil_iff : u.Leads [] k l ↔ ReflTransGen u.Invokes k l := by
  have every : u.Enters [] = u.Invokes := by
    funext a b
    simp [Enters]
  simp [Leads, every]

theorem judges_sideEffects (listed : k ∈ u.kernels) :
    u.Judges (u.effectsFrom (u.kernels.length + 1)) [] k :=
  effectsFrom_judges _ listed List.not_mem_nil
    (Nat.le_succ_of_le (List.length_filter_le _ _))

theorem isPure_iff_innocent (listed : k ∈ u.kernels) :
    u.isPure k = true ↔ ∀ l, ReflTransGen u.Invokes k l → u.Innocent l := by
  have silent : u.sideEffects k = [] ↔ ∀ l, ReflTransGen u.Invokes k l → u.Innocent l := by
    have judged := (judges_sideEffects listed).effects
    simp only [leads_nil_iff] at judged
    exact judged
  rw [isPure, Bool.and_eq_true, List.isEmpty_iff, silent]
  exact and_iff_right_of_imp fun innocent => (innocent k .refl).1

/-- A kernel is pure if and only if its body is known and range clauses make up all direct effects in
the bodies that it reaches.  So where no range clause stores, it is pure if and only if there are
none. -/
theorem isPure_iff (listed : k ∈ u.kernels) :
    (u.isPure k = true ↔ k.hasBody = true ∧ ∀ l, ReflTransGen u.Invokes k l → ∀ n ∈ l.nodes,
      u.DirectEffect n → RangeStore n) ∧
    ((∀ l, ReflTransGen u.Invokes k l → ∀ n ∈ l.nodes, ¬RangeStore n) →
      (u.isPure k = true ↔ k.hasBody = true ∧ ∀ l, ReflTransGen u.Invokes k l → ∀ n ∈ l.nodes,
        ¬u.DirectEffect n)) := by
  have exact : u.isPure k = true ↔ k.hasBody = true ∧ ∀ l, ReflTransGen u.Invokes k l →
      ∀ n ∈ l.nodes, u.DirectEffect n → RangeStore n := by
    rw [isPure_iff_innocent listed]
    constructor
    · intro innocent
      refine ⟨(innocent k .refl).1, fun l path n member direct => ?_⟩
      cases direct with
      | reported effect => exact absurd effect ((innocent l path).2 n member)
      | external calls bodiless =>
          have known := (innocent _ (path.tail (mem_invocations.mpr ⟨n, member, calls⟩))).1
          exact absurd (known.symm.trans bodiless) (by decide)
      | ranged store => exact store
    · rintro ⟨hasBody, ranged⟩ l path
      refine ⟨?_, fun n member effect => ?_⟩
      · -- a kernel without a body is called from one that is reached
        cases path with
        | refl => exact hasBody
        | tail path last =>
            obtain ⟨n, member, calls⟩ := mem_invocations.mp last
            by_contra bodiless
            have store := ranged _ path n member (.external calls (Bool.not_eq_true _ ▸ bodiless))
            simp [store.not_invoked] at calls
      · exact (ranged l path n member (.reported effect)).not_effect effect
  refine ⟨exact, fun clean => exact.trans (and_congr_right fun _ => ?_)⟩
  refine forall₂_congr fun l path => forall₂_congr fun n member => ?_
  exact imp_congr_right fun _ => iff_false_intro (clean l path n member)

/-! ### Kernels that call each other, and a store that goes unnoticed -/

namespace Purity

/-- Two kernels that call each other, and one that stores and calls them. -/
def circling : SourceUnit := Bracketing.unit
  "func a() \x7b b() \x7d\nfunc b() \x7b a() \x7d\nfunc c(p *int) \x7b *p = 1; a() \x7d"

/-- A range clause that stores through a pointer. -/
def ranging : SourceUnit := Bracketing.unit
  "func f(p *int) \x7b for p[0] = range 3 \x7b \x7d \x7d"

def kernel (u : SourceUnit) (i : Nat) : KernelFn := u.kernels.getD i default

theorem kernel_listed {u : SourceUnit} {i : Nat} (inside : i < u.kernels.length) :
    kernel u i ∈ u.kernels := by
  simp [kernel, inside]

end Purity

open Purity in
/-- Of two kernels that call each other neither reaches a direct effect, but a kernel that stores
does. -/
theorem isPure_iff_circling :
    (kernel circling 0 ∈ circling.kernels ∧ ∀ l, ReflTransGen circling.Invokes (kernel circling 0) l →
      ∀ n ∈ l.nodes, ¬circling.DirectEffect n) ∧
    (kernel circling 2 ∈ circling.kernels ∧ ∃ l, ReflTransGen circling.Invokes (kernel circling 2) l ∧
      ∃ n ∈ l.nodes, circling.DirectEffect n) := by
  obtain ⟨inside, pure, impure, bodies, clean⟩ : 2 < circling.kernels.length ∧
      circling.isPure (kernel circling 0) = true ∧ circling.isPure (kernel circling 2) = false ∧
      (kernel circling 2).hasBody = true ∧
      ∀ l ∈ circling.kernels, ∀ n ∈ l.nodes, ¬RangeStore n := by
    rw [show circling = _ from Bracketing.unit_spelled String.toList_ofList]
    decide +kernel
  have first : kernel circling 0 ∈ circling.kernels := kernel_listed (Nat.lt_trans (by decide) inside)
  have last : kernel circling 2 ∈ circling.kernels := kernel_listed inside
  have unranged {k : KernelFn} (listed : k ∈ circling.kernels) :
      ∀ l, ReflTransGen circling.Invokes k l → ∀ n ∈ l.nodes, ¬RangeStore n := by
    intro l path
    cases path with
    | refl => exact clean k listed
    | tail _ step => exact clean l step.listed
  refine ⟨⟨first, (((isPure_iff first).2 (unranged first)).mp pure).2⟩, last, ?_⟩
  by_contra harmless
  have verdict := ((isPure_iff last).2 (unranged last)).mpr
    ⟨bodies, fun l path n member direct => harmless ⟨l, path, n, member, direct⟩⟩
  exact absurd (verdict.symm.trans impure) (by decide)

open Purity in
/-- The kernel whose range clause stores through a pointer passes as pure. -/
theorem isPure_ranging : ¬(ranging.isPure (kernel ranging 0) = true ↔
    (kernel ranging 0).hasBody = true ∧ ∀ l, ReflTransGen ranging.Invokes (kernel ranging 0) l →
      ∀ n ∈ l.nodes, ¬ranging.DirectEffect n) := by
  intro exact
  obtain ⟨pure, store⟩ : ranging.isPure (kernel ranging 0) = true ∧
      ∃ n ∈ (kernel ranging 0).nodes, RangeStore n := by
    rw [show ranging = _ from Bracketing.unit_spelled String.toList_ofList]
    decide +kernel
  obtain ⟨n, member, ranged⟩ := store
  exact (exact.mp pure).2 _ .refl n member (.ranged ranged)

/-! ## Calls that are told of -/

theorem exists_first_call (called : g ∈ u.invocations ns) :
    ∃ before n after, ns = before ++ n :: after ∧ u.invoked? n = some g ∧
      g ∉ u.invocations before := by
  induction ns with
  | nil => simp [invocations] at called
  | cons m ns ih =>
      by_cases calls : u.invoked? m = some g
      · exact ⟨[], m, ns, rfl, calls, by simp [invocations]⟩
      · have later : g ∈ u.invocations ns := by
          obtain ⟨n, member, calls'⟩ := mem_invocations.mp called
          rcases List.mem_cons.mp member with rfl | member
          · exact absurd calls' calls
          · exact mem_invocations.mpr ⟨n, member, calls'⟩
        obtain ⟨before, n, after, rfl, calls', first⟩ := ih later
        refine ⟨m :: before, n, after, rfl, calls', fun again => ?_⟩
        obtain ⟨n', member, calls''⟩ := mem_invocations.mp again
        rcases List.mem_cons.mp member with rfl | member
        · exact calls calls''
        · exact first (mem_invocations.mpr ⟨n', member, calls''⟩)

/-- The callees before the first call of a kernel. -/
theorem invocations_before {after : List Node} (calls : u.invoked? n = some g)
    (first : g ∉ u.invocations before) :
    (u.invocations (before ++ n :: after)).takeWhile (·.id != g.id) = u.invocations before := by
  have others : ∀ c ∈ u.invocations before, (c.id != g.id) = true := by
    intro c called
    refine bne_iff_ne.mpr fun same => first ?_
    exact kernel_inj (listed_of_mem_invocations called) (mem_of_invoked? calls) same ▸ called
  have split : u.invocations (before ++ n :: after)
      = u.invocations before ++ g :: u.invocations after := by
    simp [invocations, calls]
  rw [split, List.takeWhile_append_of_pos others]
  simp

/-- Where the first call is met, what has been met before it has been visited. -/
theorem mem_visited_iff {after : List Node} {judge : KernelFn → List KernelId → Gathered}
    (gathers : u.Gathers [k.id] before (u.bodyState judge [k.id] before))
    (split : k.nodes = before ++ n :: after) (calls : u.invoked? n = some g)
    (first : g ∉ u.invocations before) (listed : k ∈ u.kernels) (listed' : l ∈ u.kernels) :
    l.id ∈ (u.bodyState judge [k.id] before).2 ↔ u.MetBefore k g l := by
  rw [gathers.visits, MetBefore, split, invocations_before calls first, List.mem_singleton]
  refine or_congr ⟨fun same => kernel_inj listed' listed same, fun same => same ▸ rfl⟩ ?_
  refine exists_congr fun c => and_congr_right fun called => ⟨?_, fun leads => ⟨l, leads, rfl⟩⟩
  rintro ⟨l', leads, same⟩
  obtain rfl := kernel_inj (leads.listed (listed_of_mem_invocations called)) listed' same
  exact leads

/-- At its first call a kernel has not been visited and is judged impure if and only if it has not
been met before and reaches an effect without the kernels met before. -/
theorem first_call_judged_iff {after : List Node} {judge : KernelFn → List KernelId → Gathered}
    (judges : ∀ more, [k.id] ⊆ more → ∀ c ∈ u.kernels, c.id ∉ more → u.Judges judge more c)
    (listed : k ∈ u.kernels) (split : k.nodes = before ++ n :: after)
    (calls : u.invoked? n = some g) (first : g ∉ u.invocations before) :
    (g.id ∉ (u.bodyState judge [k.id] before).2 ∧
        (judge g (g.id :: (u.bodyState judge [k.id] before).2)).1 ≠ []) ↔
      ¬u.MetBefore k g g ∧ ∃ l,
        ReflTransGen (fun a b => u.Invokes a b ∧ ¬u.MetBefore k g b) g l ∧ ¬u.Innocent l := by
  have gathers : u.Gathers [k.id] before (u.bodyState judge [k.id] before) :=
    bodyState_gathers judges
  have listed' := mem_of_invoked? calls
  have met {l : KernelFn} (there : l ∈ u.kernels) :
      l.id ∈ (u.bodyState judge [k.id] before).2 ↔ u.MetBefore k g l :=
    mem_visited_iff gathers split calls first listed there
  have same : u.Enters (u.bodyState judge [k.id] before).2
      = fun a b => u.Invokes a b ∧ ¬u.MetBefore k g b := by
    funext a b
    exact propext (and_congr_right fun called => not_congr (met called.listed))
  rw [← met listed']
  refine and_congr_right fun fresh => ?_
  have judged := judges _ gathers.visited_subset g listed' fresh
  rw [Ne, judged.effects]
  simp [Leads, fresh, same]

/-- A call of another kernel is told of if and only if the kernel has not been met before and reaches
an effect without the kernels met before. -/
theorem impureCall_mem_iff (listed : k ∈ u.kernels) (called : u.Invokes k g) (other : g ≠ k) :
    impureCall g ∈ u.sideEffects k ↔ ¬u.MetBefore k g g ∧ ∃ l,
      ReflTransGen (fun a b => u.Invokes a b ∧ ¬u.MetBefore k g b) g l ∧ ¬u.Innocent l := by
  have judges : ∀ more, [k.id] ⊆ more → ∀ c ∈ u.kernels, c.id ∉ more →
      u.Judges (u.effectsFrom u.kernels.length) more c :=
    fun more _ c listed' fresh => effectsFrom_judges _ listed' fresh (List.length_filter_le _ _)
  obtain ⟨before, n, after, split, calls, first⟩ := exists_first_call called
  have told : impureCall g ∈ u.sideEffects k ↔
      impureCall g ∈ (u.bodyState (u.effectsFrom u.kernels.length) [k.id] k.nodes).1 := by
    cases body : k.body with
    | none => simp [KernelFn.nodes, body] at split
    | some b => simp [sideEffects, effectsFrom_of_body body, mem_addNew]
  rw [told, impureCall_mem_bodyState_iff (named?_of_invoked? calls),
    ← first_call_judged_iff judges listed split calls first]
  constructor
  · rintro ⟨before', n', after', split', calls', fresh, impure⟩
    -- had there been a call before, the kernel would have been visited
    have first' : g ∉ u.invocations before' := by
      intro earlier
      have start : u.Leads [k.id] g g :=
        ⟨fun same => other (kernel_inj (mem_of_invoked? calls) listed (List.mem_singleton.mp same)),
          .refl⟩
      exact fresh (((bodyState_gathers judges).visits g.id).mpr (Or.inr ⟨g, earlier, g, start, rfl⟩))
    rw [first_call_judged_iff judges listed split calls first,
      ← first_call_judged_iff judges listed split' calls' first']
    exact ⟨fresh, impure⟩
  · rintro ⟨fresh, impure⟩
    exact ⟨before, n, after, split, calls, fresh, impure⟩

/-- For a kernel and another one that it calls: a call is told of if and only if the callee has not
been met before it and reaches an effect without the kernels met before; who is told of is impure; and
if the callee reaches none of the kernels met before, it is told of if and only if it is impure. -/
theorem impureCalls_told_iff (listed : k ∈ u.kernels) (called : u.Invokes k g) (other : g ≠ k) :
    (impureCall g ∈ u.sideEffects k ↔ ¬u.MetBefore k g g ∧ ∃ l,
      ReflTransGen (fun a b => u.Invokes a b ∧ ¬u.MetBefore k g b) g l ∧ ¬u.Innocent l) ∧
    (impureCall g ∈ u.sideEffects k → u.isPure g = false) ∧
    ((∀ l, ReflTransGen u.Invokes g l → ¬u.MetBefore k g l) →
      (impureCall g ∈ u.sideEffects k ↔ u.isPure g = false)) := by
  have told := impureCall_mem_iff listed called other
  have impure : u.isPure g = false ↔ ∃ l, ReflTransGen u.Invokes g l ∧ ¬u.Innocent l := by
    rw [← Bool.not_eq_true, isPure_iff_innocent called.listed]
    simp
  refine ⟨told, fun reported => ?_, fun apart => ?_⟩
  · obtain ⟨-, l, path, guilty⟩ := told.mp reported
    exact impure.mpr ⟨l, ReflTransGen.mono (fun _ _ step => step.1) _ _ path, guilty⟩
  · rw [told, impure]
    constructor
    · rintro ⟨-, l, path, guilty⟩
      exact ⟨l, ReflTransGen.mono (fun _ _ step => step.1) _ _ path, guilty⟩
    · rintro ⟨l, path, guilty⟩
      refine ⟨apart g .refl, l, ?_, guilty⟩
      clear guilty
      induction path with
      | refl => exact .refl
      | tail path last ih => exact ih.tail ⟨last, apart _ (path.tail last)⟩

/-! ### Effects behind kernels met before -/

namespace Purity

/-- Two kernels that call the same two others, of which the second calls the first. -/
def shared : SourceUnit := Bracketing.unit <|
  "func b(p *int) \x7b *p = 1 \x7d\nfunc a(p *int) \x7b b(p) \x7d\n" ++
    "func f(p *int) \x7b a(p); b(p) \x7d\nfunc h(p *int) \x7b b(p); a(p) \x7d"

theorem invokes_of_id {u : SourceUnit} {k g : KernelFn} (listed : g ∈ u.kernels)
    (called : g.id ∈ (u.invocations k.nodes).map (·.id)) : u.Invokes k g := by
  obtain ⟨c, member, same⟩ := List.mem_map.mp called
  exact kernel_inj (listed_of_mem_invocations member) listed same ▸ member

theorem path_of_no_calls {u : SourceUnit} {k l : KernelFn}
    (none : (u.invocations k.nodes).isEmpty = true) (path : ReflTransGen u.Invokes k l) : l = k := by
  rcases path.cases_head with same | ⟨c, step, -⟩
  · exact same.symm
  · rw [Invokes, List.isEmpty_iff.mp none] at step
    cases step

end Purity

open Purity in
/-- The kernel that calls the one that stores first of all tells of it. -/
theorem impureCalls_told_iff_shared :
    kernel shared 3 ∈ shared.kernels ∧ shared.Invokes (kernel shared 3) (kernel shared 0) ∧
      kernel shared 0 ≠ kernel shared 3 ∧
      impureCall (kernel shared 0) ∈ shared.sideEffects (kernel shared 3) := by
  obtain ⟨inside, other, calls, impure, silent, before⟩ : 3 < shared.kernels.length ∧
      (kernel shared 0).id ≠ (kernel shared 3).id ∧
      (kernel shared 0).id ∈ (shared.invocations (kernel shared 3).nodes).map (·.id) ∧
      shared.isPure (kernel shared 0) = false ∧
      (shared.invocations (kernel shared 0).nodes).isEmpty = true ∧
      ((shared.invocations (kernel shared 3).nodes).takeWhile
        (·.id != (kernel shared 0).id)).isEmpty = true := by
    rw [show shared = _ from Bracketing.unit_spelled
      (Text.toList_join String.toList_ofList String.toList_ofList)]
    decide +kernel
  have store : kernel shared 0 ∈ shared.kernels :=
    kernel_listed (Nat.lt_of_le_of_lt (Nat.zero_le 3) inside)
  have called : shared.Invokes (kernel shared 3) (kernel shared 0) := invokes_of_id store calls
  have differ : kernel shared 0 ≠ kernel shared 3 := fun same => other (congrArg _ same)
  have unmet : ∀ l, ReflTransGen shared.Invokes (kernel shared 0) l →
      ¬shared.MetBefore (kernel shared 3) (kernel shared 0) l := by
    rintro l path (same | ⟨c, earlier, -⟩)
    · exact differ ((path_of_no_calls silent path).symm.trans same)
    · rw [List.isEmpty_iff.mp before] at earlier
      cases earlier
  refine ⟨kernel_listed inside, called, differ, ?_⟩
  exact ((impureCalls_told_iff (kernel_listed inside) called differ).2.2 unmet).mpr impure

open Purity in
/-- Two kernels call the same two impure ones, in either order, and each tells of the one called
first only. -/
theorem impureCalls_untold_shared :
    (shared.Invokes (kernel shared 2) (kernel shared 0) ∧ kernel shared 0 ≠ kernel shared 2 ∧
      ¬(impureCall (kernel shared 0) ∈ shared.sideEffects (kernel shared 2) ↔
        shared.isPure (kernel shared 0) = false)) ∧
    shared.sideEffects (kernel shared 2) = ["calls impure a"] ∧
    shared.sideEffects (kernel shared 3) = ["calls impure b"] := by
  obtain ⟨inside, other, calls, impure, untold, told, told'⟩ : 0 < shared.kernels.length ∧
      (kernel shared 0).id ≠ (kernel shared 2).id ∧
      (kernel shared 0).id ∈ (shared.invocations (kernel shared 2).nodes).map (·.id) ∧
      shared.isPure (kernel shared 0) = false ∧
      impureCall (kernel shared 0) ∉ shared.sideEffects (kernel shared 2) ∧
      shared.sideEffects (kernel shared 2) = ["calls impure a"] ∧
      shared.sideEffects (kernel shared 3) = ["calls impure b"] := by
    rw [show shared = _ from Bracketing.unit_spelled
      (Text.toList_join String.toList_ofList String.toList_ofList)]
    decide +kernel
  refine ⟨⟨invokes_of_id (kernel_listed inside) calls, fun same => other (congrArg _ same), ?_⟩,
    told, told'⟩
  exact fun claim => untold (claim.mpr impure)

end SourceUnit

end Retarget
