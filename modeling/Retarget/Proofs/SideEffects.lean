/-
# Proofs.SideEffects -- one walk over the calls judges every kernel it meets

The effects of a kernel are those of the nodes of its body and one for each call of a kernel that
is judged impure.  All judgements of a walk share the kernels visited so far, and a visited kernel
is not judged again.  So what is said of a call depends on what was visited before: the judgement
covers the kernels that the callee leads to through calls of kernels not visited (`Leads`), and
these are then visited as well (`Judges`).

A body is gone through node by node.  Whatever has been visited when a call is met, the kernels
beyond those visited at the start form a set closed under such calls.  So together the callees of a
body visit what they lead to from the start, and no effect is reported if and only if there is none
in any of these (`Gathers`).  Each call that is judged visits one kernel more, so the depth that the
walk starts with is never used up (`effectsFrom_judges`).
-/
import Mathlib.Logic.Relation
import Retarget.PropertyGraph.Metrics
import Retarget.Proofs.CallPlan
import Retarget.Proofs.WordList

namespace Retarget

open Retarget.Source (Node)
open Retarget.Text (contains addNew addNew_nil_eq_nil_iff)
open Relation (ReflTransGen)

set_option autoImplicit false
set_option linter.dupNamespace false

/-- The nodes of the body. -/
def KernelFn.nodes (k : KernelFn) : List Node := (k.body.map Node.preorder).getD []

/-- What is gathered on a walk: the effects, and the kernels visited. -/
abbrev Gathered := List String × List KernelId

namespace SourceUnit

/-! ## Effects and calls of a node -/

/-- The text that tells of a call of an impure kernel. -/
def impureCall (k : KernelFn) : String := "calls impure " ++ k.name

variable (u : SourceUnit)

/-- A node that is reported for an effect of its own. -/
inductive Effect : Node → Prop
  | assigned {m op targets values t} : t ∈ targets → t.name? = none →
      Effect (.assign m op targets values)
  | stepped {m up x} : x.name? = none → Effect (.step m up x)
  | vectorStore {m callee args spread} : u.scope.converts callee args = false →
      u.named? (Kernel.nameOfCallee callee) = none →
      contains (Kernel.nameOfCallee callee) Kernel.vectorMark = true →
      (contains (Kernel.nameOfCallee callee) "store" ||
        contains (Kernel.nameOfCallee callee) "stream") = true →
      Effect (.call m callee args spread)
  | unknown {m callee args spread} : u.scope.converts callee args = false →
      u.named? (Kernel.nameOfCallee callee) = none →
      contains (Kernel.nameOfCallee callee) Kernel.vectorMark = false →
      Effect (.call m callee args spread)

/-- What is reported for a node by itself. -/
def ownEffects : Node → List String
  | .assign _ _ targets _ => targets.flatMap u.storeEffect
  | .step _ _ x => u.storeEffect x
  | .call _ callee args _ =>
    if u.scope.converts callee args || (u.named? (Kernel.nameOfCallee callee)).isSome then []
    else outsideEffect (Kernel.nameOfCallee callee)
  | _ => []

/-- The kernel that a node calls. -/
def invoked? (n : Node) : Option KernelFn :=
  match n with
  | .call .. => u.callee? n
  | _ => none

/-- The kernels that the nodes call, in order. -/
def invocations (ns : List Node) : List KernelFn := ns.filterMap u.invoked?

/-- The body of `k` calls `l`. -/
def Invokes (k l : KernelFn) : Prop := l ∈ u.invocations k.nodes

/-- The body of `k` calls `l`, which has not been visited. -/
def Enters (visited : List KernelId) (k l : KernelFn) : Prop := u.Invokes k l ∧ l.id ∉ visited

/-- A kernel that has not been visited leads to `l` through calls of such kernels. -/
def Leads (visited : List KernelId) (k l : KernelFn) : Prop :=
  k.id ∉ visited ∧ ReflTransGen (u.Enters visited) k l

/-- A kernel whose body is known and has no effects of its own. -/
def Innocent (k : KernelFn) : Prop := k.hasBody = true ∧ ∀ n ∈ k.nodes, ¬u.Effect n

/-- What has been gathered after some nodes of a body. -/
def bodyState (judge : KernelFn → List KernelId → Gathered) (visited : List KernelId)
    (ns : List Node) : Gathered :=
  ns.foldl (u.nodeEffects judge) ([], visited)

/-- The judgement of a kernel by someone who has visited others tells of an effect if there is one in
a kernel that it leads to, and these kernels are then visited. -/
structure Judges (judge : KernelFn → List KernelId → Gathered) (visited : List KernelId)
    (k : KernelFn) : Prop where
  effects : (judge k (k.id :: visited)).1 = [] ↔ ∀ l, u.Leads visited k l → u.Innocent l
  visits : ∀ x, x ∈ (judge k (k.id :: visited)).2 ↔
    x ∈ visited ∨ ∃ l, u.Leads visited k l ∧ l.id = x

/-- The nodes gone through tell of an effect if there is one in them or in a kernel that their callees
lead to, and these kernels are then visited. -/
structure Gathers (visited : List KernelId) (ns : List Node) (state : Gathered) : Prop where
  effects : state.1 = [] ↔ (∀ n ∈ ns, ¬u.Effect n) ∧
    ∀ c ∈ u.invocations ns, ∀ l, u.Leads visited c l → u.Innocent l
  visits : ∀ x, x ∈ state.2 ↔
    x ∈ visited ∨ ∃ c ∈ u.invocations ns, ∃ l, u.Leads visited c l ∧ l.id = x

variable {u} {judge : KernelFn → List KernelId → Gathered} {state : Gathered}
  {visited more : List KernelId} {k l c g : KernelFn} {n : Node} {ns : List Node}

theorem storeEffect_eq_nil_iff {target : Node} :
    u.storeEffect target = [] ↔ target.name? ≠ none := by
  cases target <;> simp [storeEffect, Node.name?]

theorem outsideEffect_eq_nil_iff {name : String} :
    outsideEffect name = [] ↔ contains name Kernel.vectorMark = true ∧
      (contains name "store" || contains name "stream") = false := by
  unfold outsideEffect
  cases contains name Kernel.vectorMark <;>
    cases contains name "store" || contains name "stream" <;> simp

theorem ownEffects_eq_nil_iff : u.ownEffects n = [] ↔ ¬u.Effect n := by
  constructor
  · rintro silent (⟨target, store⟩ | store | ⟨call, outside, mark, stores⟩ | ⟨call, outside, mark⟩)
    · exact storeEffect_eq_nil_iff.mp (List.flatMap_eq_nil_iff.mp silent _ target) store
    · exact storeEffect_eq_nil_iff.mp silent store
    · simp [ownEffects, call, outside, outsideEffect_eq_nil_iff, mark, stores] at silent
    · simp [ownEffects, call, outside, outsideEffect_eq_nil_iff, mark] at silent
  · intro harmless
    cases n with
    | assign m op targets values =>
        refine List.flatMap_eq_nil_iff.mpr fun t target => storeEffect_eq_nil_iff.mpr fun store => ?_
        exact harmless (.assigned target store)
    | step m up x => exact storeEffect_eq_nil_iff.mpr fun store => harmless (.stepped store)
    | call m callee args spread =>
        rw [ownEffects]
        split
        · rfl
        · rename_i goes
          obtain ⟨call, outside⟩ : u.scope.converts callee args = false ∧
              u.named? (Kernel.nameOfCallee callee) = none := by simpa using goes
          cases mark : contains (Kernel.nameOfCallee callee) Kernel.vectorMark with
          | false => exact absurd (.unknown call outside mark) harmless
          | true =>
              refine outsideEffect_eq_nil_iff.mpr ⟨mark, Bool.not_eq_true _ ▸ fun stores => ?_⟩
              exact harmless (.vectorStore call outside mark stores)
    | _ => rfl

theorem invoked?_call {m : Source.Mark} {callee : Node} {args : List Node} {spread : Bool} :
    u.invoked? (.call m callee args spread) = if u.scope.converts callee args then none
      else u.named? (Kernel.nameOfCallee callee) := rfl

theorem mem_of_invoked? (calls : u.invoked? n = some k) : k ∈ u.kernels := by
  unfold invoked? at calls
  split at calls
  · exact mem_of_callee? calls
  · cases calls

theorem mem_invocations : k ∈ u.invocations ns ↔ ∃ n ∈ ns, u.invoked? n = some k :=
  List.mem_filterMap

theorem invocations_snoc :
    u.invocations (ns ++ [n]) = u.invocations ns ++ (u.invoked? n).toList := by
  cases calls : u.invoked? n <;> simp [invocations, calls]

theorem Invokes.listed (calls : u.Invokes k l) : l ∈ u.kernels := by
  obtain ⟨n, -, found⟩ := mem_invocations.mp calls
  exact mem_of_invoked? found

/-- The name of a kernel that is called means this kernel. -/
theorem named?_of_invoked? (calls : u.invoked? n = some k) : u.named? k.name = some k := by
  cases n with
  | call m callee args spread =>
      rw [invoked?_call] at calls
      split at calls
      · cases calls
      · have bears : k.name = Kernel.nameOfCallee callee := by
          simpa using List.find?_some calls
        rw [bears, calls]
  | _ => cases calls

/-- One node: its own effects are added, and the kernel it calls is judged unless it was visited. -/
theorem nodeEffects_eq (state : Gathered) (n : Node) :
    u.nodeEffects judge state n = match u.invoked? n with
      | none => (state.1 ++ u.ownEffects n, state.2)
      | some k =>
        if k.id ∈ state.2 then state
        else
          (state.1 ++ if (judge k (k.id :: state.2)).1 = [] then [] else [impureCall k],
            (judge k (k.id :: state.2)).2) := by
  obtain ⟨effects, visited⟩ := state
  cases n with
  | call m callee args spread =>
      rw [invoked?_call]
      dsimp only [nodeEffects, ownEffects]
      by_cases call : u.scope.converts callee args = true
      · simp [call]
      · cases found : u.named? (Kernel.nameOfCallee callee) with
        | none => simp [call]
        | some k =>
            have bears : k.name = Kernel.nameOfCallee callee := by simpa using List.find?_some found
            have told : impureCall k = "calls impure " ++ Kernel.nameOfCallee callee :=
              congrArg ("calls impure " ++ ·) bears
            by_cases known : k.id ∈ visited
            · simp [call, known]
            · cases inner : (judge k (k.id :: visited)).1 <;> simp [call, known, inner, told]
  | assign | step => rfl
  | _ => exact Prod.ext (List.append_nil _).symm rfl

theorem not_effect_of_invoked? (calls : u.invoked? n = some k) : ¬u.Effect n := by
  rintro (_ | _ | ⟨call, outside, -, -⟩ | ⟨call, outside, -⟩)
  · cases calls
  · cases calls
  all_goals simp [invoked?_call, call, outside] at calls

theorem impureCall_not_mem_storeEffect {target : Node} : impureCall k ∉ u.storeEffect target := by
  intro told
  have text : impureCall k = "writes " ++ u.print target := by
    cases target <;> simp_all [storeEffect]
  unfold impureCall at text
  simpa using congrArg String.toList text

theorem impureCall_not_mem_outsideEffect {name : String} : impureCall k ∉ outsideEffect name := by
  intro told
  have text : impureCall k = "vector store " ++ name ∨ impureCall k = "calls unknown " ++ name := by
    unfold outsideEffect at told
    split at told
    · split at told <;> simp_all
    · simp_all
  unfold impureCall at text
  rcases text with text | text <;> simpa using congrArg String.toList text

theorem impureCall_not_mem_ownEffects : impureCall k ∉ u.ownEffects n := by
  intro told
  cases n with
  | assign m op targets values =>
      obtain ⟨t, -, store⟩ := List.mem_flatMap.mp told
      exact impureCall_not_mem_storeEffect store
  | step m up x => exact impureCall_not_mem_storeEffect told
  | call m callee args spread =>
      rw [ownEffects] at told
      split at told
      · cases told
      · exact impureCall_not_mem_outsideEffect told
  | _ => cases told

/-! ## What a kernel leads to -/

theorem Leads.not_visited (leads : u.Leads visited k l) : l.id ∉ visited := by
  obtain ⟨start, path⟩ := leads
  cases path with
  | refl => exact start
  | tail _ last => exact last.2

theorem Leads.tail (leads : u.Leads visited k l) (enters : u.Enters visited l g) :
    u.Leads visited k g :=
  ⟨leads.1, leads.2.tail enters⟩

theorem Leads.listed (leads : u.Leads visited k l) (listed : k ∈ u.kernels) : l ∈ u.kernels := by
  cases leads.2 with
  | refl => exact listed
  | tail _ last => exact last.1.listed

theorem Leads.mono (sub : visited ⊆ more) (leads : u.Leads more k l) : u.Leads visited k l :=
  ⟨fun known => leads.1 (sub known),
    ReflTransGen.mono (fun _ _ enters => ⟨enters.1, fun known => enters.2 (sub known)⟩) _ _ leads.2⟩

/-- A kernel leads to itself and to what its callees lead to once it is visited. -/
theorem leads_iff (listed : k ∈ u.kernels) (fresh : k.id ∉ visited) :
    u.Leads visited k l ↔
      l = k ∨ ∃ c ∈ u.invocations k.nodes, u.Leads (k.id :: visited) c l := by
  constructor
  · rintro ⟨-, path⟩
    induction path with
    | refl => exact Or.inl rfl
    | @tail b d path last ih =>
        -- the last call comes back to `k`, or it stays among the others
        by_cases back : d.id = k.id
        · exact Or.inl (kernel_inj last.1.listed listed back)
        · have enters : u.Enters (k.id :: visited) b d := ⟨last.1, by simp [back, last.2]⟩
          rcases ih with rfl | ⟨c, called, leads⟩
          · exact Or.inr ⟨d, last.1, enters.2, .refl⟩
          · exact Or.inr ⟨c, called, leads.tail enters⟩
  · rintro (rfl | ⟨c, called, leads⟩)
    · exact ⟨fresh, .refl⟩
    · have wide := leads.mono (List.subset_cons_self k.id visited)
      exact ⟨fresh, wide.2.head ⟨called, wide.1⟩⟩

/-! ## The nodes of a body -/

theorem bodyState_snoc :
    u.bodyState judge visited (ns ++ [n]) = u.nodeEffects judge (u.bodyState judge visited ns) n := by
  simp [bodyState]

theorem Gathers.visited_subset (gathers : u.Gathers visited ns state) : visited ⊆ state.2 :=
  fun x known => (gathers.visits x).mpr (Or.inl known)

theorem listed_of_mem_invocations (called : c ∈ u.invocations ns) : c ∈ u.kernels := by
  obtain ⟨n, -, found⟩ := mem_invocations.mp called
  exact mem_of_invoked? found

/-- A kernel visited on the way was led to by a callee. -/
theorem Gathers.met (gathers : u.Gathers visited ns state) (listed : l ∈ u.kernels)
    (met : l.id ∈ state.2) (fresh : l.id ∉ visited) :
    ∃ c ∈ u.invocations ns, u.Leads visited c l := by
  rcases (gathers.visits l.id).mp met with known | ⟨c, called, l', leads, same⟩
  · exact absurd known fresh
  · obtain rfl := kernel_inj (leads.listed (listed_of_mem_invocations called)) listed same
    exact ⟨c, called, leads⟩

/-- What a kernel leads to from the start has been met already, or is led to from here. -/
theorem Gathers.leads_cases (gathers : u.Gathers visited ns state) (listed : k ∈ u.kernels)
    (leads : u.Leads visited k l) :
    (∃ c ∈ u.invocations ns, u.Leads visited c l) ∨ u.Leads state.2 k l := by
  obtain ⟨start, path⟩ := leads
  induction path with
  | refl =>
      by_cases met : k.id ∈ state.2
      · exact Or.inl (gathers.met listed met start)
      · exact Or.inr ⟨met, .refl⟩
  | @tail b d path last ih =>
      rcases ih with ⟨c, called, leads⟩ | leads
      · exact Or.inl ⟨c, called, leads.tail last⟩
      · by_cases met : d.id ∈ state.2
        · exact Or.inl (gathers.met last.1.listed met last.2)
        · exact Or.inr (leads.tail ⟨last.1, met⟩)

theorem gathers_nil (visited : List KernelId) : u.Gathers visited [] ([], visited) where
  effects := by simp [invocations]
  visits x := by simp [invocations]

/-- A node that calls no kernel. -/
theorem Gathers.own (gathers : u.Gathers visited ns state) (calls : u.invoked? n = none) :
    u.Gathers visited (ns ++ [n]) (state.1 ++ u.ownEffects n, state.2) where
  effects := by
    simp only [List.append_eq_nil_iff, gathers.effects, ownEffects_eq_nil_iff, invocations_snoc, calls,
      List.mem_append, List.mem_singleton]
    grind
  visits x := by simp [gathers.visits x, invocations_snoc, calls]

/-- A node that calls a kernel adds what this one leads to from here. -/
theorem Gathers.call {next : Gathered} (gathers : u.Gathers visited ns state)
    (calls : u.invoked? n = some c)
    (effects : next.1 = [] ↔ state.1 = [] ∧ ∀ l, u.Leads state.2 c l → u.Innocent l)
    (visits : ∀ x, x ∈ next.2 ↔ x ∈ state.2 ∨ ∃ l, u.Leads state.2 c l ∧ l.id = x) :
    u.Gathers visited (ns ++ [n]) next := by
  have listed := mem_of_invoked? calls
  have callees : u.invocations (ns ++ [n]) = u.invocations ns ++ [c] := by
    rw [invocations_snoc, calls, Option.toList_some]
  refine ⟨?_, fun x => ?_⟩
  · rw [effects, gathers.effects, callees]
    constructor
    · rintro ⟨⟨harmless, innocent⟩, here⟩
      refine ⟨fun m member => ?_, fun c' called l leads => ?_⟩
      · rcases List.mem_append.mp member with old | new
        · exact harmless m old
        · exact List.mem_singleton.mp new ▸ not_effect_of_invoked? calls
      · rcases List.mem_append.mp called with old | new
        · exact innocent c' old l leads
        · obtain rfl := List.mem_singleton.mp new
          rcases gathers.leads_cases listed leads with ⟨c'', old, leads'⟩ | later
          · exact innocent c'' old l leads'
          · exact here l later
    · rintro ⟨harmless, innocent⟩
      exact ⟨⟨fun m member => harmless m (List.mem_append_left _ member),
        fun c' called => innocent c' (List.mem_append_left _ called)⟩,
        fun l later => innocent c (by simp) l (later.mono gathers.visited_subset)⟩
  · rw [visits, gathers.visits, callees, or_assoc]
    refine or_congr_right ⟨?_, ?_⟩
    · rintro (⟨c', old, l, leads, same⟩ | ⟨l, later, same⟩)
      · exact ⟨c', List.mem_append_left _ old, l, leads, same⟩
      · exact ⟨c, by simp, l, later.mono gathers.visited_subset, same⟩
    · rintro ⟨c', called, l, leads, same⟩
      rcases List.mem_append.mp called with old | new
      · exact Or.inl ⟨c', old, l, leads, same⟩
      · obtain rfl := List.mem_singleton.mp new
        rcases gathers.leads_cases listed leads with ⟨c'', old, leads'⟩ | later
        · exact Or.inl ⟨c'', old, l, leads', same⟩
        · exact Or.inr ⟨l, later, same⟩

/-- If kernels not visited are judged right, so are the nodes of a body. -/
theorem bodyState_gathers
    (judges : ∀ more, visited ⊆ more → ∀ c ∈ u.kernels, c.id ∉ more → u.Judges judge more c) :
    u.Gathers visited ns (u.bodyState judge visited ns) := by
  induction ns using List.reverseRecOn with
  | nil => exact gathers_nil visited
  | append_singleton ns n ih =>
      rw [bodyState_snoc, nodeEffects_eq]
      split
      · rename_i calls
        exact ih.own calls
      · rename_i c calls
        split
        · -- a visited kernel leads nowhere
          rename_i met
          have nowhere (l : KernelFn) : ¬u.Leads (u.bodyState judge visited ns).2 c l :=
            fun later => later.1 met
          exact ih.call calls (by simp [nowhere]) (by simp [nowhere])
        · rename_i fresh
          have right := judges _ ih.visited_subset c (mem_of_invoked? calls) fresh
          refine ih.call calls ?_ right.visits
          rw [List.append_eq_nil_iff, ← right.effects]
          simp

/-- A split of a list before one of its elements is one before the last element or one further left. -/
theorem exists_split_snoc {α : Type} {P : List α → α → Prop} {xs : List α} {x : α} :
    (∃ before y after, xs ++ [x] = before ++ y :: after ∧ P before y) ↔
      (∃ before y after, xs = before ++ y :: after ∧ P before y) ∨ P xs x := by
  constructor
  · rintro ⟨before, y, after, split, holds⟩
    rcases List.eq_nil_or_concat after with rfl | ⟨after, z, rfl⟩
    · obtain ⟨rfl, last⟩ := List.append_inj' split rfl
      obtain rfl : x = y := by simpa using last
      exact Or.inr holds
    · obtain ⟨rfl, -⟩ := List.append_inj' (split.trans (by simp : _ = (before ++ y :: after) ++ [z])) rfl
      exact Or.inl ⟨before, y, after, rfl, holds⟩
  · rintro (⟨before, y, after, rfl, holds⟩ | holds)
    · exact ⟨before, y, after ++ [x], by simp, holds⟩
    · exact ⟨xs, x, [], rfl, holds⟩

theorem impureCall_inj (called : u.invoked? n = some c) (named : u.named? g.name = some g)
    (same : impureCall g = impureCall c) : g = c := by
  have names : g.name = c.name := (String.append_right_inj _).mp same
  exact Option.some.inj (named.symm.trans (names ▸ named?_of_invoked? called))

/-- A kernel is told of if a call meets it when it has not been visited and it is judged impure. -/
theorem impureCall_mem_bodyState_iff (named : u.named? g.name = some g) :
    impureCall g ∈ (u.bodyState judge visited ns).1 ↔
      ∃ before n after, ns = before ++ n :: after ∧ u.invoked? n = some g ∧
        g.id ∉ (u.bodyState judge visited before).2 ∧
        (judge g (g.id :: (u.bodyState judge visited before).2)).1 ≠ [] := by
  induction ns using List.reverseRecOn with
  | nil => simp [bodyState]
  | append_singleton ns n ih =>
      rw [exists_split_snoc (P := fun before n => u.invoked? n = some g ∧
        g.id ∉ (u.bodyState judge visited before).2 ∧
        (judge g (g.id :: (u.bodyState judge visited before).2)).1 ≠ []), ← ih, bodyState_snoc,
        nodeEffects_eq]
      split
      · rename_i calls
        simp [calls, impureCall_not_mem_ownEffects]
      · rename_i c calls
        split
        · rename_i met
          have known : u.invoked? n = some g → g.id ∈ (u.bodyState judge visited ns).2 := by
            intro calls'
            obtain rfl := Option.some.inj (calls.symm.trans calls')
            exact met
          grind
        · rename_i fresh
          have one : impureCall g = impureCall c ↔ c = g :=
            ⟨fun same => (impureCall_inj calls named same).symm, fun same => same ▸ rfl⟩
          rw [List.mem_append, calls]
          refine or_congr_right ?_
          by_cases same : c = g
          · subst same
            by_cases silent : (judge c (c.id :: (u.bodyState judge visited ns).2)).1 = [] <;>
              simp [silent, fresh]
          · simp [same, one]

/-! ## The walk -/

/-- The kernels still to be visited. -/
def unvisited (u : SourceUnit) (visited : List KernelId) : List KernelFn :=
  u.kernels.filter fun k => !visited.contains k.id

theorem unvisited_lt (sub : visited ⊆ more) (listed : k ∈ u.kernels) (fresh : k.id ∉ visited)
    (known : k.id ∈ more) : (u.unvisited more).length < (u.unvisited visited).length := by
  have left : u.unvisited more = (u.unvisited visited).filter fun l => !more.contains l.id := by
    rw [unvisited, unvisited, List.filter_filter]
    refine List.filter_congr fun l _ => ?_
    by_cases before : l.id ∈ visited
    · simp [before, sub before]
    · simp [before]
  rw [left]
  refine List.length_filter_lt_length_iff_exists.mpr ⟨k, ?_, by simpa using known⟩
  exact List.mem_filter.mpr ⟨listed, by simpa using fresh⟩

/-- The effects of a known body are those gathered from its nodes, each once. -/
theorem effectsFrom_of_body {b : Node} (body : k.body = some b) (depth : Nat)
    (visited : List KernelId) :
    u.effectsFrom (depth + 1) k visited
      = (addNew [] (u.bodyState (u.effectsFrom depth) visited k.nodes).1,
        (u.bodyState (u.effectsFrom depth) visited k.nodes).2) := by
  rw [effectsFrom, body]
  simp [bodyState, KernelFn.nodes, body]

/-- As long as the depth left covers the kernels still to be visited, the judgement is right. -/
theorem effectsFrom_judges (depth : Nat) (listed : k ∈ u.kernels) (fresh : k.id ∉ visited)
    (enough : (u.unvisited visited).length ≤ depth) :
    u.Judges (u.effectsFrom depth) visited k := by
  induction depth generalizing k visited with
  | zero =>
      have there : k ∈ u.unvisited visited := List.mem_filter.mpr ⟨listed, by simpa using fresh⟩
      rw [List.eq_nil_of_length_eq_zero (Nat.le_zero.mp enough)] at there
      cases there
  | succ depth ih =>
      cases body : k.body with
      | none =>
          have alone (l : KernelFn) : u.Leads visited k l ↔ l = k := by
            simp [leads_iff listed fresh, KernelFn.nodes, body, invocations]
          have judged : u.effectsFrom (depth + 1) k (k.id :: visited)
              = (["external function " ++ k.name], k.id :: visited) := by
            rw [effectsFrom, body]
          refine ⟨?_, fun x => ?_⟩
          · simp [judged, alone, Innocent, KernelFn.hasBody, body]
          · simp [judged, alone, or_comm, eq_comm]
      | some b =>
          have gathers : u.Gathers (k.id :: visited) k.nodes
              (u.bodyState (u.effectsFrom depth) (k.id :: visited) k.nodes) := by
            refine bodyState_gathers fun more sub c listed' fresh' => ?_
            refine ih listed' fresh' (Nat.le_of_lt_succ (Nat.lt_of_lt_of_le ?_ enough))
            exact unvisited_lt (fun x known => sub (List.mem_cons_of_mem _ known)) listed fresh
              (sub List.mem_cons_self)
          have judged := effectsFrom_of_body (u := u) body depth (k.id :: visited)
          refine ⟨?_, fun x => ?_⟩
          · rw [judged, addNew_nil_eq_nil_iff, gathers.effects]
            constructor
            · rintro ⟨harmless, innocent⟩ l leads
              rcases (leads_iff listed fresh).mp leads with rfl | ⟨c, called, onward⟩
              · exact ⟨by simp [KernelFn.hasBody, body], harmless⟩
              · exact innocent c called l onward
            · intro innocent
              refine ⟨(innocent k ((leads_iff listed fresh).mpr (Or.inl rfl))).2, ?_⟩
              intro c called l onward
              exact innocent l ((leads_iff listed fresh).mpr (Or.inr ⟨c, called, onward⟩))
          · rw [judged, gathers.visits, List.mem_cons]
            constructor
            · rintro ((rfl | known) | ⟨c, called, l, onward, rfl⟩)
              · exact Or.inr ⟨k, (leads_iff listed fresh).mpr (Or.inl rfl), rfl⟩
              · exact Or.inl known
              · exact Or.inr ⟨l, (leads_iff listed fresh).mpr (Or.inr ⟨c, called, onward⟩), rfl⟩
            · rintro (known | ⟨l, leads, rfl⟩)
              · exact Or.inl (Or.inr known)
              · rcases (leads_iff listed fresh).mp leads with rfl | ⟨c, called, onward⟩
                · exact Or.inl (Or.inl rfl)
                · exact Or.inr ⟨c, called, l, onward, rfl⟩

end SourceUnit

end Retarget
