/-
# Proofs.ArgumentCalls -- calls in the arguments of planned calls

A call is found after the calls in its arguments, and these are found without a name
(`argumentsFirst_pairs`), so each of them that can have an entry has one, before that of the call it
is an argument of, and only one (`calls_nodup`).  Its result is named after its callee, and so is
the argument.

That name says nothing else.  The vector bound for an argument is the output of exactly one entry
before it, that of the argument, and this entry has code, exactly if the argument can have an entry
at all, the entry has code, and no other entry before has an output of this name
(`plan_argument_vectors`).  Two calls of one kernel in one expression share their output
(`plan_argument_vectors_shared`).
-/
import Retarget.Proofs.SyntaxNumbers
import Retarget.Proofs.InlinedCall
import Mathlib.Data.List.Flatten
import Mathlib.Data.List.Perm.Subperm

namespace Retarget

open Retarget.Source (Node NodeId)

set_option autoImplicit false
set_option linter.dupNamespace false

/-! ## Parts of walks -/

theorem subperm_flatMap {α β : Type} {f g : α → List β} {l : List α}
    (each : ∀ a ∈ l, (f a).Subperm (g a)) : (l.flatMap f).Subperm (l.flatMap g) := by
  induction l with
  | nil => exact List.Subperm.refl _
  | cons a l ih =>
      obtain ⟨first, others⟩ := List.forall_mem_cons.mp each
      rw [List.flatMap_cons, List.flatMap_cons]
      exact first.append (ih others)

namespace Source.Node

/-- A walk meets the node and, in the order of its slots, what walks over its children meet. -/
theorem visit_sublist (enter : Node → Nat → Bool) (n : Node) :
    (n.visit enter).Sublist (n :: n.children.flatMap (visit enter)) := by
  rw [visit_slots, ← slots_flatMap]
  refine List.Sublist.cons_cons n (List.Sublist.flatMap_right _ fun slot _ => ?_)
  split
  · exact List.Sublist.refl _
  · exact List.nil_sublist _

theorem preorder_sublist {a n : Node} (below : a ∈ n.preorder) : a.preorder.Sublist n.preorder := by
  rcases preorder_cases below with rfl | ⟨c, child, inner⟩
  · exact List.Sublist.refl _
  · rw [preorder_eq n, List.flatMap_def]
    exact (preorder_sublist inner).trans ((List.sublist_flatten_of_mem
      (List.mem_map_of_mem child)).trans (List.sublist_cons_self n _))
termination_by sizeOf n
decreasing_by exact sizeOf_child child

end Source.Node

namespace LoopCall

/-! ## One call -/

/-- The calls of a call's arguments that are not inside another. -/
def argumentCalls : Node → List Node
  | .call _ _ args _ => args.flatMap outermost
  | _ => []

theorem isCall_of_mem_outermost {c n : Node} (member : c ∈ outermost n) : isCall c = true :=
  (List.mem_filter.mp member).2

theorem outermost_subset (n : Node) : outermost n ⊆ n.preorder :=
  fun _ member => Node.visit_subset_preorder _ n (List.mem_filter.mp member).1

theorem outermost_of_isCall {n : Node} (call : isCall n = true) : outermost n = [n] := by
  rw [outermost, Node.visit_of_closed fun _ => by simp [call]]
  simp [call]

theorem outermost_sublist {n : Node} (other : isCall n = false) :
    (outermost n).Sublist (n.children.flatMap outermost) := by
  have below := (Node.visit_sublist (fun m _ => !isCall m && !m.isFuncLit) n).filter isCall
  rwa [List.filter_cons_of_neg (by simp [other]), List.filter_flatMap] at below

theorem outermost_unparen {n : Node} (call : isCall n.unparen = true) :
    outermost n = [n.unparen] := by
  cases n with
  | paren m x =>
      rw [Node.unparen, ← outermost_unparen (n := x) call, outermost, Node.visit_of_open fun _ => rfl]
      simp [outermost, Node.children, isCall]
  | _ => exact outermost_of_isCall call
termination_by sizeOf n
decreasing_by
  subst_vars
  exact Node.sizeOf_child List.mem_cons_self

theorem mem_argumentCalls {call arg : Node} {m : Source.Mark} {callee : Node} {args : List Node}
    {spread : Bool} (shape : call = .call m callee args spread) (among : arg ∈ args)
    (isCall : isCall arg.unparen = true) : arg.unparen ∈ argumentCalls call := by
  subst shape
  exact List.mem_flatMap.mpr ⟨arg, among, by simp [outermost_unparen isCall]⟩

theorem argumentCalls_below {c call : Node} (member : c ∈ argumentCalls call) :
    ∃ a ∈ call.children, c ∈ a.preorder := by
  cases call with
  | call m callee args spread =>
      obtain ⟨a, among, inner⟩ := List.mem_flatMap.mp member
      exact ⟨a, List.mem_cons_of_mem _ among, outermost_subset a inner⟩
  | _ => cases member

theorem argumentCalls_subset (call : Node) : argumentCalls call ⊆ call.preorder := by
  intro c member
  obtain ⟨a, child, inner⟩ := argumentCalls_below member
  exact Node.child_preorder child inner

theorem isCall_of_mem_argumentCalls {c call : Node} (member : c ∈ argumentCalls call) :
    isCall c = true := by
  cases call with
  | call m callee args spread =>
      obtain ⟨a, -, inner⟩ := List.mem_flatMap.mp member
      exact isCall_of_mem_outermost inner
  | _ => cases member

/-- The calls in the arguments nest less deep. -/
theorem length_argumentCalls {c call : Node} (member : c ∈ argumentCalls call) :
    c.preorder.length < call.preorder.length := by
  obtain ⟨a, child, inner⟩ := argumentCalls_below member
  have within := (Node.preorder_sublist inner).length_le
  have whole := (List.sublist_flatten_of_mem
    (List.mem_map_of_mem (f := Node.preorder) child)).length_le
  rw [Node.preorder_eq call, List.length_cons, List.flatMap_def]
  omega

theorem expand_succ {n : Node} (call : isCall n = true) (depth : Nat) :
    expand (depth + 1) n = (argumentCalls n).flatMap (expand depth) ++ [n] := by
  cases n <;> first | rfl | cases call

theorem expand_congr {n : Node} {d e : Nat} (deep : n.preorder.length ≤ d)
    (deep' : n.preorder.length ≤ e) : expand d n = expand e n := by
  have some : 0 < n.preorder.length := List.length_pos_of_mem n.self_mem_preorder
  induction d generalizing e n with
  | zero => omega
  | succ d ih =>
      obtain ⟨e, rfl⟩ : ∃ e', e = e' + 1 := ⟨e - 1, by omega⟩
      cases call : isCall n with
      | false => cases n <;> first | rfl | cases call
      | true =>
          rw [expand_succ call, expand_succ call]
          refine congrArg (· ++ [n])
            (congrArg List.flatten (List.map_congr_left fun c member => ?_))
          have less := length_argumentCalls member
          exact ih (by omega) (by omega) (List.length_pos_of_mem c.self_mem_preorder)

/-- A call comes after the calls in its arguments. -/
theorem expandCall_eq {n : Node} (call : isCall n = true) :
    expandCall n = (argumentCalls n).flatMap expandCall ++ [n] := by
  obtain ⟨depth, size⟩ : ∃ depth, n.preorder.length = depth + 1 :=
    ⟨n.preorder.length - 1, by have := List.length_pos_of_mem n.self_mem_preorder; omega⟩
  rw [expandCall, size, expand_succ call]
  refine congrArg (· ++ [n]) (congrArg List.flatten (List.map_congr_left fun c member => ?_))
  have less := length_argumentCalls member
  exact expand_congr (by omega) (Nat.le_refl _)

theorem flatMap_outermost_subperm (n : Node) :
    ((outermost n).flatMap expandCall).Subperm n.preorder := by
  have below : ((n.children.flatMap outermost).flatMap expandCall).Subperm
      (n.children.flatMap Node.preorder) := by
    rw [List.flatMap_assoc]
    exact subperm_flatMap fun c child => flatMap_outermost_subperm c
  rw [Node.preorder_eq]
  cases call : isCall n with
  | false =>
      exact ((outermost_sublist call).flatMap expandCall).subperm.trans
        (below.trans (List.sublist_cons_self n _).subperm)
  | true =>
      have inner : (argumentCalls n).Sublist (n.children.flatMap outermost) := by
        cases n with
        | call m callee args spread =>
            rw [Node.children, List.flatMap_cons]
            exact List.sublist_append_right _ _
        | _ => exact List.nil_sublist _
      rw [outermost_of_isCall call, List.flatMap_singleton, expandCall_eq call]
      refine (List.perm_append_singleton n _).subperm.trans ((List.subperm_cons n).mpr ?_)
      exact (inner.flatMap expandCall).subperm.trans below
termination_by sizeOf n
decreasing_by exact Node.sizeOf_child child

/-! ## The calls of a kernel -/

/-- Every call comes after the calls in its arguments, and these have no name. -/
inductive ArgumentsFirst : List (Node × String) → Prop
  | nil : ArgumentsFirst []
  | snoc {calls : List (Node × String)} {call : Node} {name : String} : ArgumentsFirst calls →
      (∀ c ∈ argumentCalls call, (c, "") ∈ calls) → ArgumentsFirst (calls ++ [(call, name)])

namespace ArgumentsFirst

variable {calls more : List (Node × String)}

theorem append (first : ArgumentsFirst calls) (second : ArgumentsFirst more) :
    ArgumentsFirst (calls ++ more) := by
  induction second with
  | nil => rwa [List.append_nil]
  | snoc _ listed ih =>
      rw [← List.append_assoc]
      exact ih.snoc fun c member => List.mem_append_right _ (listed c member)

theorem flatMap {α : Type} {f : α → List (Node × String)} {l : List α}
    (each : ∀ a ∈ l, ArgumentsFirst (f a)) : ArgumentsFirst (l.flatMap f) := by
  induction l with
  | nil => exact nil
  | cons a l ih =>
      obtain ⟨first, others⟩ := List.forall_mem_cons.mp each
      rw [List.flatMap_cons]
      exact first.append (ih others)

theorem mem_before {before after : List (Node × String)} {call : Node} {name : String}
    (ordered : ArgumentsFirst (before ++ (call, name) :: after)) {c : Node}
    (member : c ∈ argumentCalls call) : (c, "") ∈ before := by
  generalize whole : before ++ (call, name) :: after = calls at ordered
  induction ordered generalizing after with
  | nil => simp at whole
  | snoc _ listed ih =>
      rcases List.eq_nil_or_concat after with rfl | ⟨after, last, rfl⟩
      · obtain ⟨rfl, same⟩ := List.append_inj' whole rfl
        cases same
        exact listed c member
      · rw [List.concat_eq_append, ← List.cons_append, ← List.append_assoc] at whole
        exact ih (List.append_inj' whole rfl).1

end ArgumentsFirst

theorem argumentsFirst_expandCall {n : Node} (call : isCall n = true) :
    ArgumentsFirst ((expandCall n).map (·, "")) := by
  have inner : ArgumentsFirst (((argumentCalls n).flatMap expandCall).map (·, "")) := by
    rw [List.map_flatMap]
    exact .flatMap fun c member => argumentsFirst_expandCall (isCall_of_mem_argumentCalls member)
  rw [expandCall_eq call, List.map_append]
  refine inner.snoc fun c member => List.mem_map_of_mem (List.mem_flatMap.mpr ⟨c, member, ?_⟩)
  rw [expandCall_eq (isCall_of_mem_argumentCalls member)]
  exact List.mem_append_right _ List.mem_cons_self
termination_by n.preorder.length
decreasing_by exact length_argumentCalls member

/-- The call found at a node, and the name it is assigned to. -/
def foundCall? (n : Node) : Option (Node × String) :=
  match assignedCall? n with
  | some (target, call) => some (call, operandName target)
  | none => if isCall n then some (n, "") else none

theorem unparen_mem_preorder (n : Node) : n.unparen ∈ n.preorder := by
  cases n with
  | paren m x => exact Node.child_preorder (List.mem_singleton.mpr rfl) (unparen_mem_preorder x)
  | _ => exact Node.self_mem_preorder _
termination_by sizeOf n
decreasing_by exact Node.sizeOf_child List.mem_cons_self

theorem assignedCall?_cases {n target call : Node}
    (assigned : assignedCall? n = some (target, call)) :
    isCall call = true ∧ call ∈ n.preorder ∧ ∀ slot, enters n slot = false := by
  have closed : (assignedCall? n).isNone = false := by
    rw [assigned]
    rfl
  unfold assignedCall? at assigned
  split at assigned
  · rename_i m op left value
    obtain ⟨called, same⟩ := Option.ite_none_right_eq_some.mp assigned
    cases same
    refine ⟨called, Node.child_preorder (c := value) ?_ (unparen_mem_preorder value),
      fun _ => closed⟩
    simp [Node.children]
  · cases assigned

/-- The walk ends at a node where it finds a call. -/
theorem foundCall?_cases {n call : Node} {name : String}
    (found : foundCall? n = some (call, name)) :
    isCall call = true ∧ call ∈ n.preorder ∧ ∀ slot, enters n slot = false := by
  cases assigned : assignedCall? n with
  | some p =>
      simp only [foundCall?, assigned] at found
      cases found
      exact assignedCall?_cases assigned
  | none =>
      simp only [foundCall?, assigned] at found
      obtain ⟨called, same⟩ := Option.ite_none_right_eq_some.mp found
      cases same
      refine ⟨called, n.self_mem_preorder, fun slot => ?_⟩
      cases n <;> first | rfl | cases called

theorem found_eq_nil {n : Node} (none : foundCall? n = none) : found n = [] := by
  cases assigned : assignedCall? n with
  | some p => simp [foundCall?, assigned] at none
  | none =>
      simp only [foundCall?, assigned, ite_eq_right_iff, reduceCtorEq, imp_false] at none
      simp only [found, assigned, if_neg none]

theorem found_eq {n call : Node} {name : String} (here : foundCall? n = some (call, name)) :
    found n = ((argumentCalls call).flatMap expandCall).map (·, "") ++ [(call, name)] := by
  have expanded := expandCall_eq (foundCall?_cases here).1
  cases assigned : assignedCall? n with
  | some p =>
      simp only [foundCall?, assigned] at here
      cases here
      simp only [found, assigned, expanded, List.dropLast_concat]
  | none =>
      simp only [foundCall?, assigned] at here
      obtain ⟨called, same⟩ := Option.ite_none_right_eq_some.mp here
      cases same
      simp only [found, assigned, if_pos called, expanded, List.map_append, List.map_cons,
        List.map_nil]

theorem argumentsFirst_found (n : Node) : ArgumentsFirst (found n) := by
  cases here : foundCall? n with
  | none =>
      rw [found_eq_nil here]
      exact .nil
  | some p =>
      obtain ⟨call, name⟩ := p
      rw [found_eq here, List.map_flatMap]
      refine .snoc (.flatMap fun c member =>
        argumentsFirst_expandCall (isCall_of_mem_argumentCalls member)) fun c member => ?_
      refine List.mem_flatMap.mpr ⟨c, member, List.mem_map_of_mem ?_⟩
      rw [expandCall_eq (isCall_of_mem_argumentCalls member)]
      exact List.mem_append_right _ List.mem_cons_self

/-- The calls that the walk over a body finds. -/
def pairs (root : Node) : List (Node × String) := (root.visit enters).flatMap found

theorem argumentsFirst_pairs (root : Node) : ArgumentsFirst (pairs root) :=
  .flatMap fun n _ => argumentsFirst_found n

/-- No node of a body is found twice. -/
theorem pairs_subperm (root : Node) : ((pairs root).map Prod.fst).Subperm root.preorder := by
  cases here : foundCall? root with
  | none =>
      have below : (pairs root).Sublist (root.children.flatMap pairs) := by
        have walk := (Node.visit_sublist enters root).flatMap found
        rwa [List.flatMap_cons, found_eq_nil here, List.nil_append, List.flatMap_assoc] at walk
      have each : ((root.children.flatMap pairs).map Prod.fst).Subperm
          (root.children.flatMap Node.preorder) := by
        rw [List.map_flatMap]
        exact subperm_flatMap fun c child => pairs_subperm c
      rw [Node.preorder_eq]
      exact (below.map Prod.fst).subperm.trans (each.trans (List.sublist_cons_self root _).subperm)
  | some p =>
      obtain ⟨call, name⟩ := p
      obtain ⟨isCall, below, closed⟩ := foundCall?_cases here
      have calls : (pairs root).map Prod.fst = expandCall call := by
        rw [pairs, Node.visit_of_closed closed, List.flatMap_singleton, found_eq here,
          expandCall_eq isCall, List.map_append, List.map_map]
        exact congrArg (· ++ [call]) (List.map_id _)
      have within := flatMap_outermost_subperm call
      rw [outermost_of_isCall isCall, List.flatMap_singleton] at within
      rw [calls]
      exact within.trans (Node.preorder_sublist below).subperm
termination_by sizeOf root
decreasing_by exact Node.sizeOf_child child

/-! ## The sites of a kernel -/

variable {u : SourceUnit} {k : KernelFn} {root : Node}

/-- A site is a call in a loop that is neither a conversion nor an intrinsic. -/
theorem ofCall?_eq_some {call : Node} {name : String} {site : LoopCall}
    (made : ofCall? u root call name = some site) :
    site.call = call ∧ (innermostLoop? root call.id).isSome = true ∧
      u.isConversion call = false ∧ u.scope.isVectorCall call = false ∧
      (∃ m callee spread, call = .call m callee site.args spread) ∧
        site.output = if name == "" then operandName call else name := by
  cases call with
  | call m callee args spread =>
      rw [ofCall?] at made
      obtain ⟨loop, innermost, made⟩ := Option.bind_eq_some_iff.mp made
      split at made
      · cases made
      · rename_i plain
        cases made
        simp only [Bool.or_eq_true, not_or, Bool.not_eq_true] at plain
        exact ⟨rfl, by rw [innermost]; rfl, plain.1, plain.2, ⟨m, callee, spread, rfl⟩, rfl⟩
  | _ => cases made

theorem ofCall?_isSome {call : Node} {name : String} (isCall : isCall call = true)
    (inLoop : (innermostLoop? root call.id).isSome = true) (apart : u.isConversion call = false)
    (plain : u.scope.isVectorCall call = false) : (ofCall? u root call name).isSome = true := by
  obtain ⟨loop, innermost⟩ := Option.isSome_iff_exists.mp inLoop
  cases call with
  | call m callee args spread =>
      rw [ofCall?, innermost, Option.bind_some, apart, plain]
      rfl
  | _ => cases isCall

theorem innermostLoop?_isSome_iff {id : NodeId} :
    (innermostLoop? root id).isSome = true ↔ ∃ n ∈ root.outsideLiterals, ∃ body,
      loopBody? n = some body ∧ ∃ m ∈ body.preorder, m.id = id := by
  rw [innermostLoop?, List.getLast?_isSome, ← List.length_pos_iff, List.length_pos_iff_exists_mem]
  simp only [List.mem_filterMap, Option.bind_eq_some_iff, Option.ite_none_right_eq_some,
    List.any_eq_true, beq_iff_eq]
  grind

theorem loopBody?_child {n body : Node} (loop : loopBody? n = some body) : body ∈ n.children := by
  cases n <;> cases loop <;> simp [Node.children]

/-- A loop that holds a node holds what is below it. -/
theorem innermostLoop?_below (numbered : root.ids.Nodup) {n c : Node} (known : n ∈ root.preorder)
    (below : c ∈ n.preorder) (inLoop : (innermostLoop? root n.id).isSome = true) :
    (innermostLoop? root c.id).isSome = true := by
  obtain ⟨loop, met, body, shape, m, held, same⟩ := innermostLoop?_isSome_iff.mp inLoop
  have inner : m ∈ root.preorder := Node.preorder_trans
    (Node.child_preorder (loopBody?_child shape) held) (Node.visit_subset_preorder _ root met)
  obtain rfl : m = n := List.inj_on_of_nodup_map numbered inner known same
  exact innermostLoop?_isSome_iff.mpr
    ⟨loop, met, body, shape, c, Node.preorder_trans below held, rfl⟩

theorem ofKernel_eq (body : k.body = some root) :
    ofKernel u k = (pairs root).filterMap fun p => ofCall? u root p.1 p.2 := by
  rw [ofKernel, body]
  rfl

theorem ofKernel_site {site : LoopCall} (member : site ∈ ofKernel u k) :
    u.isConversion site.call = false ∧ u.scope.isVectorCall site.call = false ∧
      ∃ m callee spread, site.call = .call m callee site.args spread := by
  cases body : k.body with
  | none => simp [ofKernel, body] at member
  | some root =>
      rw [ofKernel_eq body] at member
      obtain ⟨p, -, made⟩ := List.mem_filterMap.mp member
      obtain ⟨same, -, apart, plain, shape, -⟩ := ofCall?_eq_some made
      exact same ▸ ⟨apart, plain, shape⟩

/-- A call has one site. -/
theorem calls_nodup (body : k.body = some root) (numbered : root.ids.Nodup) :
    ((ofKernel u k).map (·.call)).Nodup := by
  have once : ((pairs root).map Prod.fst).Nodup := by
    obtain ⟨calls, order, part⟩ := pairs_subperm root
    exact order.nodup_iff.mp (part.nodup (List.Nodup.of_map _ numbered))
  rw [ofKernel_eq body, List.Nodup, List.pairwise_map, List.pairwise_filterMap]
  refine (List.pairwise_map.mp once).imp fun apart site made site' made' => ?_
  rwa [(ofCall?_eq_some made).1, (ofCall?_eq_some made').1]

theorem unparen_unparen (n : Node) : n.unparen.unparen = n.unparen := by
  cases n with
  | paren m x => exact unparen_unparen x
  | _ => rfl
termination_by sizeOf n
decreasing_by exact Node.sizeOf_child List.mem_cons_self

theorem operandName_unparen (n : Node) : operandName n.unparen = operandName n := by
  rw [operandName, operandName, unparen_unparen]

/-- A call in the arguments of a site has a site before it, named like the argument, unless it can
have none. -/
theorem site_of_argument (body : k.body = some root) (numbered : root.ids.Nodup)
    {before after : List LoopCall} {site : LoopCall}
    (sites : ofKernel u k = before ++ site :: after) {c : Node}
    (member : c ∈ argumentCalls site.call) (apart : u.isConversion c = false)
    (plain : u.scope.isVectorCall c = false) :
    ∃ d ∈ before, d.call = c ∧ d.output = operandName c := by
  rw [ofKernel_eq body, List.filterMap_eq_append_iff] at sites
  obtain ⟨first, rest, split, made, others⟩ := sites
  obtain ⟨skipped, p, later, rfl, none, here, -⟩ := List.filterMap_eq_cons_iff.mp others
  obtain ⟨call, name⟩ := p
  obtain ⟨same, inLoop, -⟩ := ofCall?_eq_some here
  rw [same] at member
  have ordered := argumentsFirst_pairs root
  rw [split, ← List.append_assoc] at ordered
  have listed := ordered.mem_before member
  -- the loop of the call holds its arguments
  have known : call ∈ root.preorder := by
    refine (pairs_subperm root).subset (List.mem_map.mpr ⟨(call, name), ?_, rfl⟩)
    rw [split]
    simp
  have deep := innermostLoop?_below numbered known (argumentCalls_subset call member) inLoop
  obtain ⟨d, found⟩ : ∃ d, ofCall? u root c "" = some d := Option.isSome_iff_exists.mp
    (ofCall?_isSome (isCall_of_mem_argumentCalls member) deep apart plain)
  obtain ⟨called, -, -, -, -, output⟩ := ofCall?_eq_some found
  refine ⟨d, ?_, called, output⟩
  rw [← made]
  rcases List.mem_append.mp listed with early | between
  · exact List.mem_filterMap.mpr ⟨(c, ""), early, found⟩
  · rw [none _ between] at found
    cases found

end LoopCall

/-! ## Plans -/

/-- The vector of an argument at a position of a plan is the output of exactly one entry before,
that of the argument, and this entry has code. -/
def Linked (plan : List Inlined) (position : Nat) (arg : Node) : Prop :=
  ∃ d, (plan.take position).filter (·.context.site.output == LoopCall.operandName arg) = [d] ∧
    d.context.site.call = arg.unparen ∧ d.error = none

/-- Where a name is used by a call that has an entry, and calls have one entry each, the entry is
found by the name exactly if it alone has it. -/
theorem linked_iff {plan : List Inlined} {position : Nat} {arg : Node}
    (once : (plan.map (·.context.site.call)).Nodup)
    (named : ∃ d ∈ plan.take position, d.context.site.call = arg.unparen ∧
      d.context.site.output = LoopCall.operandName arg) :
    Linked plan position arg ↔ ∀ d ∈ plan.take position,
      (d.context.site.call = arg.unparen → d.error = none) ∧
      (d.context.site.output = LoopCall.operandName arg → d.context.site.call = arg.unparen) := by
  have distinct : ((plan.take position).map (·.context.site.call)).Nodup := by
    rw [List.map_take]
    exact once.sublist (List.take_sublist position _)
  have one {d d' : Inlined} (member : d ∈ plan.take position) (member' : d' ∈ plan.take position)
      (same : d.context.site.call = d'.context.site.call) : d = d' :=
    List.inj_on_of_nodup_map distinct member member' same
  obtain ⟨d, member, called, output⟩ := named
  constructor
  · rintro ⟨d', only, called', coded⟩ x among
    have member' : d' ∈ plan.take position :=
      List.mem_of_mem_filter (only ▸ List.mem_singleton.mpr rfl)
    refine ⟨fun same => one among member' (same.trans called'.symm) ▸ coded, fun same => ?_⟩
    have kept : x ∈ [d'] := only ▸ List.mem_filter.mpr ⟨among, by simpa using same⟩
    rw [List.mem_singleton.mp kept, called']
  · intro clean
    refine ⟨d, ?_, called, (clean d member).1 called⟩
    have nodup := (List.Nodup.of_map _ distinct).filter
      (·.context.site.output == LoopCall.operandName arg)
    refine List.perm_singleton.mp ((List.perm_ext_iff_of_nodup nodup (by simp)).mpr fun x => ?_)
    simp only [List.mem_filter, beq_iff_eq, List.mem_singleton]
    constructor
    · rintro ⟨among, same⟩
      exact one among member (((clean x among).2 same).trans called.symm)
    · rintro rfl
      exact ⟨member, output⟩

namespace NestedCalls

/-- The call of `scale` on one variable. -/
def scaled (first : Nat) (operand : String) : Node :=
  .call ⟨first, 0, 0⟩ (.name ⟨first + 1, 0, 0⟩ "scale") [.name ⟨first + 2, 0, 0⟩ operand] false

/-- A loop around `r = fmax(x, y)`. -/
def looping (x y : Node) : Node :=
  .forStmt ⟨1, 0, 0⟩ none none none (.block ⟨2, 0, 0⟩ [
    .assign ⟨3, 0, 0⟩ .set [.name ⟨4, 0, 0⟩ "r"]
      [.call ⟨5, 0, 0⟩ (.name ⟨6, 0, 0⟩ "fmax") [x, y] false]])

def kernel (x y : Node) : KernelFn :=
  { (default : KernelFn) with
    body := some (.block ⟨0, 0, 0⟩ [looping x y])
    fallOff := .ret ⟨30, 0, 0⟩ [] }

/-- One rule for both functions, which only uses the first operand. -/
def rule : Rule where
  id := "calls"
  category := Database.inlineCategory
  pattern := { operations := ["fmax", "scale"] }
  templates := [("NEON", {
    code := ""
    segments := [.hole "output", .literal "_vec = ", .hole "operation", .literal "_vec(",
      .hole "input_0", .literal "_vec);"] })]

def inliner (x y : Node) : Inliner where
  unit := { file := "", lines := default, scope := {}, kernels := [kernel x y], numbered := rfl }
  rules := ⟨[rule]⟩

def plan (x y : Node) : List Inlined := ((inliner x y).plan .neon (kernel x y)).value.2

end NestedCalls

/-- An argument that is a call is bound to a vector named after its callee, which no line of the
entry makes.  The argument has an entry before, with an output of this name, exactly if it is
neither a conversion nor an intrinsic, and no call has two entries.  So the vector is that of the
argument exactly if, besides, its entry has code and no other entry before has an output of this
name. -/
theorem plan_argument_vectors {s : Inliner} {k : KernelFn} (parsed : s.unit.Numbered)
    (listed : k ∈ s.unit.kernels) (target : Architecture) {i j : Nat} {e : Inlined} {arg : Node}
    (entry : (s.plan target k).value.2[j]? = some e) (made : e.error = none)
    (argument : e.context.site.args[i]? = some arg) (isCall : LoopCall.isCall arg.unparen = true) :
    (∃ rule template bindings text, ∃ ops : List (String × List String),
      e.context.rule = some rule ∧ rule.template? target.name = some template ∧
      template.render bindings = (text, none) ∧
      e.code = ops.flatMap (·.2) ++ Text.splitAt '\n' text ∧
      ops[i]? = some (LoopCall.operandName arg, []) ∧
      bindings.lookup (inputName i) = some (LoopCall.operandName arg)) ∧
    ((s.plan target k).value.2.map (·.context.site.call)).Nodup ∧
    ((s.unit.isConversion arg.unparen = false ∧ s.unit.scope.isVectorCall arg.unparen = false) ↔
      ∃ d ∈ (s.plan target k).value.2.take j, d.context.site.call = arg.unparen ∧
        d.context.site.output = LoopCall.operandName arg) ∧
    (Linked (s.plan target k).value.2 j arg ↔
      s.unit.isConversion arg.unparen = false ∧ s.unit.scope.isVectorCall arg.unparen = false ∧
        ∀ d ∈ (s.plan target k).value.2.take j,
          (d.context.site.call = arg.unparen → d.error = none) ∧
          (d.context.site.output = LoopCall.operandName arg →
            d.context.site.call = arg.unparen)) := by
  obtain ⟨sites, entries⟩ := s.plan_spec target k
  generalize (s.plan target k).value.2 = plan at *
  have member := List.mem_of_getElem? entry
  have site : e.context.site ∈ LoopCall.ofKernel s.unit k := sites ▸ List.mem_map_of_mem member
  have plain {d : Inlined} (among : d ∈ plan) :
      s.unit.isConversion d.context.site.call = false ∧
        s.unit.scope.isVectorCall d.context.site.call = false := by
    have site : d.context.site ∈ LoopCall.ofKernel s.unit k := sites ▸ List.mem_map_of_mem among
    exact ⟨(LoopCall.ofKernel_site site).1, (LoopCall.ofKernel_site site).2.1⟩
  obtain ⟨root, body⟩ : ∃ root, k.body = some root := by
    cases body : k.body with
    | none => simp [LoopCall.ofKernel, body] at site
    | some root => exact ⟨root, rfl⟩
  have numbered : root.ids.Nodup := parsed.tree (SourceUnit.tree_of_body listed body)
  have once : (plan.map (·.context.site.call)).Nodup := by
    have calls := LoopCall.calls_nodup (u := s.unit) body numbered
    rwa [← sites, List.map_map] at calls
  have named : (s.unit.isConversion arg.unparen = false ∧
      s.unit.scope.isVectorCall arg.unparen = false) ↔ ∃ d ∈ plan.take j,
        d.context.site.call = arg.unparen ∧ d.context.site.output = LoopCall.operandName arg := by
    constructor
    · rintro ⟨apart, direct⟩
      obtain ⟨-, -, m, callee, spread, shape⟩ := LoopCall.ofKernel_site site
      have below := LoopCall.mem_argumentCalls shape (List.mem_of_getElem? argument) isCall
      have split : LoopCall.ofKernel s.unit k =
          (plan.take j).map (·.context.site) ++ e.context.site ::
            (plan.drop (j + 1)).map (·.context.site) := by
        obtain ⟨within, rfl⟩ := List.getElem?_eq_some_iff.mp entry
        have halves := congrArg (List.map (·.context.site)) (List.take_append_drop j plan)
        rw [List.drop_eq_getElem_cons within, List.map_append, List.map_cons, sites] at halves
        exact halves.symm
      obtain ⟨d, before, called, output⟩ :=
        LoopCall.site_of_argument body numbered split below apart direct
      obtain ⟨d, early, rfl⟩ := List.mem_map.mp before
      exact ⟨d, early, called, output.trans (LoopCall.operandName_unparen arg)⟩
    · rintro ⟨d, early, called, -⟩
      exact called ▸ plain (List.mem_of_mem_take early)
  refine ⟨?_, once, named, ?_⟩
  · obtain ⟨s', c, rfl⟩ := entries e member
    obtain ⟨rule, template, prof, text, matched, given, rendered, code⟩ := s'.inline_ok target made
    rw [s'.inline_context target c] at argument ⊢
    have operand : (s'.operands prof c.site)[i]? = some (LoopCall.operandName arg, []) :=
      s'.operands_call argument isCall
    refine ⟨rule, template, _, text, _, matched, given, rendered, code, operand, ?_⟩
    refine s'.bindings_lookup target ?_
    rw [Inliner.names, List.getElem?_map, operand, Option.map_some]
  · constructor
    · intro linked
      have plain : s.unit.isConversion arg.unparen = false ∧
          s.unit.scope.isVectorCall arg.unparen = false := by
        obtain ⟨d, only, called, -⟩ := linked
        have early : d ∈ plan.take j :=
          List.mem_of_mem_filter (only ▸ List.mem_singleton.mpr rfl)
        exact called ▸ plain (List.mem_of_mem_take early)
      exact ⟨plain.1, plain.2, (linked_iff once (named.mp plain)).mp linked⟩
    · rintro ⟨apart, direct, clean⟩
      exact (linked_iff once (named.mp ⟨apart, direct⟩)).mpr clean

open NestedCalls in
/-- `r = fmax(scale(a), b)` in a loop. -/
theorem plan_argument_vectors_nested :
    let x := scaled 10 "a"
    let y := Node.name ⟨20, 0, 0⟩ "b"
    (inliner x y).unit.Numbered ∧ ∃ first e arg, plan x y = [first, e] ∧ e.error = none ∧
      e.context.site.args[0]? = some arg ∧ LoopCall.isCall arg.unparen = true ∧
      Linked (plan x y) 1 arg := by
  intro x y
  let told (e : Inlined) : Option (Bool × Bool × Bool) := e.context.site.args[0]?.map fun arg : Node =>
    (LoopCall.isCall arg.unparen, (inliner x y).unit.isConversion arg.unparen,
      (inliner x y).unit.scope.isVectorCall arg.unparen)
  obtain ⟨numbered, errors, args⟩ : (inliner x y).unit.Numbered ∧
      (plan x y).map (·.error) = [none, none] ∧
      (plan x y).map told = [some (false, false, false), some (true, false, false)] := by
    decide +kernel
  obtain ⟨first, e, entries⟩ : ∃ first e, plan x y = [first, e] := by
    refine List.length_eq_two.mp ?_
    simpa using congrArg List.length errors
  rw [entries] at errors args
  simp only [List.map_cons, List.map_nil, List.cons.injEq, and_true] at errors args
  obtain ⟨arg, argument, shape⟩ := Option.map_eq_some_iff.mp args.2
  simp only [Prod.mk.injEq] at shape
  obtain ⟨isCall, apart, plain⟩ := shape
  obtain ⟨-, -, named, linked⟩ := plan_argument_vectors (s := inliner x y) (k := kernel x y)
    numbered (List.mem_singleton.mpr rfl) .neon (j := 1) (i := 0)
    (show (plan x y)[1]? = some e by rw [entries]; rfl) errors.2 argument isCall
  refine ⟨numbered, first, e, arg, entries, errors.2, argument, isCall,
    linked.mpr ⟨apart, plain, fun d early => ?_⟩⟩
  -- the one entry before is that of the argument
  obtain ⟨d', early', called, -⟩ := named.mp ⟨apart, plain⟩
  have before : (plan x y).take 1 = [first] := by rw [entries]; rfl
  change d ∈ (plan x y).take 1 at early
  change d' ∈ (plan x y).take 1 at early'
  rw [before, List.mem_singleton] at early early'
  subst early early'
  exact ⟨fun _ => errors.1, fun _ => called⟩

open NestedCalls in
/-- In `r = fmax(scale(a), scale(b))` the results of both inner calls have one name, so neither
operand of the outer one is linked. -/
theorem plan_argument_vectors_shared :
    let x := scaled 10 "a"
    let y := scaled 20 "b"
    (plan x y).map (·.error) = [none, none, none] ∧
      (plan x y).map (·.context.site.output) = ["scale_result", "scale_result", "r"] ∧
      (plan x y).map (·.code.getLast?) = [some "scale_result_vec = scale_vec(a_vec);",
        some "scale_result_vec = scale_vec(b_vec);", some "r_vec = max_vec(scale_result_vec);"] ∧
      ¬Linked (plan x y) 2 x ∧ ¬Linked (plan x y) 2 y := by
  intro x y
  have facts : (plan x y).map (·.error) = [none, none, none] ∧
      (plan x y).map (·.context.site.output) = ["scale_result", "scale_result", "r"] ∧
      (plan x y).map (·.code.getLast?) = [some "scale_result_vec = scale_vec(a_vec);",
        some "scale_result_vec = scale_vec(b_vec);", some "r_vec = max_vec(scale_result_vec);"] ∧
      ((plan x y).take 2).countP (·.context.site.output == "scale_result") = 2 := by
    decide +kernel
  obtain ⟨errors, outputs, code, two⟩ := facts
  have apart {arg : Node} (named : LoopCall.operandName arg = "scale_result") :
      ¬Linked (plan x y) 2 arg := by
    rintro ⟨d, only, -⟩
    rw [named] at only
    rw [List.countP_eq_length_filter, only] at two
    cases two
  exact ⟨errors, outputs, code, apart (by decide +kernel), apart (by decide +kernel)⟩

end Retarget
