/-
# Proofs.ExpansionFrame -- what expanding a kernel leaves of it

An expansion shares the parts of the returned expression that are not copied (`sharedParts`), and
these take the new names.  The expression stays as it was exactly if no name in these parts is a
name of a parameter (`afterExpansion_eq_iff`, `rename_eq_iff`).

So a sequence of calls leaves the unit as it was, at every point, exactly if this holds of every
expansion it asks for; then each call is rendered as if it were the first, and its text is the
returned expression in the names of its operands (`inlining_frame`).  In what is copied every name
is that of a variable or of a callee, so there nothing else takes a name.  Otherwise the
operands of one call are found in the text of the next (`inlining_frame_deref`).
-/
import Retarget.Proofs.CallPlan
import Retarget.Proofs.SyntaxNumbers
import Retarget.Proofs.InlinedCall

namespace Retarget

open Retarget.Source (Node Mark)

set_option autoImplicit false
set_option linter.dupNamespace false

namespace Source.Node

/-! ## Renamings that change nothing -/

variable {r : Renaming}

theorem renameAll_eq_iff (ns : List Node) : renameAll r ns = ns ↔ ∀ n ∈ ns, rename r n = n := by
  induction ns with
  | nil => simp [renameAll]
  | cons n ns ih => simp [renameAll, ih]

theorem renameOpt_eq_iff (n : Option Node) :
    renameOpt r n = n ↔ ∀ m ∈ n.toList, rename r m = m := by
  cases n <;> simp [renameOpt]

/-- A node stays if it is no name that changes and its children stay. -/
theorem rename_eq_iff_children (n : Node) : rename r n = n ↔
    (∀ m text, n = name m text → renameName r m text = n) ∧ ∀ c ∈ n.children, rename r c = c := by
  cases n <;> dsimp only [rename, children] <;>
    simp [renameAll_eq_iff, renameOpt_eq_iff, or_imp, forall_and]

/-- A tree stays if all its names do. -/
theorem rename_eq_iff (n : Node) : rename r n = n ↔
    ∀ m text, name m text ∈ n.preorder → renameName r m text = name m text := by
  rw [rename_eq_iff_children]
  constructor
  · rintro ⟨here, below⟩ m text met
    rcases preorder_cases met with rfl | ⟨c, child, inner⟩
    · exact here m text rfl
    · exact (rename_eq_iff c).mp (below c child) m text inner
  · intro stay
    refine ⟨?_, fun c child => (rename_eq_iff c).mpr fun m text inner =>
      stay m text (child_preorder child inner)⟩
    rintro m text rfl
    exact stay m text (self_mem_preorder _)
termination_by sizeOf n
decreasing_by all_goals exact sizeOf_child child

mutual

/-- The parts of an expression that an expansion does not copy. -/
def sharedParts : Node → List Node
  | name .. | literal .. => []
  | paren _ x | unary _ _ x => sharedParts x
  | binary _ _ x y | index _ x y => sharedParts x ++ sharedParts y
  | call _ (name ..) args _ => sharedPartsAll args
  | call _ callee args _ => callee :: sharedPartsAll args
  | n => [n]

def sharedPartsAll : List Node → List Node
  | [] => []
  | n :: ns => sharedParts n ++ sharedPartsAll ns

end

theorem sharedPartsAll_eq (ns : List Node) : sharedPartsAll ns = ns.flatMap sharedParts := by
  induction ns with
  | nil => rfl
  | cons n ns ih => rw [sharedPartsAll, ih, List.flatMap_cons]

theorem afterExpansionAll_eq_iff (ns : List Node) :
    afterExpansionAll r ns = ns ↔ ∀ n ∈ ns, afterExpansion r n = n := by
  induction ns with
  | nil => simp [afterExpansionAll]
  | cons n ns ih => simp [afterExpansionAll, ih]

/-- An expression outlasts its expansion if the parts it shares do. -/
theorem afterExpansion_eq_iff (x : Node) :
    afterExpansion r x = x ↔ ∀ n ∈ x.sharedParts, rename r n = n := by
  cases x with
  | name | literal => exact iff_of_true rfl fun _ among => nomatch among
  | paren m x =>
      dsimp only [afterExpansion, sharedParts]
      rw [paren.injEq, afterExpansion_eq_iff x, eq_self, true_and]
  | unary m op x =>
      dsimp only [afterExpansion, sharedParts]
      rw [unary.injEq, afterExpansion_eq_iff x, eq_self, eq_self, true_and, true_and]
  | binary m op x y =>
      dsimp only [afterExpansion, sharedParts]
      rw [binary.injEq, List.forall_mem_append, afterExpansion_eq_iff x, afterExpansion_eq_iff y]
      simp only [true_and]
  | index m x i =>
      dsimp only [afterExpansion, sharedParts]
      rw [index.injEq, List.forall_mem_append, afterExpansion_eq_iff x, afterExpansion_eq_iff i]
      simp only [true_and]
  | call m callee args spread =>
      have each : afterExpansionAll r args = args ↔
          ∀ n ∈ sharedPartsAll args, rename r n = n := by
        rw [afterExpansionAll_eq_iff, sharedPartsAll_eq, List.forall_mem_flatMap]
        exact forall₂_congr fun a among => afterExpansion_eq_iff a
      cases callee with
      | name =>
          dsimp only [afterExpansion, sharedParts]
          rw [call.injEq, ← each]
          simp only [true_and, and_true]
      | _ =>
          dsimp only [afterExpansion, sharedParts]
          rw [call.injEq, List.forall_mem_cons, ← each]
          simp only [true_and, and_true]
  | _ =>
      dsimp only [afterExpansion, sharedParts]
      rw [List.forall_mem_singleton]
termination_by sizeOf x
decreasing_by all_goals exact sizeOf_child (by simp_all [children])

end Source.Node

/-! ## Kernels of one returned expression -/

theorem KernelFn.returned?_eq_some {k : KernelFn} {x : Node} (single : k.returned? = some x) :
    ∃ m rm, k.body = some (.block m [.ret rm [x]]) := by
  unfold KernelFn.returned? at single
  split at single
  · rename_i m rm y body
    cases single
    exact ⟨m, rm, body⟩
  · cases single

theorem withReturned_eq_iff {k : KernelFn} {x y : Node} (single : k.returned? = some x) :
    Inliner.withReturned k y = k ↔ y = x := by
  obtain ⟨m, rm, body⟩ := KernelFn.returned?_eq_some single
  cases k
  cases body
  simp [Inliner.withReturned]

theorem withReturned_of_none {k : KernelFn} (none : k.returned? = none) (x : Node) :
    Inliner.withReturned k x = k := by
  unfold Inliner.withReturned
  split
  · rename_i m rm y body
    simp [KernelFn.returned?, body] at none
  · rfl

namespace SourceUnit

variable {u : SourceUnit} {k : KernelFn} {x y : Node}

/-- The unit with another expression in place of the one a kernel returns. -/
def returning (u : SourceUnit) (k : KernelFn) (x : Node) : SourceUnit :=
  u.mapKernels (fun f => if f.id == k.id then Inliner.withReturned f x else f) fun f => by
    split
    · exact Inliner.withReturned_id f _
    · rfl

theorem map_eq_self_iff {α : Type} {f : α → α} {l : List α} : l.map f = l ↔ ∀ a ∈ l, f a = a := by
  have pointwise := List.map_inj_left (f := f) (g := id) (l := l)
  rwa [List.map_id] at pointwise

theorem ext_kernels {v : SourceUnit} (file : u.file = v.file) (lines : u.lines = v.lines)
    (scope : u.scope = v.scope) (kernels : u.kernels = v.kernels) : u = v := by
  cases u
  cases v
  simp_all

theorem returning_eq_iff (listed : k ∈ u.kernels) (single : k.returned? = some x) :
    u.returning k y = u ↔ y = x := by
  rw [← withReturned_eq_iff single]
  constructor
  · intro same
    have kernels := congrArg SourceUnit.kernels same
    have here := map_eq_self_iff.mp kernels k listed
    simpa using here
  · intro same
    refine ext_kernels rfl rfl rfl (map_eq_self_iff.mpr fun f among => ?_)
    by_cases own : f.id = k.id
    · rw [kernel_inj among listed own]
      simpa using same
    · simp [own]

/-- A kernel with a body of another form stays. -/
theorem returning_kernel {i : Nat} {f : KernelFn} (here : u.kernels[i]? = some f)
    (none : f.returned? = none) : (u.returning k y).kernels[i]? = some f := by
  rw [returning, mapKernels, List.getElem?_map, here, Option.map_some]
  split
  · rw [withReturned_of_none none]
  · rfl

end SourceUnit

/-! ## Expansions -/

namespace Inliner

/-- The kernel that rendering a call expands, the expression it returns, and its new names. -/
def expansion? (s : Inliner) (target : Architecture) (c : InlineCall) :
    Option (KernelFn × Node × Node.Renaming) :=
  c.rule.bind fun rule => (rule.template? target.name).bind fun _ =>
    (Profile.find? target.name (s.elementType c)).bind fun prof =>
      if rule.pattern.operations.isEmpty then
        c.candidate.bind fun known => (s.unit.kernel? known.kernel).bind fun k =>
          k.returned?.map fun x => (k, x, paramRenaming k (s.names prof c))
      else none

variable {s : Inliner} {target : Architecture} {c : InlineCall} {k : KernelFn} {x : Node}
  {r : Node.Renaming}

theorem expansion?_eq_some (asked : s.expansion? target c = some (k, x, r)) :
    k ∈ s.unit.kernels ∧ k.returned? = some x ∧ ∃ rule template prof, c.rule = some rule ∧
      rule.template? target.name = some template ∧
      Profile.find? target.name (s.elementType c) = some prof ∧
      r = paramRenaming k (s.names prof c) := by
  obtain ⟨rule, matched, asked⟩ := Option.bind_eq_some_iff.mp asked
  obtain ⟨template, given, asked⟩ := Option.bind_eq_some_iff.mp asked
  obtain ⟨prof, profile, asked⟩ := Option.bind_eq_some_iff.mp asked
  obtain ⟨-, asked⟩ := Option.ite_none_right_eq_some.mp asked
  obtain ⟨known, -, asked⟩ := Option.bind_eq_some_iff.mp asked
  obtain ⟨k, found, asked⟩ := Option.bind_eq_some_iff.mp asked
  obtain ⟨x, single, same⟩ := Option.map_eq_some_iff.mp asked
  cases same
  exact ⟨List.mem_of_getElem? found, single, rule, template, prof, matched, given, profile, rfl⟩

theorem expanded_eq {rule : Rule} {template : Template} {prof : Profile}
    (matched : c.rule = some rule) (given : rule.template? target.name = some template)
    (profile : Profile.find? target.name (s.elementType c) = some prof) :
    s.expanded rule c (s.names prof c) = match s.expansion? target c with
      | none => (s, none)
      | some (k, x, r) => ({ s with unit := s.unit.returning k (x.afterExpansion r) },
          some (s.unit.print (x.rename r))) := by
  simp only [expansion?, matched, given, profile, Option.bind_some, expanded, expand]
  cases c.candidate with
  | none => simp
  | some known =>
      cases byName : rule.pattern.operations.isEmpty with
      | false => simp
      | true =>
          cases found : s.unit.kernel? known.kernel with
          | none => simp [found]
          | some k =>
              cases single : k.returned? with
              | none => simp [found, single]
              | some x =>
                  simp only [found, single, if_true, Option.bind_some, Option.map_some]
                  rfl

/-- What rendering a call leaves. -/
theorem inline_fst (s : Inliner) (target : Architecture) (c : InlineCall) :
    (s.inline target c).1 = match s.expansion? target c with
      | none => s
      | some (k, x, r) => { s with unit := s.unit.returning k (x.afterExpansion r) } := by
  by_cases ready : ∃ rule template prof, c.rule = some rule ∧
      rule.template? target.name = some template ∧
      Profile.find? target.name (s.elementType c) = some prof
  · obtain ⟨rule, template, prof, matched, given, profile⟩ := ready
    rw [s.inline_eq target matched given profile, expanded_eq matched given profile]
    cases s.expansion? target c <;> rfl
  · obtain ⟨e, stopped⟩ := (s.inline_cases target c).resolve_right ready
    cases asked : s.expansion? target c with
    | none => rw [stopped]
    | some p =>
        obtain ⟨-, -, rule, template, prof, matched, given, profile, -⟩ := expansion?_eq_some asked
        exact absurd ⟨rule, template, prof, matched, given, profile⟩ ready

/-- No part that an expansion shares has a name that it changes. -/
def Spared (r : Node.Renaming) (x : Node) : Prop :=
  ∀ n ∈ x.sharedParts, ∀ m text, .name m text ∈ n.preorder →
    Node.renameName r m text = .name m text

theorem spared_iff : Spared r x ↔ x.afterExpansion r = x := by
  rw [Node.afterExpansion_eq_iff]
  exact forall₂_congr fun n _ => (Node.rename_eq_iff n).symm

/-- Rendering a call changes the unit unless the expression it expands is spared. -/
theorem inline_fst_eq_iff : (s.inline target c).1 = s ↔
    ∀ k x r, s.expansion? target c = some (k, x, r) → Spared r x := by
  rw [inline_fst]
  cases asked : s.expansion? target c with
  | none => simp
  | some p =>
      obtain ⟨k, x, r⟩ := p
      obtain ⟨listed, single, -⟩ := expansion?_eq_some asked
      have kept : { s with unit := s.unit.returning k (x.afterExpansion r) } = s ↔
          s.unit.returning k (x.afterExpansion r) = s.unit :=
        ⟨congrArg Inliner.unit, fun same => by rw [same]⟩
      rw [kept, SourceUnit.returning_eq_iff listed single, ← spared_iff]
      simp

theorem inline_rest (s : Inliner) (target : Architecture) (c : InlineCall) :
    (s.inline target c).1 = { s with unit := (s.inline target c).1.unit } := by
  rw [inline_fst]
  split <;> rfl

/-- A unit that is the same at every point of a sequence of calls is spared by all of them. -/
theorem inlineAll_unit_iff (s : Inliner) (calls : List (Architecture × InlineCall)) :
    (∀ j, (s.inlineAll (calls.take j)).1.unit = s.unit) ↔
      ∀ p ∈ calls, (s.inline p.1 p.2).1 = s := by
  induction calls with
  | nil => simp [inlineAll]
  | cons p calls ih =>
      constructor
      · intro same
        have first : (s.inline p.1 p.2).1 = s := by
          rw [inline_rest, show (s.inline p.1 p.2).1.unit = s.unit from same 1]
        refine List.forall_mem_cons.mpr ⟨first, ih.mp fun j => ?_⟩
        have later := same (j + 1)
        rwa [List.take_succ_cons, inlineAll_cons, first] at later
      · intro each j
        obtain ⟨first, others⟩ := List.forall_mem_cons.mp each
        cases j with
        | zero => rfl
        | succ j =>
            rw [List.take_succ_cons, inlineAll_cons, first]
            exact ih.mpr others j

/-- Calls that leave the unit as it was are rendered each as if it were the first. -/
theorem inlineAll_snd {calls : List (Architecture × InlineCall)}
    (each : ∀ p ∈ calls, (s.inline p.1 p.2).1 = s) :
    (s.inlineAll calls).2 = calls.map fun p => (s.inline p.1 p.2).2 := by
  induction calls with
  | nil => rfl
  | cons p calls ih =>
      obtain ⟨first, others⟩ := List.forall_mem_cons.mp each
      rw [inlineAll_cons, first, List.map_cons, ← ih others]

/-- A kernel with a body of another form is not expanded, and stays. -/
theorem inlineAll_kernel {i : Nat} {f : KernelFn} (none : f.returned? = none)
    (calls : List (Architecture × InlineCall)) {s : Inliner} (here : s.unit.kernels[i]? = some f) :
    (s.inlineAll calls).1.unit.kernels[i]? = some f := by
  induction calls generalizing s with
  | nil => exact here
  | cons p calls ih =>
      rw [inlineAll_cons]
      refine ih ?_
      rw [inline_fst]
      split
      · exact here
      · exact SourceUnit.returning_kernel here none

/-! ## New names -/

theorem lookup_filterMap (params : List Param) (new : Param → Option String) (text : String) :
    (params.filterMap fun p => (new p).map fun n => (p.name, n)).lookup text =
      params.findSome? fun p => if p.name = text then new p else none := by
  induction params with
  | nil => rfl
  | cons p params ih =>
      rw [List.filterMap_cons, List.findSome?_cons]
      cases given : new p with
      | none => simp [ih]
      | some n =>
          rw [Option.map_some, List.lookup_cons, ih]
          by_cases same : p.name = text
          · simp [same]
          · simp [same, beq_eq_false_iff_ne.mpr (Ne.symm same)]

/-- A name is renamed as the last parameter of this name that has an operand. -/
theorem lookup_paramRenaming (k : KernelFn) (names : List String) (text : String) :
    (paramRenaming k names).lookup text = k.params.reverse.findSome? fun p =>
      if p.name = text then names[p.index]?.map (· ++ "_vec") else none := by
  rw [← lookup_filterMap]
  refine congrArg (List.lookup text) (congrArg (List.filterMap · _) (funext fun p => ?_))
  rw [Option.map_map]
  rfl

theorem lookup_param {p : Param} (among : p ∈ k.params) (names : List String)
    (alone : ∀ q ∈ k.params, q.name = p.name → q = p) :
    (paramRenaming k names).lookup p.name = names[p.index]?.map (· ++ "_vec") := by
  rw [lookup_paramRenaming]
  cases operand : names[p.index]?.map (· ++ "_vec") with
  | none =>
      refine List.findSome?_eq_none_iff.mpr fun q member => ?_
      by_cases same : q.name = p.name
      · rw [if_pos same, alone q (List.mem_reverse.mp member) same, operand]
      · rw [if_neg same]
  | some name =>
      have found : (k.params.reverse.findSome? fun q =>
          if q.name = p.name then names[q.index]?.map (· ++ "_vec") else none).isSome = true :=
        List.findSome?_isSome_iff.mpr ⟨p, List.mem_reverse.mpr among, by simp [operand]⟩
      obtain ⟨name', here⟩ := Option.isSome_iff_exists.mp found
      obtain ⟨q, member, given⟩ := List.exists_of_findSome?_eq_some here
      obtain ⟨same, given⟩ := Option.ite_none_right_eq_some.mp given
      rw [alone q (List.mem_reverse.mp member) same, operand] at given
      rw [here, given]

theorem lookup_other {text : String} (other : ∀ p ∈ k.params, p.name ≠ text)
    (names : List String) : (paramRenaming k names).lookup text = none := by
  rw [lookup_paramRenaming]
  exact List.findSome?_eq_none_iff.mpr fun p member =>
    if_neg (other p (List.mem_reverse.mp member))

/-! ## Sequences of calls -/

namespace Expansion

/-- A kernel with one parameter `x` that returns an expression. -/
def kernel (x : Node) : KernelFn :=
  { (default : KernelFn) with
    name := "g"
    params := [⟨"x", "float *", 0⟩]
    body := some (.block ⟨0, 0, 0⟩ [.ret ⟨1, 0, 0⟩ [x]]) }

/-- A rule for what returns one expression. -/
def rule : Rule where
  id := "single"
  templates := [("NEON", {
    code := ""
    segments := [.hole "output", .literal " = ", .hole "inlined_body"] })]

/-- The call of the kernel on a variable. -/
def on (operand : String) : InlineCall where
  site := {
    call := .call ⟨2, 0, 0⟩ (.name ⟨3, 0, 0⟩ "g") [.name ⟨4, 0, 0⟩ operand] false
    callee := "g"
    loop := 5
    args := [.name ⟨4, 0, 0⟩ operand]
    output := "g_result" }
  candidate := some
    { kernel := 0, name := "g", result := "float", numParams := 1, hasBody := true }
  rule := some rule

def inliner (x : Node) : Inliner where
  unit := { file := "", lines := default, scope := {}, kernels := [kernel x], numbered := rfl }
  rules := ⟨[rule]⟩

def calls : List (Architecture × InlineCall) := [(.neon, on "a"), (.neon, on "b")]

/-- The expression `x * 2`. -/
def doubled : Node :=
  .binary ⟨6, 0, 0⟩ .mul (.name ⟨7, 0, 0⟩ "x") (.literal ⟨8, 0, 0⟩ .int "2")

/-- The expression `*x`. -/
def pointed : Node := .deref ⟨6, 0, 0⟩ (.name ⟨7, 0, 0⟩ "x")

end Expansion

/-- What a call expands is the expression that a kernel of the unit returns, with the parameters
renamed to the vectors of the operands.  The unit is the same at every point of a sequence of calls
exactly if all these expressions are spared; then every call is rendered as if it were the first,
and the text bound for it is the expression of the original unit in the new names.  A kernel with a
body of another form never changes. -/
theorem inlining_frame (s : Inliner) (calls : List (Architecture × InlineCall)) :
    (∀ p ∈ calls, ∀ k x r, s.expansion? p.1 p.2 = some (k, x, r) →
      k ∈ s.unit.kernels ∧ k.returned? = some x ∧ ∃ prof,
        Profile.find? p.1.name (s.elementType p.2) = some prof ∧
        (∀ q ∈ k.params, (∀ q' ∈ k.params, q'.name = q.name → q' = q) →
          r.lookup q.name = (s.operands prof p.2.site)[q.index]?.map (·.1 ++ "_vec")) ∧
        ∀ text, (∀ q ∈ k.params, q.name ≠ text) → r.lookup text = none) ∧
    ((∀ j, (s.inlineAll (calls.take j)).1.unit = s.unit) ↔
      ∀ p ∈ calls, ∀ k x r, s.expansion? p.1 p.2 = some (k, x, r) → Spared r x) ∧
    ((∀ p ∈ calls, ∀ k x r, s.expansion? p.1 p.2 = some (k, x, r) → Spared r x) →
      (s.inlineAll calls).2 = calls.map (fun p => (s.inline p.1 p.2).2) ∧
      ∀ p ∈ calls, ∀ rule template prof, p.2.rule = some rule →
        rule.template? p.1.name = some template →
        Profile.find? p.1.name (s.elementType p.2) = some prof → ∃ bindings : Bindings,
          bindings.lookup "inlined_body" =
            (s.expansion? p.1 p.2).map (fun (_, x, r) => s.unit.print (x.rename r)) ∧
          (s.inline p.1 p.2).2.error =
            (template.render bindings).2.map (.unfilled p.2.site.callee) ∧
          ((s.inline p.1 p.2).2.error = none → (s.inline p.1 p.2).2.code =
            (s.operands prof p.2.site).flatMap (·.2) ++
              Text.splitAt '\n' (template.render bindings).1)) ∧
    ∀ (i : Nat) (f : KernelFn), s.unit.kernels[i]? = some f → f.returned? = none →
      (s.inlineAll calls).1.unit.kernels[i]? = some f := by
  have kept : (∀ p ∈ calls, (s.inline p.1 p.2).1 = s) ↔
      ∀ p ∈ calls, ∀ k x r, s.expansion? p.1 p.2 = some (k, x, r) → Spared r x :=
    forall₂_congr fun p _ => inline_fst_eq_iff
  refine ⟨?_, (s.inlineAll_unit_iff calls).trans kept, ?_, fun i f here none =>
    inlineAll_kernel none calls here⟩
  · intro p _ k x r asked
    obtain ⟨listed, single, rule, template, prof, -, -, profile, rfl⟩ := expansion?_eq_some asked
    refine ⟨listed, single, prof, profile, fun q among alone => ?_, fun text other =>
      lookup_other other _⟩
    rw [lookup_param among _ alone, names, List.getElem?_map, Option.map_map]
    rfl
  · intro spared
    refine ⟨inlineAll_snd (kept.mpr spared), fun p _ rule template prof matched given profile => ?_⟩
    refine ⟨s.bindings p.1 rule prof p.2, ?_, ?_⟩
    · rw [bindings_body, expanded_eq matched given profile]
      cases s.expansion? p.1 p.2 <;> rfl
    · rw [s.inline_eq p.1 matched given profile]
      rcases template.render (s.bindings p.1 rule prof p.2) with ⟨text, _ | e⟩
      · exact ⟨rfl, fun _ => rfl⟩
      · exact ⟨rfl, fun made => by cases made⟩

open Expansion in
/-- A product is copied whole. -/
theorem inlining_frame_doubled :
    (∀ j, ((inliner doubled).inlineAll (calls.take j)).1.unit = (inliner doubled).unit) ∧
      ((inliner doubled).inlineAll calls).2.map (·.code) =
        [["float32x4_t a_vec = vdupq_n_f32(a);", "g_result = a_vec * 2"],
          ["float32x4_t b_vec = vdupq_n_f32(b);", "g_result = b_vec * 2"]] := by
  obtain ⟨expands, unit, rendered, -⟩ := inlining_frame (inliner doubled) calls
  have spared : ∀ p ∈ calls, ∀ k x r,
      (inliner doubled).expansion? p.1 p.2 = some (k, x, r) → Spared r x := by
    intro p among k x r asked
    obtain ⟨listed, single, -⟩ := expands p among k x r asked
    obtain rfl : k = kernel doubled := List.mem_singleton.mp listed
    cases single
    exact fun n shared => by cases shared
  refine ⟨unit.mpr spared, ?_⟩
  rw [(rendered spared).1]
  decide +kernel

open Expansion in
/-- A dereference is shared: the second call finds the operand of the first, which the kernel now
returns. -/
theorem inlining_frame_deref :
    ((inliner pointed).inlineAll calls).2.map (·.code) =
        [["float32x4_t a_vec = vdupq_n_f32(a);", "g_result = *a_vec"],
          ["float32x4_t b_vec = vdupq_n_f32(b);", "g_result = *a_vec"]] ∧
      ((inliner pointed).inline .neon (on "b")).2.code =
        ["float32x4_t b_vec = vdupq_n_f32(b);", "g_result = *b_vec"] ∧
      ((inliner pointed).unit.kernels.filterMap (·.returned?)).map
        ((inliner pointed).unit.print ·) = ["*x"] ∧
      (((inliner pointed).inlineAll calls).1.unit.kernels.filterMap (·.returned?)).map
        ((inliner pointed).unit.print ·) = ["*a_vec"] := by
  decide +kernel

end Inliner

end Retarget
