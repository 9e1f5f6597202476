/-
# Proofs.InlinedCall -- what rendering a call does

Rendering one call either stops before anything has happened, or it expands the callee where the
rule asks for it and fills the template (`inline_cases`, `inline_eq`).  A plan does this for the
calls of a kernel, each on the unit that the ones before it have left (`plan_eq`), and has an entry
for each of them, in order (`plan_spec`).
-/
import Retarget.Inline.Plan

namespace Retarget

open Retarget.Source (Node)

set_option autoImplicit false

namespace Inliner

/-- Calls rendered one after the other, each on what the ones before it have left. -/
def inlineAll (s : Inliner) : List (Architecture × InlineCall) → Inliner × List Inlined
  | [] => (s, [])
  | (target, c) :: calls =>
    let (s, i) := s.inline target c
    let (s, rest) := s.inlineAll calls
    (s, i :: rest)

theorem inlineAll_cons (s : Inliner) (p : Architecture × InlineCall)
    (calls : List (Architecture × InlineCall)) : s.inlineAll (p :: calls) =
      (((s.inline p.1 p.2).1.inlineAll calls).1,
        (s.inline p.1 p.2).2 :: ((s.inline p.1 p.2).1.inlineAll calls).2) := rfl

variable (s : Inliner) (target : Architecture)

/-! ## One call -/

/-- What the callee of a call becomes: it is expanded if the rule names no operation. -/
def expanded (rule : Rule) (c : InlineCall) (names : List String) : Inliner × Option String :=
  match c.candidate with
  | some k => if rule.pattern.operations.isEmpty then s.expand k names else (s, none)
  | none => (s, none)

/-- The names of the operand vectors. -/
def names (prof : Profile) (c : InlineCall) : List String := (s.operands prof c.site).map (·.1)

/-- What the template of a call is filled with. -/
def bindings (rule : Rule) (prof : Profile) (c : InlineCall) : Bindings :=
  baseBindings target prof c.site (s.elementType c) ++ operandBindings (s.names prof c) ++
    ((s.expanded rule c (s.names prof c)).2.map fun b => ("inlined_body", b)).toList

theorem inline_eq {c : InlineCall} {rule : Rule} {template : Template} {prof : Profile}
    (matched : c.rule = some rule) (given : rule.template? target.name = some template)
    (profile : Profile.find? target.name (s.elementType c) = some prof) :
    s.inline target c = ((s.expanded rule c (s.names prof c)).1,
      match template.render (s.bindings target rule prof c) with
      | (_, some e) => { context := c, error := some (.unfilled c.site.callee e) }
      | (text, none) =>
        { context := c, code := (s.operands prof c.site).flatMap (·.2) ++ Text.splitAt '\n' text
          headers := template.headers }) := by
  unfold inline
  simp only [matched, given, profile]
  change (match template.render (s.bindings target rule prof c) with
    | (_, some e) => _
    | (text, none) => _) = _
  split <;> rfl

/-- Rendering stops before the callee is looked at, or goes on to the template. -/
theorem inline_cases (c : InlineCall) :
    (∃ e, s.inline target c = (s, { context := c, error := some e })) ∨
      ∃ rule template prof, c.rule = some rule ∧ rule.template? target.name = some template ∧
        Profile.find? target.name (s.elementType c) = some prof := by
  cases matched : c.rule with
  | none => exact .inl ⟨.notInlinable c.site.callee, by rw [inline, matched]⟩
  | some rule =>
      cases given : rule.template? target.name with
      | none =>
          exact .inl ⟨.noTemplate rule.id target.name, by rw [inline, matched]; simp only [given]⟩
      | some template =>
          cases profile : Profile.find? target.name (s.elementType c) with
          | none =>
              exact .inl ⟨.noVectorType c.site.callee target.name (s.elementType c),
                by rw [inline, matched]; simp only [given, profile]⟩
          | some prof => exact .inr ⟨rule, template, prof, rfl, given, rfl⟩

theorem inline_context (c : InlineCall) : (s.inline target c).2.context = c := by
  rcases s.inline_cases target c with ⟨e, stopped⟩ | ⟨rule, template, prof, matched, given, profile⟩
  · rw [stopped]
  · rw [s.inline_eq target matched given profile]
    dsimp only
    split <;> rfl

/-- A call without error has the lines of its operands, then those of its filled template. -/
theorem inline_ok {c : InlineCall} (made : (s.inline target c).2.error = none) :
    ∃ rule template prof text, c.rule = some rule ∧ rule.template? target.name = some template ∧
      template.render (s.bindings target rule prof c) = (text, none) ∧
      (s.inline target c).2.code =
        (s.operands prof c.site).flatMap (·.2) ++ Text.splitAt '\n' text := by
  rcases s.inline_cases target c with ⟨e, stopped⟩ | ⟨rule, template, prof, matched, given, profile⟩
  · rw [stopped] at made
    cases made
  · rw [s.inline_eq target matched given profile] at made ⊢
    dsimp only at made ⊢
    rcases rendered : template.render (s.bindings target rule prof c) with ⟨text, _ | e⟩
    · exact ⟨rule, template, prof, text, matched, given, rendered, rfl⟩
    · rw [rendered] at made
      cases made

/-! ## Operands -/

theorem toList_inputName (i : Nat) :
    (inputName i).toList = "input_".toList ++ Nat.toDigits 10 i := by
  rw [inputName, String.toList_append]
  exact congrArg _ String.toList_ofList

theorem inputName_inj {i j : Nat} : inputName i = inputName j ↔ i = j := by
  refine ⟨fun same => ?_, congrArg inputName⟩
  have digits := congrArg String.toList same
  rw [toList_inputName, toList_inputName] at digits
  rw [← Nat.ofDigitChars_ten_toDigits (n := i), List.append_cancel_left digits,
    Nat.ofDigitChars_ten_toDigits]

theorem inputName_not_mem {keys : List String} {i : Nat}
    (other : ∀ key ∈ keys, key.toList.take 6 ≠ "input_".toList) : inputName i ∉ keys := by
  refine fun member => other _ member ?_
  rw [toList_inputName]
  rfl

theorem lookup_inputName (names : List String) (start i : Nat) :
    ((names.zipIdx start).map fun (n, j) => (inputName j, n)).lookup (inputName (start + i)) =
      names[i]? := by
  induction names generalizing start i with
  | nil => rfl
  | cons name names ih =>
      rw [List.zipIdx_cons, List.map_cons, List.lookup_cons]
      cases i with
      | zero => simp
      | succ i =>
          have apart : (inputName (start + (i + 1)) == inputName start) = false :=
            beq_eq_false_iff_ne.mpr fun same => by have := inputName_inj.mp same; omega
          rw [apart, List.getElem?_cons_succ, ← ih (start + 1) i, Nat.add_right_comm, Nat.add_assoc]

/-- A name that is none of these is not bound by the target, the call or its output. -/
theorem lookup_baseBindings (prof : Profile) (site : LoopCall) (elem : String) {key : String}
    (other : key ∉ ["output", "operation", "suffix", "element_type", "predicate", "sve_type",
      "neon_type"]) : (baseBindings target prof site elem).lookup key = none := by
  refine List.lookup_eq_none_iff.mpr fun p member => bne_iff_ne.mpr ?_
  rintro rfl
  refine other ?_
  simp only [baseBindings, List.mem_append, List.mem_cons, List.not_mem_nil, or_false,
    Option.mem_toList, Option.map_eq_some_iff] at member
  rcases member with ((rfl | rfl | rfl | rfl | rfl) | ⟨_, _, rfl⟩) | ⟨_, _, rfl⟩ <;> simp

/-- The operand at a position is bound under the name of the position. -/
theorem bindings_lookup {rule : Rule} {prof : Profile} {c : InlineCall} {i : Nat} {name : String}
    (named : (s.names prof c)[i]? = some name) :
    (s.bindings target rule prof c).lookup (inputName i) = some name := by
  have position := lookup_inputName (s.names prof c) 0 i
  rw [Nat.zero_add, named] at position
  have other : inputName i ∉ ["output", "operation", "suffix", "element_type", "predicate",
      "sve_type", "neon_type"] := inputName_not_mem (by decide)
  rw [bindings, operandBindings.eq_def, List.append_assoc, List.lookup_append,
    lookup_baseBindings target prof c.site _ other, Option.none_or, List.append_assoc,
    List.append_assoc, List.lookup_append, position, Option.some_or]

theorem mem_operandBindings {names : List String} {p : String × String}
    (member : p ∈ operandBindings names) :
    (∃ i, p.1 = inputName i) ∨ p.1 ∈ ["input", "min_value", "max_value"] := by
  rw [operandBindings.eq_def, List.append_assoc, List.mem_append, List.mem_append] at member
  rcases member with position | first | clamp
  · obtain ⟨q, -, rfl⟩ := List.mem_map.mp position
    exact .inl ⟨q.2, rfl⟩
  · obtain ⟨name, -, rfl⟩ := Option.map_eq_some_iff.mp (Option.mem_toList.mp first)
    simp
  · split at clamp
    · simp only [List.mem_cons, List.not_mem_nil, or_false] at clamp
      rcases clamp with rfl | rfl <;> simp
    · cases clamp

/-- The text of the callee is what it has been expanded to. -/
theorem bindings_body (rule : Rule) (prof : Profile) (c : InlineCall) :
    (s.bindings target rule prof c).lookup "inlined_body" =
      (s.expanded rule c (s.names prof c)).2 := by
  have operands : (operandBindings (s.names prof c)).lookup "inlined_body" = none := by
    refine List.lookup_eq_none_iff.mpr fun p member => bne_iff_ne.mpr fun same => ?_
    rcases mem_operandBindings member with ⟨i, position⟩ | role
    · have other : inputName i ∉ ["inlined_body"] := inputName_not_mem (by decide)
      exact other (by rw [← position, ← same]; exact List.mem_singleton.mpr rfl)
    · rw [← same] at role
      exact absurd role (by decide)
  rw [bindings, List.append_assoc, List.lookup_append,
    lookup_baseBindings target prof c.site _ (by decide), Option.none_or, List.lookup_append,
    operands, Option.none_or]
  cases (s.expanded rule c (s.names prof c)).2 <;> simp

/-- The result of a call is an operand by its name, and no line makes a vector of it. -/
theorem operands_call {prof : Profile} {site : LoopCall} {i : Nat} {arg : Node}
    (argument : site.args[i]? = some arg) (isCall : LoopCall.isCall arg.unparen = true) :
    (s.operands prof site)[i]? = some (LoopCall.operandName arg, []) := by
  rw [operands, List.getElem?_map, List.getElem?_zipIdx, argument]
  simp only [Option.map_some, operand]
  cases shape : arg.unparen with
  | call m callee args spread => rfl
  | _ => simp [shape, LoopCall.isCall] at isCall

/-! ## Plans -/

theorem inlineAll_contexts (calls : List (Architecture × InlineCall)) :
    (s.inlineAll calls).2.map (·.context) = calls.map (·.2) := by
  induction calls generalizing s with
  | nil => rfl
  | cons p calls ih => simp [inlineAll_cons, inline_context, ih]

variable {s} in
theorem mem_inlineAll {calls : List (Architecture × InlineCall)} {e : Inlined}
    (member : e ∈ (s.inlineAll calls).2) :
    ∃ s' p, p ∈ calls ∧ (Inliner.inline s' p.1 p.2).2 = e := by
  induction calls generalizing s with
  | nil => cases member
  | cons p calls ih =>
      rcases List.mem_cons.mp member with rfl | later
      · exact ⟨s, p, List.mem_cons_self, rfl⟩
      · obtain ⟨s', q, among, made⟩ := ih later
        exact ⟨s', q, List.mem_cons_of_mem p among, made⟩

theorem unit_candidate (k : KernelFn) : (s.candidate k).1.unit = s.unit := by
  unfold candidate
  split <;> rfl

theorem context_spec (site : LoopCall) :
    (s.context site).1.unit = s.unit ∧ (s.context site).2.site = site := by
  unfold context
  cases s.unit.callee? site.call with
  | none => exact ⟨rfl, rfl⟩
  | some k => exact ⟨s.unit_candidate k, rfl⟩

theorem contexts_sites (k : KernelFn) :
    (s.contexts k).2.map (·.site) = LoopCall.ofKernel s.unit k := by
  have fold (sites : List LoopCall) (s : Inliner) (out : List InlineCall) :
      (sites.foldl (fun done site =>
        ((done.1.context site).1, done.2 ++ [(done.1.context site).2])) (s, out)).2.map (·.site) =
        out.map (·.site) ++ sites := by
    induction sites generalizing s out with
    | nil => simp
    | cons site sites ih => simp [ih, (s.context_spec site).2]
  exact fold _ s []

/-- The calls of a plan are rendered one after the other. -/
theorem plan_eq {k : KernelFn} (hasBody : k.hasBody = true) : (s.plan target k).value =
    (s.contexts k).1.inlineAll ((s.contexts k).2.map (target, ·)) := by
  have fold (calls : List InlineCall) (s : Inliner) (out : List Inlined) :
      calls.foldl (fun done c =>
        ((done.1.inline target c).1, done.2 ++ [(done.1.inline target c).2])) (s, out) =
      ((s.inlineAll (calls.map (target, ·))).1,
        out ++ (s.inlineAll (calls.map (target, ·))).2) := by
    induction calls generalizing s out with
    | nil => simp [inlineAll]
    | cons c calls ih => simp [inlineAll_cons, ih]
  rw [plan, if_neg (by simp [hasBody])]
  exact fold _ _ []

/-- The entries of a plan are those of the calls in the loops, in order. -/
theorem plan_spec (k : KernelFn) :
    (s.plan target k).value.2.map (·.context.site) = LoopCall.ofKernel s.unit k ∧
      ∀ e ∈ (s.plan target k).value.2, ∃ s' c, (Inliner.inline s' target c).2 = e := by
  cases hasBody : k.hasBody with
  | false =>
      have none : k.body = none := by simpa [KernelFn.hasBody] using hasBody
      rw [plan, if_pos (by simp [hasBody])]
      exact ⟨by simp [LoopCall.ofKernel, none], by simp⟩
  | true =>
      rw [s.plan_eq target hasBody]
      constructor
      · have sites := congrArg (List.map InlineCall.site)
          ((s.contexts k).1.inlineAll_contexts ((s.contexts k).2.map (target, ·)))
        simpa [contexts_sites, Function.comp_def] using sites
      · intro e member
        obtain ⟨s', p, among, made⟩ := mem_inlineAll member
        obtain ⟨c, -, rfl⟩ := List.mem_map.mp among
        exact ⟨s', c, made⟩

end Inliner

end Retarget
