/-
# Proofs.DeclaredType -- the types that declarations are written with

A target without the vector types of the source has declarations that use them get an inferred type.
The type is inferred where the declaration is fed by the node of its value and the rule for that
value names none; a declaration without a value, or whose value has no node of its own, is written
with the type as spelled (`declaredTypes_translated`).  So `var x __m256i` keeps its type on a target
that has no such type, and `y := x` with it (`declaredTypes_translated_copied`).
-/
import Retarget.Proofs.Bracketing
import Retarget.Proofs.ValueNode

namespace Retarget

open Retarget.Source (Node NodeId)

set_option autoImplicit false
set_option linter.dupNamespace false

namespace Emitter

open Lowering (initLabel)

variable (e : Emitter)

/-! ## What a declaration is written with -/

/-- The value in the line of a declaration: the text of the node that feeds it, else its source. -/
def writtenValue (n : OpNode) : String :=
  match e.graph.input? n.id initLabel with
  | some source => ((e.applyNode source).run {}).1
  | none => e.printOpt (e.initializer? n)

/-- The type in the line of a declaration. -/
def writtenType (n : OpNode) : String :=
  match e.graph.input? n.id initLabel with
  | some source =>
    if e.returnType source != "" then e.returnType source
    else if (e.spelledType n).1 == "auto" || e.target.isSourceVectorType (e.spelledType n).1 then
      e.inferType (e.spelledType n).1 (e.writtenValue n)
    else (e.spelledType n).1
  | none => (e.spelledType n).1

/-- The type that the best rule for an operation names for its value; empty if it names none. -/
def hintedType (operation : String) : String :=
  (((e.rule? operation).bind (·.template? e.target.name)).map (·.returnType)).getD ""

/-- The operation of the value of a declaration, if that is a call of an intrinsic or a
floating-point operator. -/
def storedOperation? (n : OpNode) : Option String :=
  ((e.initializer? n).filter (Lowering.producesNode e.unit e.kernel)).map
    (Lowering.valueOperation e.unit)

variable {e}

theorem line_declaration {n : OpNode} (declares : n.isDefine = true) :
    e.line n = declaration (e.writtenType n) n.variableName (e.spelledType n).2
      (e.writtenValue n) := by
  unfold line statement
  rw [if_pos declares]
  unfold define writtenType writtenValue
  cases fed : e.graph.input? n.id initLabel with
  | none => rfl
  | some source => rfl

/-- No type that is inferred is one of the source. -/
theorem inferType_translated (target : e.target = .sve ∨ e.target = .neon) {spelled : String}
    (needed : (spelled == "auto" || e.target.isSourceVectorType spelled) = true) (value : String) :
    e.target.isSourceVectorType (e.inferType spelled value) = false := by
  have plain : Architecture.neon.isSourceVectorType "auto" = false := by decide
  unfold inferType
  rcases target with is | is
  · rw [is] at needed ⊢
    rw [if_pos (by decide)]
    split <;> decide
  · rw [is] at needed ⊢
    rw [if_neg (by decide)]
    split
    · decide
    · split
      · decide
      · rename_i other
        rcases Bool.or_eq_true_iff.mp needed with implicit | spelled
        · rwa [beq_iff_eq.mp implicit]
        · exact absurd (by rw [spelled]; decide) other

/-- A type of the source is written if the rule names it or if it is spelled and nothing feeds the
declaration. -/
theorem writtenType_source (target : e.target = .sve ∨ e.target = .neon) (n : OpNode) :
    e.target.isSourceVectorType (e.writtenType n) =
      match (e.graph.input? n.id initLabel).map (·.operation) with
      | some operation => e.target.isSourceVectorType (e.hintedType operation)
      | none => e.target.isSourceVectorType (e.spelledType n).1 := by
  unfold writtenType
  cases fed : e.graph.input? n.id initLabel with
  | none => rfl
  | some source =>
      show _ = e.target.isSourceVectorType (e.returnType source)
      have silent : e.target.isSourceVectorType "" = false := by
        rcases target with is | is <;> (rw [is]; decide)
      by_cases hinted : e.returnType source = ""
      · simp only [hinted, bne_self_eq_false, Bool.false_eq_true, if_false, silent]
        split
        · rename_i needed
          exact inferType_translated target needed _
        · rename_i other
          rw [Bool.or_eq_true_iff, not_or] at other
          exact eq_false_of_ne_true other.2
      · simp [hinted]

end Emitter

/-! ## Kernels -/

/-- What feeds a declaration decides on its type: the body is made of lines, the line of a declaration
spells its type, and that is one of the source exactly if the rule for what feeds the declaration
names such a type or, where nothing does, if the declaration spells one. -/
structure Emitter.TypesByFeed (e : Emitter) (cpg : PropertyGraph) : Prop where
  body : e.generate.value.body = (e.graph.nodes.foldl e.lay {}).text
  line : ∀ m ∈ e.graph.nodes, m.isDefine = true →
    e.line m = declaration (e.writtenType m) m.variableName (e.spelledType m).2 (e.writtenValue m)
  type : ∀ m ∈ e.graph.nodes, m.isDefine = true →
    e.target.isSourceVectorType (e.writtenType m) =
      match (e.graph.input? m.id Lowering.initLabel).map (·.operation) with
      | some operation => e.target.isSourceVectorType (e.hintedType operation)
      | none => e.target.isSourceVectorType (e.spelledType m).1
  /-- What feeds a declaration is its value, if that has a node of its own. -/
  fed : Lowering.InitApart e.unit cpg e.kernel → ∀ m ∈ e.graph.nodes, m.isDefine = true →
    (e.graph.input? m.id Lowering.initLabel).map (·.operation) = e.storedOperation? m

/-- On a target without the vector types of the source, a declaration is written with one of them
exactly if the rule for its value names it, or if the declaration spells it and has no value with a
node of its own. -/
theorem declaredTypes_translated (e : Emitter) (target : e.target = .sve ∨ e.target = .neon)
    (numbered : e.unit.Numbered) (phrased : e.unit.Phrased) (listed : e.kernel ∈ e.unit.kernels)
    (cpg : PropertyGraph) (source goal : Option Architecture)
    (graph : e.graph = (convert e.unit cpg e.kernel source goal).value.1.graph) :
    e.TypesByFeed (cpg.build e.unit e.kernel).value := by
  refine ⟨Emitter.body_eq_lines, fun m _ => Emitter.line_declaration,
    fun m _ _ => Emitter.writtenType_source target m, fun apart m member declares => ?_⟩
  obtain ⟨-, root, drawn⟩ := e.exists_drawn numbered phrased listed graph apart member
  have source := drawn.fed_source member (by simp [OpNode.stores, declares])
  simpa [Emitter.storedOperation?, Option.map_map, Function.comp_def] using
    congrArg (Option.map Prod.fst) source

/-! ## One kernel -/

namespace DeclaredType

open Bracketing

/-- A declaration with the call of an intrinsic. -/
def called : String := "func f(a __m256i) \x7b\n\tvar x __m256i = _mm256_abs_epi8(a)\n\x7d\n"

/-- A declaration without a value, and one with a variable. -/
def copied : String := "func f() \x7b\n\tvar x __m256i\n\ty := x\n\x7d\n"

/-- The emission of a text for a target. -/
def emitterFor (target : Architecture) (rules : Database) (text : String) : Emitter where
  unit := unit text
  kernel := kernel text
  graph := (convert (unit text) PropertyGraph.new (kernel text) none (some target)).value.1.graph
  rules := rules
  target := target

/-- The emission of a text with these characters for a target. -/
def spelledEmitterFor (target : Architecture) (rules : Database) (cs : List Char) : Emitter where
  unit := spelledUnit cs
  kernel := spelledKernel cs
  graph := (convert (spelledUnit cs) PropertyGraph.new (spelledKernel cs) none
    (some target)).value.1.graph
  rules := rules
  target := target

section Parts

variable (target : Architecture) (rules : Database) (text : String)

theorem emitterFor_spelled {cs : List Char} (spelled : text.toList = cs) :
    emitterFor target rules text = spelledEmitterFor target rules cs := by
  rw [emitterFor, spelledEmitterFor, unit_spelled spelled, kernel_spelled spelled]

theorem emitterFor_graph : (emitterFor target rules text).graph =
    (convert (emitterFor target rules text).unit PropertyGraph.new
      (emitterFor target rules text).kernel none (some target)).value.1.graph := by
  rw [emitterFor]

theorem emitterFor_unit : (emitterFor target rules text).unit = unit text := by rw [emitterFor]

theorem emitterFor_kernel : (emitterFor target rules text).kernel = kernel text := by
  rw [emitterFor]

end Parts

end DeclaredType

open DeclaredType Bracketing in
/-- The declaration with the call has a type of the target. -/
theorem declaredTypes_translated_called :
    (emitterFor .neon {} called).unit.Numbered ∧ (emitterFor .neon {} called).unit.Phrased ∧
      (emitterFor .neon {} called).kernel ∈ (emitterFor .neon {} called).unit.kernels ∧
      (emitterFor .neon {} called).TypesByFeed
        (PropertyGraph.new.build (emitterFor .neon {} called).unit
          (emitterFor .neon {} called).kernel).value ∧
      (emitterFor .neon {} called).generate.value.body =
        "    int8x16_t x = _mm256_abs_epi8(a);\n\x7d\n" := by
  obtain ⟨numbered, phrased, some, body⟩ :
      (emitterFor .neon {} called).unit.Numbered ∧ (emitterFor .neon {} called).unit.Phrased ∧
        (unit called).kernels ≠ [] ∧ (emitterFor .neon {} called).generate.value.body =
          "    int8x16_t x = _mm256_abs_epi8(a);\n\x7d\n" := by
    have spelled : called.toList = _ := String.toList_ofList
    rw [emitterFor_spelled _ _ _ spelled, unit_spelled spelled]
    decide +kernel
  have listed : (emitterFor .neon {} called).kernel ∈ (emitterFor .neon {} called).unit.kernels := by
    rw [emitterFor_unit, emitterFor_kernel]
    exact kernel_mem some
  exact ⟨numbered, phrased, listed, declaredTypes_translated _ (Or.inr rfl) numbered phrased listed
    PropertyGraph.new none _ (emitterFor_graph .neon {} called), body⟩

open DeclaredType in
/-- The declarations without a value and with a variable keep the type of the source. -/
theorem declaredTypes_translated_copied :
    ¬(∀ m ∈ (emitterFor .neon {} copied).graph.nodes, m.isDefine = true →
      Architecture.neon.isSourceVectorType ((emitterFor .neon {} copied).writtenType m) = false) ∧
    (emitterFor .neon {} copied).generate.value.body =
      "    __m256i x;\n    __m256i y = x;\n\x7d\n" := by
  have spelled : copied.toList = _ := String.toList_ofList
  rw [emitterFor_spelled _ _ _ spelled]
  decide +kernel

end Retarget
