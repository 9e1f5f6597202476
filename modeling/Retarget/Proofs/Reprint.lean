/-
# Proofs.Reprint -- statements that no rule matches are printed as they stand
-/
import Retarget.Proofs.Bracketing
import Retarget.Proofs.CallPlan
import Retarget.Proofs.StoredValue

namespace Retarget

open Retarget.Source (Node NodeId Mark)
open Retarget.Kernel (cType declare)

set_option autoImplicit false
set_option linter.dupNamespace false

/-! ## What is kept of a statement -/

namespace Emitter

variable (e : Emitter)

/-- A declaration of one variable whose line is its print: a constant is of a type that does not
spell that it is one, and a value is neither empty nor wrapped. -/
def DeclKept : Node → Prop
  | .decl _ kind [.valueSpec _ isConst [x] type values] =>
    kind ≠ .type → values.length ≤ 1 →
      (isConst = true →
        Text.contains (CPrinter.typeText e.kernel.vars (x.name?.getD "") type) "const" = false) ∧
      ∀ v ∈ values, e.print v ≠ "" ∧ e.Unwrapped v
  | _ => True

/-- An assignment of one value whose line is its print: the target is not called `nil`, and the
value is neither empty, where it declares, nor wrapped. -/
def AssignKept : Source.AssignOp → List Node → List Node → Prop
  | .define, [.name _ var], [v] => var ≠ "nil" ∧ e.print v ≠ "" ∧ e.Unwrapped v
  | .set, [.name _ var], [v] =>
    Lowering.producesNode e.unit e.kernel v = true →
      (∃ source, Lowering.StandsFor e.unit e.kernel source v) →
        var ≠ "nil" ∧ e.print (e.unit.scope.strip v) = e.print v
  | _, _, _ => True

/-- A statement whose line is its print.  Besides declarations and assignments only a call that
makes up a statement can be wrapped. -/
def Kept : Node → Prop
  | .declStmt _ decl => e.DeclKept decl
  | .assign _ op targets values => e.AssignKept op targets values
  | .exprStmt _ x => ∀ m callee args spread, e.unit.scope.strip x = .call m callee args spread →
    e.print (e.unit.scope.strip x) = e.print x
  | _ => True

theorem marks_eq_iff {isConst : Bool} {type : String} : marks isConst type = isConst ↔
    (isConst = true → Text.contains type "const" = false) := by
  unfold marks
  cases isConst <;> simp

end Emitter

namespace Emitter.Unruled

open Lowering (draftsOf StandsFor initLabel nodeTable lowered Draft)

variable {e : Emitter} {cpg : PropertyGraph} {root : Node} (unruled : e.Unruled cpg root)

include unruled

/-! ## Lines -/

section Lines

variable {s : Node} {d : Draft} {i : Nat} {m : OpNode} (member : m ∈ e.graph.nodes)
  (listed : (draftsOf e.unit e.kernel)[i]? = some d) (same : m.unmarked = (d.placed i).unmarked)
  (below : s ∈ root.preorder)

include member listed same in
/-- A node that stores nothing is written as its syntax is printed. -/
theorem line_of_plain (isOrigin : d.origin = some s) (other : d.node.isDefine = false)
    (level : d.node.kind ≠ .control) (apart : d.node.operation ≠ Lowering.assignOperation) :
    e.line m = e.print s := by
  obtain ⟨operation, -, kind⟩ := operation_eq same
  have text := line_plain (unruled.unmatched m member)
    (by rw [OpNode.isDefine, operation]; exact other) (by rwa [kind]) (by rwa [operation])
  rw [text, unruled.syntaxOf_eq same (List.mem_of_getElem? listed), isOrigin]
  rfl

section Define

variable {var : String} {init : Option Node} {covers : List NodeId} {counted : Bool}

include listed same in
/-- The line of a declaration of one variable. -/
theorem line_of_define
    (heads : (Lowering.define e.unit e.kernel counted s var init covers).head? = some d) :
    m.variableName = var ∧ d.node.isDefine = true ∧ e.syntaxOf m = some s ∧ d.origin = some s ∧
      e.line m = declaration (e.spelledType m).1 var (e.spelledType m).2
        (e.storedText m (e.printOpt (e.initializer? m))) := by
  have syn := unruled.syntaxOf_eq same (List.mem_of_getElem? listed)
  obtain ⟨operation, name, -⟩ := operation_eq same
  obtain rfl := Option.some.inj heads
  have declares : m.isDefine = true := by
    rw [OpNode.isDefine, operation]
    rfl
  have named : m.variableName = var := name
  refine ⟨named, rfl, syn, rfl, ?_⟩
  rw [line_define unruled.unmatched unruled.scalar declares, named]

end Define

omit unruled in
/-- Nothing is asked of a declaration that is not of one variable. -/
theorem declKept_of_several {decl : Node} (several : Lowering.singleSpec? decl = none) :
    e.DeclKept decl := by
  unfold DeclKept
  split
  · rename_i kind _ _ _ _ values
    intro declares few
    have single := Nat.not_lt.mpr few
    cases kind <;> simp_all [Lowering.singleSpec?]
  · trivial

include member listed same in
/-- A node that stands for a statement as such is written as that is printed. -/
theorem line_of_generic {counted : Bool} (generic : Lowering.genericDraft counted s = d) :
    trimmed (e.line m) = e.print s := by
  subst generic
  have operation : (Lowering.genericDraft counted s).node.operation = "" := rfl
  have other : (Lowering.genericDraft counted s).node.isDefine = false := rfl
  rw [unruled.line_of_plain member listed same rfl other nofun (by rw [operation]; decide),
    trimmed_print]

include listed same below in
/-- A declaration of one variable is written as it is printed, exactly if it is kept. -/
theorem single_line_iff (id : m.id = (i : OpId)) {md dm sm : Mark} {kind : Source.DeclKind}
    {isConst : Bool} {x : Node} {type : Option Node} {values : List Node}
    (shape : s = .declStmt md (.decl dm kind [.valueSpec sm isConst [x] type values]))
    (variable' : kind ≠ .type) (few : values.length ≤ 1) {counted : Bool} {covers : List NodeId}
    (heads : (Lowering.define e.unit e.kernel counted s (x.name?.getD "") values.head? covers).head? =
      some d) : trimmed (e.line m) = e.print s ↔ e.Kept s := by
  obtain ⟨named, declares, syn, origin, line⟩ := unruled.line_of_define listed same heads
  have spelledType : e.spelledType m =
      (CPrinter.typeText e.kernel.vars (x.name?.getD "") type, isConst) := by
    unfold Emitter.spelledType
    rw [syn, shape, named]
    cases type <;> rfl
  have init : Lowering.initializer? d = values.head? := by
    have operation : d.node.operation = OpNode.defineOperation := by
      simpa [OpNode.isDefine] using declares
    unfold Lowering.initializer?
    simp [operation, origin, shape, Lowering.singleSpec?_of_few variable' few]
  have kept : e.Kept s ↔ (isConst = true →
      Text.contains (CPrinter.typeText e.kernel.vars (x.name?.getD "") type) "const" = false) ∧
      ∀ v ∈ values, e.print v ≠ "" ∧ e.Unwrapped v := by
    rw [shape]
    exact ⟨fun kept => kept variable' few, fun kept _ _ => kept⟩
  rw [line, spelledType, print_declaration (unruled.inside s below) shape, kept, ← marks_eq_iff]
  cases values with
  | nil =>
      have none : e.storedText m (e.printOpt (e.initializer? m)) = "" := by
        rw [Emitter.storedText, unruled.unfed listed id (by simp [init]), Emitter.initializer?, syn,
          shape]
        rfl
      rw [none, CPrinter.valueText, String.append_empty, declared_bare_iff]
      simp
  | cons v rest =>
      obtain rfl : rest = [] := List.eq_nil_of_length_eq_zero (by simpa using few)
      have value : e.initializer? m = some v := by
        rw [Emitter.initializer?, syn, shape]
      have spec : Node.valueSpec sm isConst [x] type [v] ∈ root.preorder := by
        refine Node.preorder_trans ?_ below
        rw [shape]
        refine Node.child_preorder (List.mem_singleton_self _) ?_
        exact Node.child_preorder (List.mem_singleton_self _) (Node.self_mem_preorder _)
      obtain ⟨inner, isExpr⟩ := unruled.expression spec (List.mem_singleton_self v)
      obtain ⟨neat, stored⟩ := unruled.storedText_spec inner isExpr listed id init origin (by rw [shape]; rfl)
      rw [value, CPrinter.valueText, ← String.append_assoc, Emitter.printOpt, Option.map_some,
        Option.getD_some, declared_iff neat, ← print_value isExpr, stored]
      simp

include member listed same below in
theorem declStmt_line_iff (id : m.id = (i : OpId)) {md : Mark} {decl : Node}
    (shape : s = .declStmt md decl) {counted : Bool}
    (heads : (Lowering.declStmt e.unit e.kernel counted s decl).head? = some d) :
    trimmed (e.line m) = e.print s ↔ e.Kept s := by
  unfold Lowering.declStmt at heads
  split at heads
  · rename_i spec var init single
    obtain ⟨dm, kind, sm, isConst, x, type, values, rfl, rfl, rfl, rfl, few⟩ :=
      Lowering.singleSpec?_eq single
    have declares : kind ≠ .type := by
      rintro rfl
      cases single
    exact unruled.single_line_iff listed same below id shape declares few heads
  · rename_i several
    have text := unruled.line_of_generic member listed same (Option.some.inj heads)
    rw [text, shape]
    exact iff_of_true rfl (declKept_of_several several)

include listed same below in
/-- A variable that is declared by its value is written as it is printed, exactly if it is kept. -/
theorem define_line_iff (id : m.id = (i : OpId)) {ms mx : Mark} {var : String} {v : Node}
    (shape : s = .assign ms .define [.name mx var] [v]) {counted : Bool} {covers : List NodeId}
    (heads : (Lowering.define e.unit e.kernel counted s var (some v) covers).head? = some d) :
    trimmed (e.line m) = e.print s ↔ e.Kept s := by
  obtain ⟨named, declares, syn, origin, line⟩ := unruled.line_of_define listed same heads
  have spelledType : e.spelledType m = (CPrinter.inferred (e.unit.typeOf e.kernel v), false) := by
    rw [Emitter.spelledType, syn, shape]
  have init : Lowering.initializer? d = some v := by
    have operation : d.node.operation = OpNode.defineOperation := by
      simpa [OpNode.isDefine] using declares
    unfold Lowering.initializer?
    simp [operation, origin, shape]
  have value : e.initializer? m = some v := by
    rw [Emitter.initializer?, syn, shape]
  obtain ⟨inner, isExpr⟩ := unruled.expression below (x := v) (by simp [shape, Node.expressions])
  obtain ⟨neat, stored⟩ :=
    unruled.storedText_spec inner isExpr listed id init origin (by rw [shape]; rfl)
  rw [line, spelledType, value, Emitter.printOpt, Option.map_some, Option.getD_some,
    print_define (unruled.inside s below) shape, defined_iff neat, ← print_value isExpr, stored, shape]
  rfl

include listed same below in
/-- An assignment of a value that may have a node of its own is written as it is printed, exactly if
it is kept. -/
theorem set_line_iff (id : m.id = (i : OpId)) {ms mx : Mark} {var : String} {v : Node}
    (shape : s = .assign ms .set [.name mx var] [v])
    (produces : Lowering.producesNode e.unit e.kernel v = true) {counted : Bool}
    (heads : Lowering.draft counted .statement s.className true (some s)
      [(.className, s.className), (.operation, Lowering.assignOperation), (.declared, var)] [] = d) :
    trimmed (e.line m) = e.print s ↔ e.Kept s := by
  obtain ⟨operation, name, kind⟩ := operation_eq same
  have syn := unruled.syntaxOf_eq same (List.mem_of_getElem? listed)
  have origin : d.origin = some s := heads ▸ rfl
  have stores : d.node.operation = Lowering.assignOperation := heads ▸ rfl
  have named : m.variableName = var := name.trans (heads ▸ rfl)
  have level : m.kind ≠ .control := by
    rw [kind, ← heads]
    exact nofun
  have line := line_assign unruled.unmatched level (operation.trans stores)
  have init : Lowering.initializer? d = some v := by
    unfold Lowering.initializer?
    simp [stores, origin, shape]
  have kept : e.Kept s ↔ ((∃ source, StandsFor e.unit e.kernel source v) →
      var ≠ "nil" ∧ e.print (e.unit.scope.strip v) = e.print v) := by
    rw [shape]
    exact ⟨fun kept => kept produces, fun kept _ => kept⟩
  obtain ⟨inner, isExpr⟩ := unruled.expression below (x := v) (by simp [shape, Node.expressions])
  rw [kept]
  by_cases stands : ∃ source, StandsFor e.unit e.kernel source v
  · obtain ⟨source, fed, text⟩ := unruled.fed listed id init (unruled.strip_isExpr inner isExpr)
      (e.unit.scope.strip_mem_preorder inner)
      (unruled.strip_not_named inner isExpr (List.mem_of_getElem? listed) origin
        (by rw [shape]; rfl)) stands
    have assigned : e.line m = var ++ " = " ++ e.print (e.unit.scope.strip v) := by
      rw [line, fed, named]
      exact congrArg (var ++ " = " ++ ·) text
    rw [assigned, print_set shape, assigned_iff, trimmed_print, ← print_value isExpr]
    exact ⟨fun agrees _ => agrees, fun agrees => agrees stands⟩
  · have assigned : e.line m = e.print s := by
      rw [line, unruled.unfed_value listed id init stands, syn, origin]
      rfl
    rw [assigned, trimmed_print]
    exact iff_of_true rfl fun there => absurd there stands

include member listed same below in
theorem assign_line_iff (id : m.id = (i : OpId)) {ms : Mark} {op : Source.AssignOp}
    {targets values : List Node} (shape : s = .assign ms op targets values) {counted : Bool}
    (heads : (Lowering.assign e.unit e.kernel counted s).head? = some d) :
    trimmed (e.line m) = e.print s ↔ e.Kept s := by
  unfold Lowering.assign at heads
  split at heads
  · exact unruled.define_line_iff listed same below id rfl heads
  · rename_i mark target var value
    split at heads
    · rename_i produces
      exact unruled.set_line_iff listed same below id rfl produces (Option.some.inj heads)
    · rename_i unproduced
      have text := unruled.line_of_generic member listed same (Option.some.inj heads)
      refine iff_of_true text ?_
      exact fun produces => absurd produces unproduced
  · rename_i notDefine notSet
    have text := unruled.line_of_generic member listed same (Option.some.inj heads)
    refine iff_of_true text ?_
    rw [shape]
    show e.AssignKept op targets values
    unfold AssignKept
    split
    · exact (notDefine _ _ _ _ shape).elim
    · exact (notSet _ _ _ _ shape).elim
    · trivial

include member listed same below in
/-- A call that makes up a statement is written as it is printed, exactly if it is kept. -/
theorem exprStmt_line_iff {ms : Mark} {x : Node} (shape : s = .exprStmt ms x) {counted : Bool}
    (heads : (Lowering.exprStmt e.unit e.kernel counted s x).head? = some d) :
    trimmed (e.line m) = e.print s ↔ e.Kept s := by
  have isExpr : x.isExpr = true :=
    (unruled.expression below (x := x) (by simp [shape, Node.expressions])).2
  unfold Lowering.exprStmt at heads
  split at heads
  · rename_i mark callee args spread stripped
    have drafted := Option.some.inj heads
    have vector : e.unit.scope.isVectorCall (.call mark callee args spread) = true →
        Text.contains (Kernel.nameOfCallee callee) Kernel.vectorMark = true := by
      intro isVector
      unfold Kernel.Scope.isVectorCall at isVector
      rw [← stripped, Kernel.Scope.strip_strip, stripped] at isVector
      simp only [Bool.and_eq_true] at isVector
      exact isVector.2
    -- no intrinsic is called like the operations that store
    have origin : d.origin = some (e.unit.scope.strip x) := by
      rw [← drafted, stripped]
      split <;> rfl
    have operation (reserved : String) (plain : reserved ≠ "")
        (other : Text.contains reserved Kernel.vectorMark = false) :
        d.node.operation ≠ reserved := by
      rw [← drafted]
      split
      · rename_i isVector
        have marked := vector isVector
        rintro rfl
        exact Bool.false_ne_true (other.symm.trans marked)
      · exact plain.symm
    have level : d.node.kind ≠ .control := by
      rw [← drafted]
      split <;> (intro same; cases same)
    have line := unruled.line_of_plain member listed same origin
      (by simpa [OpNode.isDefine] using operation OpNode.defineOperation (by decide) (by decide))
      level (operation Lowering.assignOperation (by decide) (by decide))
    rw [line, trimmed_print, shape, print_exprStmt isExpr]
    exact ⟨fun agrees _ _ _ _ _ => agrees, fun kept => kept _ _ _ _ stripped⟩
  · rename_i notCall
    have text := unruled.line_of_generic member listed same (Option.some.inj heads)
    refine iff_of_true text ?_
    rw [shape]
    exact fun m callee args spread stripped => (notCall m callee args spread stripped).elim

include member listed same below in
/-- The line of a plain statement is its print, exactly if it is kept. -/
theorem line_iff (id : m.id = (i : OpId)) (heads : d.Heads e.unit e.kernel s) :
    trimmed (e.line m) = e.print s ↔ e.Kept s := by
  obtain ⟨plain, counted, heads⟩ := heads
  have generic (other : e.Kept s)
      (drafts : (Lowering.generic e.unit e.kernel counted s).head? = some d) :
      trimmed (e.line m) = e.print s ↔ e.Kept s :=
    iff_of_true (unruled.line_of_generic member listed same (Option.some.inj drafts)) other
  cases s with
  | block | labeled | ifStmt | forStmt | rangeStmt => cases plain
  | empty => cases heads
  | declStmt md decl => exact unruled.declStmt_line_iff member listed same below id rfl heads
  | assign ms op targets values =>
      exact unruled.assign_line_iff member listed same below id rfl heads
  | exprStmt ms x => exact unruled.exprStmt_line_iff member listed same below rfl heads
  | _ => exact generic trivial heads

end Lines

end Emitter.Unruled

/-! ## Kernels -/

/-- Every node of a kernel lies in the span of the kernel and of none before it. -/
def SourceUnit.Placed (u : SourceUnit) : Prop :=
  ∀ k ∈ u.kernels, ∀ root ∈ k.body, ∀ n ∈ root.preorder, (u.enclosing? n).map (·.id) = some k.id

instance (u : SourceUnit) : Decidable u.Placed := by unfold SourceUnit.Placed; infer_instance

instance (u : SourceUnit) (cpg : PropertyGraph) (k : KernelFn) : Decidable (Lowering.InitApart u cpg k) := by
  unfold Lowering.InitApart; infer_instance

instance (e : Emitter) : Decidable e.Unmatched :=
  decidable_of_iff (∀ n ∈ e.graph.nodes, (e.rule? n.operation).isNone = true) <| by
    simp [Emitter.Unmatched]

theorem SourceUnit.Placed.enclosing?_eq {u : SourceUnit} (placed : u.Placed) {k : KernelFn}
    (listed : k ∈ u.kernels) {root n : Node} (body : k.body = some root) (below : n ∈ root.preorder) :
    u.enclosing? n = some k := by
  obtain ⟨k', found, same⟩ := Option.map_eq_some_iff.mp (placed k listed root body n below)
  rw [found, SourceUnit.kernel_inj (List.mem_of_find?_eq_some found) listed same]

/-- The node of the graph is the one that the plain statement `s` of the kernel gives. -/
def Emitter.WrittenFor (e : Emitter) (m : OpNode) (s : Node) : Prop :=
  ∃ root ∈ e.kernel.body, s ∈ root.preorder ∧ ∃ (i : Nat) (d : Lowering.Draft), m.id = (i : OpId) ∧
    (Lowering.draftsOf e.unit e.kernel)[i]? = some d ∧ d.Heads e.unit e.kernel s

/-- Every line of a statement that is no header is the print of the statement, as far as `kept`
goes; the body is made of the lines. -/
structure Emitter.Reprints (e : Emitter) (kept : Node → Prop) : Prop where
  body : e.generate.value.body = (e.graph.nodes.foldl e.lay {}).text
  line : ∀ m ∈ e.graph.nodes, m.isStatement = true → m.kind ≠ .control → m.kind ≠ .blockEnd →
    ∃ s, e.WrittenFor m s ∧ (Emitter.trimmed (e.line m) = e.print s ↔ kept s)

/-- Where no rule matches a kernel and the target has no types of its own, every line of a statement
that is no header is the print of the statement, exactly if the statement is kept. -/
theorem lines_reprint (e : Emitter) (numbered : e.unit.Numbered) (phrased : e.unit.Phrased)
    (placed : e.unit.Placed) (listed : e.kernel ∈ e.unit.kernels) (cpg : PropertyGraph)
    (source target : Option Architecture)
    (graph : e.graph = (convert e.unit cpg e.kernel source target).value.1.graph)
    (scalar : e.target = .scalar) (unmatched : e.Unmatched)
    (apart : Lowering.InitApart e.unit (cpg.build e.unit e.kernel).value e.kernel) :
    e.Reprints e.Kept := by
  refine ⟨Emitter.body_eq_lines, fun m member isStatement level inner => ?_⟩
  by_cases hasBody : e.kernel.hasBody = true
  · obtain ⟨root, body⟩ := Option.isSome_iff_exists.mp hasBody
    have unruled : e.Unruled (cpg.build e.unit e.kernel).value root := {
      numbered := numbered
      phrased := phrased
      listed := listed
      body := body
      inside := fun n below => placed.enclosing?_eq listed body below
      graph := ⟨target, graph.trans (Lowering.convert_graph hasBody)⟩
      apart := apart
      unmatched := unmatched
      scalar := scalar }
    obtain ⟨i, d, id, drafted, same⟩ := unruled.exists_draft member
    have among := unruled.drafted ▸ List.mem_of_getElem? drafted
    have kind := congrArg OpNode.kind same
    have silent := congrArg OpNode.isStatement same
    obtain ⟨s, below, heads⟩ := Lowering.lower_heads root false d among (silent ▸ isStatement)
      (fun control => level (kind.trans control)) fun closes => inner (kind.trans closes)
    exact ⟨s, ⟨root, body, below, i, d, id, drafted, heads⟩,
      unruled.line_iff member drafted same below id heads⟩
  · have bare : e.graph = OperationGraph.new e.kernel.name := by
      rw [graph]
      unfold convert
      simp [hasBody]
    rw [bare] at member
    cases member

/-! ## Two kernels -/

namespace Reprint

open Bracketing

/-- A declaration, a call, an update and a return. -/
def plain : String :=
  "func f(a float, b float) float \x7b\n\tx := a + b\n\tg(x)\n\tx += (a)\n\treturn x\n\x7d\n"

/-- A declaration whose value stands in parentheses. -/
def wrapped : String :=
  "func f(a float, b float) float \x7b\n\tx := (a + b)\n\treturn x\n\x7d\n"

theorem emitter_unit (text : String) : (emitter text).unit = unit text := by rw [emitter]

theorem emitter_kernel (text : String) : (emitter text).kernel = kernel text := by rw [emitter]

theorem emitter_target (text : String) : (emitter text).target = .scalar := by rw [emitter]

theorem emitter_converts (text : String) : (emitter text).graph =
    (convert (emitter text).unit PropertyGraph.new (emitter text).kernel none none).value.1.graph := by
  rw [emitter_graph, emitter_unit, emitter_kernel]

theorem emitter_mem {text : String} (some : (emitter text).unit.kernels ≠ []) :
    (emitter text).kernel ∈ (emitter text).unit.kernels := by
  rw [emitter_unit] at some
  rw [emitter_unit, emitter_kernel]
  exact kernel_mem some

end Reprint

open Reprint Bracketing in
/-- Four statements and their four lines. -/
theorem lines_reprint_plain : (emitter plain).unit.Numbered ∧ (emitter plain).unit.Phrased ∧
    (emitter plain).unit.Placed ∧ (emitter plain).kernel ∈ (emitter plain).unit.kernels ∧
    (emitter plain).Unmatched ∧ Lowering.InitApart (emitter plain).unit
      (PropertyGraph.new.build (emitter plain).unit (emitter plain).kernel).value
      (emitter plain).kernel ∧
    (emitter plain).Reprints (emitter plain).Kept ∧ (emitter plain).generate.value.body =
      "    float x = a + b;\n    g(x);\n    x += (a);\n    return x;\n\x7d\n" := by
  obtain ⟨numbered, phrased, placed, some, unmatched, apart, body⟩ :
      (emitter plain).unit.Numbered ∧ (emitter plain).unit.Phrased ∧ (emitter plain).unit.Placed ∧
        (emitter plain).unit.kernels ≠ [] ∧ (emitter plain).Unmatched ∧
        Lowering.InitApart (emitter plain).unit
          (PropertyGraph.new.build (emitter plain).unit (emitter plain).kernel).value
          (emitter plain).kernel ∧
        (emitter plain).generate.value.body =
          "    float x = a + b;\n    g(x);\n    x += (a);\n    return x;\n\x7d\n" := by
    have spelled : plain.toList = _ := String.toList_ofList
    rw [emitter_spelled spelled]
    decide +kernel
  have listed := emitter_mem some
  have lines := lines_reprint (emitter plain) numbered phrased placed listed PropertyGraph.new none
    none (emitter_converts plain) (emitter_target plain) unmatched apart
  exact ⟨numbered, phrased, placed, listed, unmatched, apart, lines, body⟩

open Reprint Bracketing in
/-- The declaration is written without the parentheses that its print has. -/
theorem lines_reprint_wrapped : (emitter wrapped).kernel ∈ (emitter wrapped).unit.kernels ∧
    (emitter wrapped).Unmatched ∧ ¬(emitter wrapped).Reprints fun _ => True := by
  obtain ⟨there, unmatched, first, drafted⟩ :
      (emitter wrapped).unit.kernels ≠ [] ∧ (emitter wrapped).Unmatched ∧
        ((emitter wrapped).graph.nodes.head?.any fun m => m.id == 0 && m.isStatement &&
          m.kind != .control && m.kind != .blockEnd &&
          Emitter.trimmed ((emitter wrapped).line m) == "float x = a + b") = true ∧
        (((Lowering.draftsOf (emitter wrapped).unit (emitter wrapped).kernel)[0]?.bind
          Lowering.Draft.origin).all fun n => n.className == "AssignStmt" &&
            (emitter wrapped).print n == "float x = (a + b)") = true := by
    have spelled : wrapped.toList = _ := String.toList_ofList
    rw [emitter_spelled spelled]
    decide +kernel
  refine ⟨emitter_mem there, unmatched, fun reprints => ?_⟩
  obtain ⟨m, head⟩ : ∃ m, (emitter wrapped).graph.nodes.head? = some m := by
    refine Option.ne_none_iff_exists'.mp fun none => ?_
    rw [none] at first
    cases first
  rw [head] at first
  simp only [Option.any_some, Bool.and_eq_true, beq_iff_eq, bne_iff_ne, ne_eq] at first
  obtain ⟨⟨⟨⟨id, isStatement⟩, level⟩, inner⟩, line⟩ := first
  obtain ⟨s, ⟨root, -, -, i, d, id', listed, heads⟩, agrees⟩ :=
    reprints.line m (List.mem_of_mem_head? head) isStatement level inner
  obtain rfl : i = 0 := Int.ofNat_inj.mp (id'.symm.trans id)
  have text := line.symm.trans (agrees.mpr trivial)
  rw [listed, Option.bind_some] at drafted
  rcases heads.origin with origin | ⟨m, callee, args, spread, origin⟩
  · rw [origin, Option.all_some, Bool.and_eq_true, beq_iff_eq, beq_iff_eq] at drafted
    exact absurd (text.trans drafted.2) (by decide)
  · rw [origin] at drafted
    simp [Node.className] at drafted

end Retarget
