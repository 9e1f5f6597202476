/-
# Proofs.OperandEdges -- operands and initialisers are read from where they stand

Three sorts of edges share one set of labels: the position of an operand, the mark of an
initialiser, and the name of a variable that flows.  As long as no variable that flows bears a
name of the first two sorts, labels tell the sorts apart (`operandEdges_faithful`): an edge for
position `i` comes from the node of operand `i`, parentheses and conversions stripped, or from a
declaration of the variable that the operand is; the edge of an initialiser comes from the node of
the value; and what reads labels back, as a number or by the mark, finds these edges and no others.

With a variable called `init` the edge along its flow is taken for an initialiser
(`operandEdges_confused`).
-/
import Retarget.Proofs.LoweredGraph
import Retarget.Proofs.Numeral
import Retarget.Emission.Line

namespace Retarget

open Retarget.Source (Node NodeId)
open Retarget.Text (readDecimal readDigits IntegerReading)

set_option autoImplicit false
set_option linter.dupNamespace false

/-! ## Positions as text -/

namespace Text

/-- A number that is read from the text of a position is that position. -/
theorem readDecimal_toString {i : Nat} {j : Int} (read : (readDecimal (toString i)).value? = some j) :
    j = i := by
  have text : (toString i).toList = Nat.toDigits 10 i := by
    rw [Nat.toString_eq_ofList_toDigits, String.toList_ofList]
  have digits : ∀ c ∈ Nat.toDigits 10 i, c.isDigit = true := fun _ => isDigit_of_mem_toDigits
  have nonempty : (Nat.toDigits 10 i).isEmpty = false := by
    simp [List.isEmpty_eq_false_iff, Nat.toDigits_ne_nil]
  simp only [readDecimal, text, splitSign_digits digits, nonempty, Bool.false_eq_true, if_false]
    at read
  rcases readDigits_digits false _ digits 0 with value | ⟨-, beyond⟩
  · rw [Nat.ofDigitChars_ten_toDigits] at value
    simp only [value, signed, Bool.false_eq_true, if_false, Bool.not_true, Bool.false_or] at read
    split at read <;> simp [IntegerReading.value?] at read
    exact read.symm
  · simp [beyond, signed, IntegerReading.value?] at read

theorem dropStart_append (s t : String) : dropStart (s ++ t) s = t := by
  simp [dropStart, startsWith, String.toList_append]

end Text

theorem argLabel_ne_initLabel (i : Nat) : argLabel i ≠ Lowering.initLabel := by
  intro same
  have chars := congrArg (·.toList.head?) same
  simp [argLabel, Lowering.initLabel] at chars

theorem argLabel_injective {i j : Nat} (same : argLabel i = argLabel j) : i = j := by
  have chars := congrArg String.toList same
  simp only [argLabel, String.toList_append] at chars
  have spelled := congrArg (fun ds => Nat.ofDigitChars 10 ds 0) (List.append_cancel_left chars)
  simpa [Nat.toString_eq_ofList_toDigits] using spelled

/-- The position read from the label of an operand is its position. -/
theorem Emitter.argIndex?_argLabel {e : OpEdge} {i : Nat} {j : Int} (label : e.label = argLabel i)
    (read : Emitter.argIndex? e = some j) : j = i := by
  unfold Emitter.argIndex? at read
  split at read
  · rw [label, argLabel, Text.dropStart_append] at read
    exact Text.readDecimal_toString read
  · cases read

namespace Lowering

variable {u : SourceUnit} {cpg : PropertyGraph} {k : KernelFn} {target : Option Architecture}

/-! ## Names that are roles -/

/-- A text that is read as the role of an operand or an initialiser. -/
def IsRole (label : String) : Prop :=
  label = initLabel ∨ (∃ i, label = argLabel i) ∨
    ∃ e : OpEdge, e.label = label ∧ (Emitter.argIndex? e).isSome

/-- No variable that flows into a node of the kernel is called like a role. -/
def RolesApart (u : SourceUnit) (cpg : PropertyGraph) (k : KernelFn) : Prop :=
  ∀ d ∈ draftsOf u k, ∀ n ∈ d.origin, ∀ dep ∈ cpg.incomingFlow n.id, ¬IsRole dep.var

/-! ## Where edges come from -/

/-- The node stands for the operand itself. -/
def StandsFor (u : SourceUnit) (k : KernelFn) (source : OpId) (n : Node) : Prop :=
  ∃ (s : Nat) (d : Draft), source = (s : OpId) ∧ (draftsOf u k)[s]? = some d ∧
    (u.scope.strip n).id ∈ d.names

/-- The node declares the variable that the operand is. -/
def Declares (u : SourceUnit) (k : KernelFn) (source : OpId) (n : Node) : Prop :=
  ∃ m var, u.scope.strip n = .name m var ∧ ∃ (s : Nat) (d : Draft), source = (s : OpId) ∧
    (draftsOf u k)[s]? = some d ∧ d.node.isDefine = true ∧ d.node.variableName = var

theorem standsFor_of_lookup {source : OpId} {n : Node}
    (found : (nodeTable (draftsOf u k)).lookup (u.scope.strip n).id = some source) :
    StandsFor u k source n := by
  obtain ⟨s, d, same, listed, named⟩ := mem_nodeTable found
  exact ⟨s, d, same, listed, named⟩

/-- An edge of the graph is of the sort that its label says. -/
theorem edge_sort (apart : RolesApart u cpg k) {e : OpEdge}
    (drawn : e ∈ (lowered u cpg k target).edges) :
    ∃ (t : Nat) (d : Draft) (n : Node), e.target = (t : OpId) ∧ (draftsOf u k)[t]? = some d ∧
      d.origin = some n ∧
      ((e.label = initLabel ∧ ∃ v, initializer? d = some v ∧ StandsFor u k e.source v) ∨
        (∃ i arg, e.label = argLabel i ∧ (operandsOf u n)[i]? = some arg ∧
          (StandsFor u k e.source arg ∨ Declares u k e.source arg)) ∨
        ¬IsRole e.label) := by
  obtain ⟨t, d, listed, -, asked, target, -⟩ := mem_edges_lowered.mp drawn
  obtain ⟨n, origin, sort⟩ := mem_wiring.mp asked
  refine ⟨t, d, n, target, listed, origin, ?_⟩
  rcases sort with ⟨label, v, init, found⟩ | ⟨i, arg, operand, found, label⟩ |
    ⟨dep, flows, -, label⟩
  · exact Or.inl ⟨label, v, init, standsFor_of_lookup found⟩
  · refine Or.inr (Or.inl ⟨i, arg, label, operand, ?_⟩)
    rcases operandSource?_cases found with own | ⟨m, var, isName, nearest⟩
    · exact Or.inl (standsFor_of_lookup own)
    · obtain ⟨s, decl, same, declared, isDefine, variableName⟩ := nearestDefine?_spec nearest
      exact Or.inr ⟨m, var, isName, s, decl, same, declared, isDefine, variableName⟩
  · refine Or.inr (Or.inr ?_)
    rw [show e.label = dep.var from label]
    exact apart d (List.mem_of_getElem? listed) n origin dep flows

/-- What has a node is found in the table. -/
theorem exists_lookup {drafts : List Draft} {s : Nat} {d : Draft} {n : NodeId}
    (listed : drafts[s]? = some d) (named : n ∈ d.names) :
    ∃ source, (nodeTable drafts).lookup n = some source := by
  have member : (n, (s : OpId)) ∈ nodeTable drafts := by
    simp only [nodeTable, List.mem_reverse, List.mem_flatMap, List.mem_map, Prod.mk.injEq]
    exact ⟨(d, s), List.mem_zipIdx_iff_getElem?.mpr listed, n, named, rfl, rfl⟩
  refine Option.ne_none_iff_exists'.mp fun absent => ?_
  simpa using List.lookup_eq_none_iff.mp absent _ member

/-! ## The graph of a kernel -/

/-- Labels of the graph mean what they say. -/
structure LabelsFaithful (u : SourceUnit) (k : KernelFn) (g : OperationGraph) : Prop where
  /-- An edge for position `i` comes from operand `i` of the operation it leads to. -/
  operand : ∀ e ∈ g.edges, ∀ i, e.label = argLabel i →
    ∃ (t : Nat) (d : Draft) (n arg : Node), e.target = (t : OpId) ∧
      (draftsOf u k)[t]? = some d ∧ d.origin = some n ∧ (operandsOf u n)[i]? = some arg ∧
      (StandsFor u k e.source arg ∨ Declares u k e.source arg)
  /-- An edge marked as an initialiser comes from the value its target stores. -/
  initializer : ∀ e ∈ g.edges, e.label = initLabel →
    ∃ (t : Nat) (d : Draft) (v : Node), e.target = (t : OpId) ∧ (draftsOf u k)[t]? = some d ∧
      initializer? d = some v ∧ StandsFor u k e.source v
  /-- Where a position can be read off a label, the edge is one for that position. -/
  position : ∀ e ∈ g.edges, ∀ j, Emitter.argIndex? e = some j →
    ∃ i : Nat, j = i ∧ e.label = argLabel i
  /-- The node found under the mark of initialisers is that of the value. -/
  value : ∀ (t : Nat) m, g.input? (t : OpId) initLabel = some m →
    ∃ (d : Draft) (v : Node), (draftsOf u k)[t]? = some d ∧ initializer? d = some v ∧
      StandsFor u k m.id v
  /-- An operand that has a node feeds the operation it belongs to. -/
  fed : ∀ (t s : Nat) (d d' : Draft) (n arg : Node) (i : Nat), (draftsOf u k)[t]? = some d →
    d.origin = some n → (operandsOf u n)[i]? = some arg → (draftsOf u k)[s]? = some d' →
    (u.scope.strip arg).id ∈ d'.names → (u.scope.strip arg).id ∉ d.names →
    ∃ e ∈ g.edges, e.target = (t : OpId) ∧ e.label = argLabel i ∧ StandsFor u k e.source arg

theorem lowered_initializer (apart : RolesApart u cpg k) {e : OpEdge}
    (drawn : e ∈ (lowered u cpg k target).edges) (label : e.label = initLabel) :
    ∃ (t : Nat) (d : Draft) (v : Node), e.target = (t : OpId) ∧ (draftsOf u k)[t]? = some d ∧
      initializer? d = some v ∧ StandsFor u k e.source v := by
  obtain ⟨t, d, n, target, listed, -, sort⟩ := edge_sort apart drawn
  rcases sort with ⟨-, v, init, stands⟩ | ⟨i, arg, other, -⟩ | plain
  · exact ⟨t, d, v, target, listed, init, stands⟩
  · exact absurd (other.symm.trans label) (argLabel_ne_initLabel i)
  · exact absurd (Or.inl label) plain

theorem id_of_node?_lowered {i : Nat} {m : OpNode}
    (found : (lowered u cpg k target).node? (i : OpId) = some m) : m.id = (i : OpId) := by
  have placed := node?_lowered u cpg k target i
  rw [found, Option.map_some, eq_comm, Option.map_eq_some_iff] at placed
  obtain ⟨d, -, same⟩ := placed
  exact (congrArg OpNode.id same).symm

theorem exists_slot {target : Option Architecture} {m : OpNode}
    (member : m ∈ (lowered u cpg k target).nodes) :
    ∃ i : Nat, (lowered u cpg k target).node? (i : OpId) = some m ∧ m.id = (i : OpId) := by
  obtain ⟨slot, inside, same⟩ := List.mem_filterMap.mp member
  obtain ⟨i, there⟩ := List.getElem?_of_mem inside
  have here : (lowered u cpg k target).node? (i : OpId) = some m := by
    rw [OperationGraph.node?_natCast, there, Option.join_some]
    exact same
  exact ⟨i, here, id_of_node?_lowered here⟩

theorem labelsFaithful_lowered (apart : RolesApart u cpg k) :
    LabelsFaithful u k (lowered u cpg k target) where
  operand := by
    intro e drawn i label
    obtain ⟨t, d, n, target, listed, origin, sort⟩ := edge_sort apart drawn
    rcases sort with ⟨other, -⟩ | ⟨j, arg, same, operand, comes⟩ | plain
    · exact absurd (label.symm.trans other) (argLabel_ne_initLabel i)
    · obtain rfl := argLabel_injective (same.symm.trans label)
      exact ⟨t, d, n, arg, target, listed, origin, operand, comes⟩
    · exact absurd (Or.inr (Or.inl ⟨i, label⟩)) plain
  initializer _ drawn label := lowered_initializer apart drawn label
  position := by
    intro e drawn j read
    obtain ⟨t, d, n, -, -, -, sort⟩ := edge_sort apart drawn
    rcases sort with ⟨label, -⟩ | ⟨i, arg, label, -⟩ | plain
    · -- the mark of initialisers is no position
      simp [Emitter.argIndex?, label, initLabel, Text.startsWith] at read
    · exact ⟨i, Emitter.argIndex?_argLabel label read, label⟩
    · exact absurd (Or.inr (Or.inr ⟨e, rfl, Option.isSome_of_eq_some read⟩)) plain
  value := by
    intro t m found
    obtain ⟨e, first, node⟩ := Option.bind_eq_some_iff.mp found
    have drawn := List.mem_of_find?_eq_some first
    have fits := List.find?_some first
    simp only [Bool.and_eq_true, beq_iff_eq] at fits
    obtain ⟨t', d, v, target, listed, init, stands⟩ := lowered_initializer apart drawn fits.2
    obtain rfl : t' = t := Int.ofNat_inj.mp (target.symm.trans fits.1.1)
    have source : m.id = e.source := by
      obtain ⟨s, -, same, -⟩ := stands
      rw [same] at node ⊢
      exact id_of_node?_lowered node
    exact ⟨d, v, listed, init, source ▸ stands⟩
  fed := by
    intro t s d d' n arg i listed origin operand placed named other
    obtain ⟨source, found⟩ := exists_lookup placed named
    have stands := standsFor_of_lookup found
    refine ⟨⟨source, (t : OpId), .data, argLabel i⟩, mem_edges_lowered.mpr ?_, rfl, rfl, stands⟩
    refine ⟨t, d, listed, ?_, mem_wiring.mpr ⟨n, origin, Or.inr (Or.inl ⟨i, arg, operand, ?_, rfl⟩)⟩,
      rfl, rfl⟩
    · rintro rfl
      obtain ⟨s', d'', same, listed', named'⟩ := stands
      obtain rfl : t = s' := Int.ofNat_inj.mp same
      obtain rfl := Option.some.inj (listed.symm.trans listed')
      exact other named'
    · simp [operandSource?, found]

end Lowering

/-- In the graph of a kernel, labels mean what they say, whatever has been built before, provided no
variable that flows is called like a role. -/
theorem operandEdges_faithful (u : SourceUnit) (cpg : PropertyGraph) (k : KernelFn)
    (source target : Option Architecture)
    (apart : Lowering.RolesApart u (cpg.build u k).value k) :
    Lowering.LabelsFaithful u k (convert u cpg k source target).value.1.graph := by
  by_cases hasBody : k.hasBody = true
  · rw [Lowering.convert_graph hasBody]
    exact Lowering.labelsFaithful_lowered apart
  · have noBody : k.body = none := by simpa [KernelFn.hasBody] using hasBody
    have bare : (convert u cpg k source target).value.1.graph = OperationGraph.new k.name := by
      unfold convert
      simp [hasBody]
    have noDrafts : Lowering.draftsOf u k = [] := by simp [Lowering.draftsOf, noBody]
    rw [bare]
    constructor <;> simp [OperationGraph.new, OperationGraph.input?, noDrafts]

/-! ## Two kernels -/

namespace Lowering

theorem not_isRole {label : String} (other : label ≠ initLabel)
    (plain : Text.startsWith label "arg_" = false) : ¬IsRole label := by
  rintro (init | ⟨i, arg⟩ | ⟨e, same, read⟩)
  · exact other init
  · simp [arg, argLabel, Text.startsWith] at plain
  · simp [Emitter.argIndex?, same, plain] at read

/-- The kernel `name := 5; x := name + 1; return x` on numbers of one kind. -/
def stepping (name : String) (kind : Source.LiteralKind) (type : String) : KernelFn where
  id := 0
  name := "f"
  params := []
  result := type
  start := 0
  stop := 0
  body := some (.block ⟨1, 0, 0⟩
    [.assign ⟨2, 0, 0⟩ .define [.name ⟨3, 0, 0⟩ name] [.literal ⟨4, 0, 0⟩ kind "5"],
     .assign ⟨5, 0, 0⟩ .define [.name ⟨6, 0, 0⟩ "x"]
      [.binary ⟨7, 0, 0⟩ .add (.name ⟨8, 0, 0⟩ name) (.literal ⟨9, 0, 0⟩ kind "1")],
     .ret ⟨10, 0, 0⟩ [.name ⟨11, 0, 0⟩ "x"]])
  fallOff := .ret ⟨12, 0, 0⟩ []
  vars := [(name, type), ("x", type)]

def steppingUnit (name : String) (kind : Source.LiteralKind) (type : String) : SourceUnit where
  file := ""
  lines := default
  scope := {}
  kernels := [stepping name kind type]
  numbered := rfl

end Lowering

open Lowering (stepping steppingUnit) in
/-- On floating-point numbers the sum is a node of its own: it feeds `x`, and `a` feeds it. -/
theorem operandEdges_faithful_sum :
    Lowering.LabelsFaithful (steppingUnit "a" .float "float") (stepping "a" .float "float")
      (convert (steppingUnit "a" .float "float") PropertyGraph.new (stepping "a" .float "float")
        none none).value.1.graph ∧
    ((convert (steppingUnit "a" .float "float") PropertyGraph.new (stepping "a" .float "float")
      none none).value.1.graph.edges.map fun e => (e.source, e.target, e.label)) =
      [(2, 1, "init"), (0, 1, "a"), (0, 2, "arg_0"), (1, 3, "x")] := by
  refine ⟨operandEdges_faithful _ _ _ _ _ ?_, by decide +kernel⟩
  have plain : ∀ d ∈ Lowering.draftsOf (steppingUnit "a" .float "float") (stepping "a" .float "float"),
      ∀ n ∈ d.origin.toList, ∀ dep ∈ (PropertyGraph.new.build (steppingUnit "a" .float "float")
        (stepping "a" .float "float")).value.incomingFlow n.id,
        dep.var ≠ Lowering.initLabel ∧ Text.startsWith dep.var "arg_" = false := by decide +kernel
  intro d listed n origin dep flows
  obtain ⟨other, unlike⟩ := plain d listed n (Option.mem_toList.mpr origin) dep flows
  exact Lowering.not_isRole other unlike

open Lowering (stepping steppingUnit) in
/-- A variable called `init` is taken for the initialiser of what it flows into. -/
theorem operandEdges_confused :
    ¬Lowering.LabelsFaithful (steppingUnit "init" .int "int") (stepping "init" .int "int")
      (convert (steppingUnit "init" .int "int") PropertyGraph.new (stepping "init" .int "int")
        none none).value.1.graph := by
  intro faithful
  have drawn : (⟨0, 1, .data, "init"⟩ : OpEdge) ∈ (convert (steppingUnit "init" .int "int")
      PropertyGraph.new (stepping "init" .int "int") none none).value.1.graph.edges := by
    decide +kernel
  obtain ⟨t, d, v, target, listed, init, s, d', source, placed, named⟩ :=
    faithful.initializer _ drawn rfl
  obtain rfl : t = 1 := (Int.ofNat_inj.mp target).symm
  obtain rfl : s = 0 := (Int.ofNat_inj.mp source).symm
  have value : ((Lowering.draftsOf (steppingUnit "init" .int "int") (stepping "init" .int "int"))[1]?.bind
      Lowering.initializer?).map (fun v => ((steppingUnit "init" .int "int").scope.strip v).id) =
      some 7 := by decide +kernel
  have names : (Lowering.draftsOf (steppingUnit "init" .int "int") (stepping "init" .int "int"))[0]?.map
      Lowering.Draft.names = some [2] := by decide +kernel
  rw [listed, Option.bind_some, init, Option.map_some] at value
  rw [placed, Option.map_some] at names
  rw [Option.some.inj names, Option.some.inj value] at named
  simp at named

end Retarget
