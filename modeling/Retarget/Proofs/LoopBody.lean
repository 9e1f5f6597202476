/-
# Proofs.LoopBody -- what stands between the header of a loop and its end

The header of a counted loop is marked where it is lowered and widened where it is written, and
neither looks at the body: the step becomes the number of lanes exactly if the loop counts up and
both the graph and the code are for a target that asks for it (`Drawn.widens_iff`).  The statements
in the loop are resolved one by one (`Drawn.expected_statement`).  So a widened header says nothing
of the lines below it (`loopBody_resolved`), and a loop that writes one number at a time may step by
four (`loopBody_resolved_plain`).

Lines tell the headers apart: a widened one begins with a comment, a counted one with `for`, and one
with nothing but a condition with `while`.
-/
import Retarget.Proofs.DeclaredType
import Retarget.Proofs.StatementVerdict

namespace Retarget

open Retarget.Source (Node NodeId Mark)

set_option autoImplicit false
set_option linter.dupNamespace false

/-! ## Headers -/

namespace OpNode

theorem isVectorized_mark (n : OpNode) :
    (n.setProp PropKey.vectorize.text "true").isVectorized = true := by
  have absent : (n.props.filter (·.1 != PropKey.vectorize.text)).lookup PropKey.vectorize.text =
      none := by
    rw [List.lookup_eq_none_iff]
    intro p member
    have other := (List.mem_filter.mp member).2
    rw [bne_iff_ne] at other
    simpa using other.symm
  simp [isVectorized, prop, prop?, setProp, List.lookup_append, absent]

end OpNode

namespace Lowering

variable {u : SourceUnit} {cpg : PropertyGraph} {k : KernelFn} {target : Option Architecture}

theorem isVectorized_marked (ids : List Nat) (g : OperationGraph) (i : Nat) :
    ((mark g (ids.map fun i : Nat => (i : OpId))).node? (i : OpId)).map (·.isVectorized) =
      (g.node? (i : OpId)).map fun n => n.isVectorized || decide (i ∈ ids) := by
  induction ids generalizing g with
  | nil => simp [mark]
  | cons j ids ih =>
      refine (ih (g.update (j : OpId) (·.setProp PropKey.vectorize.text "true"))).trans ?_
      simp only [OperationGraph.node?_natCast, OperationGraph.slots_update, List.getElem?_modify]
      by_cases here : j = i
      · subst here
        cases g.slots[j]? with
        | none => rfl
        | some slot =>
            cases slot with
            | none => simp
            | some n => simp [OpNode.isVectorized_mark]
      · simp [here, Ne.symm here]

/-- Marks are those of the drafts, on targets that ask for them. -/
theorem isVectorized_lowered (i : Nat) :
    ((lowered u cpg k target).node? (i : OpId)).map (·.isVectorized) =
      ((draftsOf u k)[i]?).map fun d =>
        d.node.isVectorized || (target.any (·.autoVectorize) && isMarked d) := by
  have bare : ((connect u cpg (draftsOf u k) (graphOf k.name (draftsOf u k))).node? (i : OpId)) =
      ((draftsOf u k)[i]?).map (·.placed i) := by
    rw [OperationGraph.node?_congr (connect_spec u cpg _ k.name).1, node?_graphOf]
  have plain (d : Draft) : (d.placed i).isVectorized = d.node.isVectorized := rfl
  unfold lowered convertBody
  cases target with
  | none => simp [bare, Function.comp_def, plain]
  | some t =>
      by_cases marks : t.autoVectorize = true
      · have ids : markedIds (draftsOf u k) =
            (((draftsOf u k).zipIdx.filter fun p => isMarked p.1).map (·.2)).map
              fun i : Nat => (i : OpId) := by
          rw [List.map_map]
          rfl
        simp only [marks, if_true, Option.any_some, Bool.true_and]
        rw [ids, isVectorized_marked, bare]
        cases listed : (draftsOf u k)[i]? with
        | none => rfl
        | some d =>
            have among : i ∈ ((draftsOf u k).zipIdx.filter fun p => isMarked p.1).map (·.2) ↔
                isMarked d = true := by
              rw [List.mem_map]
              constructor
              · rintro ⟨⟨d', j⟩, member, rfl⟩
                obtain ⟨there, marked⟩ := List.mem_filter.mp member
                obtain rfl := Option.some.inj
                  (listed.symm.trans (List.mem_zipIdx_iff_getElem?.mp there))
                exact marked
              · exact fun marked => ⟨(d, i),
                  List.mem_filter.mpr ⟨List.mem_zipIdx_iff_getElem?.mpr listed, marked⟩, rfl⟩
            simp [plain, among]
      · simp [marks, bare, Function.comp_def, plain]

/-- The header of a statement that has one, or that of a branch otherwise. -/
inductive Draft.IsHeader (d : Draft) : Prop
  | own (counted : Bool) (n : Node) : n.hasHeader = true →
      d = header counted (some n) n.className → d.IsHeader
  | other (counted : Bool) : d = header counted none elseName → d.IsHeader

theorem lower_header (root : Node) (counted : Bool) :
    ∀ d ∈ lower u k counted root, d.node.kind = .control → d.IsHeader := by
  have flat {d : Draft} (turn : d.node.kind.turn = 0) : d.node.kind = .control → d.IsHeader :=
    fun control => by rw [control] at turn; cases turn
  have composes : Composes u k (fun _ => True) (∀ d ∈ ·, d.node.kind = .control → d.IsHeader) := {
    child := fun _ _ _ _ _ => trivial
    nil := List.forall_mem_nil _
    append := fun _ _ first second => List.forall_mem_append.mpr ⟨first, second⟩
    blockEnd := fun _ => List.forall_mem_singleton.mpr nofun
    elseHeader := fun counted => List.forall_mem_singleton.mpr fun _ => .other counted rfl
    header := fun n counted _ hasHeader =>
      List.forall_mem_singleton.mpr fun _ => .own counted n hasHeader rfl
    operand := fun _ _ _ d member => flat (turn_operands d member)
    plain := fun _ _ _ plain d member => flat (turn_lower_plain plain d member) }
  exact composes.lower root trivial counted

end Lowering

namespace Emitter

open Text (contains)

/-! ## Loops -/

variable (e : Emitter)

/-- A header of three parts as the source has them. -/
def headerText (init cond post : Option Node) : String :=
  "for (" ++ e.printOpt init ++ "; " ++ e.printOpt cond ++ "; " ++ e.printOpt post ++ ") \x7b"

/-- The header of the loop that a node stands for. -/
def headerText? (h : OpNode) : Option String :=
  match e.syntaxOf h with
  | some (.forStmt _ init cond post _) => some (e.headerText init cond post)
  | _ => none

/-- A header whose step is the number of lanes. -/
def widened (text : String) : String :=
  "// Vector Loop (" ++ e.target.name ++ ")\n" ++
    String.ofList (replaceFirst ['+', '+'] (" += " ++ e.target.lanes32).toList text.toList)

/-- The node is written as a header whose step has been replaced by the number of lanes. -/
def Widens (h : OpNode) : Prop :=
  ∃ text ∈ e.headerText? h, contains text "++" = true ∧ e.line h = e.widened text

instance (h : OpNode) : Decidable (e.Widens h) :=
  inferInstanceAs (Decidable (∃ text ∈ e.headerText? h, _))

/-- The node stands for a loop that has an increment, and more than a condition. -/
def CountsUp (h : OpNode) : Prop :=
  (e.syntaxOf h).map (·.className) = some "ForStmt" ∧
    ∃ text ∈ e.headerText? h, contains text "++" = true

variable {e}

theorem exists_forStmt {h : OpNode} {text : String} (header : text ∈ e.headerText? h) :
    ∃ m init cond post body, e.syntaxOf h = some (.forStmt m init cond post body) ∧
      text = e.headerText init cond post := by
  unfold headerText? at header
  split at header
  · rename_i m init cond post body syn
    exact ⟨m, init, cond, post, body, syn, (Option.some.inj header).symm⟩
  · cases header

theorem head_append {s : String} {c : Char} (first : s.toList.head? = some c) (t : String) :
    (s ++ t).toList.head? = some c := by
  rw [String.toList_append, List.head?_append, first]
  rfl

theorem head_widened (text : String) : (e.widened text).toList.head? = some '/' :=
  head_append (head_append (head_append (by decide) _) _) _

theorem head_headerText (init cond post : Option Node) :
    (e.headerText init cond post).toList.head? = some 'f' :=
  head_append (head_append (head_append (head_append (head_append (head_append
    (by decide) _) _) _) _) _) _

section Line

variable {h : OpNode} {m : Mark} {init cond post : Option Node} {body : Node}

theorem line_control (control : h.kind = .control) (silent : h.isDefine = false) :
    e.line h = ((e.control h).run {}).1 := by
  unfold line statement
  rw [if_neg (by simp [silent]), if_pos (by simp [control])]

/-- The line of a counted loop. -/
theorem line_counted (control : h.kind = .control) (silent : h.isDefine = false)
    (syn : e.syntaxOf h = some (.forStmt m init cond post body))
    (counted : (Node.forStmt m init cond post body).className = "ForStmt") :
    e.line h =
      if h.isVectorized && e.target.autoVectorize then e.widened (e.headerText init cond post)
      else e.headerText init cond post := by
  rw [line_control control silent]
  unfold Emitter.control
  rw [syn]
  split
  · rename_i same
    cases same
  · rename_i same
    cases same
    have other : "WhileStmt" = "ForStmt" := counted
    exact absurd other (by decide)
  · rename_i same
    cases same
    rfl
  · rename_i same
    cases same
  · rename_i _ noFor _
    exact (noFor _ _ _ _ _ rfl).elim

/-- The line of a loop with nothing but a condition. -/
theorem line_while (control : h.kind = .control) (silent : h.isDefine = false) {test : Node}
    (syn : e.syntaxOf h = some (.forStmt m none (some test) none body)) :
    e.line h = "while (" ++ e.print test ++ ") \x7b" := by
  rw [line_control control silent]
  unfold Emitter.control
  rw [syn]
  rfl

end Line

theorem className_of_counted {m : Mark} {init cond post : Option Node} {body : Node}
    (other : (Node.forStmt m init cond post body).className ≠ "ForStmt") :
    init = none ∧ post = none ∧ ∃ test, cond = some test := by
  cases init with
  | some init => exact absurd rfl other
  | none =>
      cases cond with
      | none => exact absurd rfl other
      | some test =>
          cases post with
          | some post => exact absurd rfl other
          | none => exact ⟨rfl, rfl, test, rfl⟩

end Emitter

namespace Emitter.Drawn

open Lowering (draftsOf Draft)

variable {e : Emitter} {cpg : PropertyGraph} {root : Node} (drawn : e.Drawn cpg root)
  {h : OpNode} (member : h ∈ e.graph.nodes) (control : h.kind = .control)

include drawn member control

theorem header_draft : ∃ (i : Nat) (d : Draft), e.graph.node? (i : OpId) = some h ∧
    (draftsOf e.unit e.kernel)[i]? = some d ∧ h.unmarked = (d.placed i).unmarked ∧ d.IsHeader := by
  obtain ⟨i, d, id, listed, same⟩ := drawn.exists_draft member
  have kind := (operation_eq same).2.2
  exact ⟨i, d, id ▸ drawn.node?_id member, listed, same, Lowering.lower_header root false d
    (drawn.drafted ▸ List.mem_of_getElem? listed) (kind ▸ control)⟩

/-- A node of a header is one whose line is a header, and declares nothing. -/
theorem header_isHeader : h.isDefine = false ∧ e.isHeader h = true := by
  obtain ⟨i, d, -, listed, same, isHeader⟩ := drawn.header_draft member control
  have operation := (operation_eq same).1
  have name : h.unmarked.name = (d.placed i).unmarked.name := congrArg OpNode.name same
  change h.name = d.node.name at name
  have syn := drawn.syntaxOf_eq same (List.mem_of_getElem? listed)
  have silent : h.isDefine = false := by
    rw [OpNode.isDefine, operation]
    cases isHeader with
    | own _ n _ is => exact is ▸ rfl
    | other _ is => exact is ▸ rfl
  refine ⟨silent, ?_⟩
  cases isHeader with
  | own counted n hasHeader is =>
      have origin : d.origin = some n := is ▸ rfl
      rw [isHeader, syn, origin]
      cases n <;> first | rfl | cases hasHeader
  | other counted is =>
      have origin : d.origin = none := is ▸ rfl
      rw [isHeader, syn, origin, name, is]
      rfl

/-- Nothing is expected to be recorded of a header. -/
theorem header_silent : h.isDefine = false ∧ e.expected h = none := by
  obtain ⟨silent, header⟩ := drawn.header_isHeader member control
  refine ⟨silent, ?_⟩
  unfold expected
  rw [if_neg (by simp [control]), if_neg (by simp [silent]), if_pos (by simp [control]),
    if_pos header]

/-- A header is marked exactly if it is that of a counted loop, in a graph for a target that asks for
marks. -/
theorem isVectorized_header {goal : Option Architecture}
    (graph : e.graph = Lowering.lowered e.unit cpg e.kernel goal) {n : Node}
    (is : e.syntaxOf h = some n) :
    h.isVectorized = (goal.any (·.autoVectorize) && n.className == "ForStmt") := by
  obtain ⟨i, d, here, listed, same, isHeader⟩ := drawn.header_draft member control
  have syn := drawn.syntaxOf_eq same (List.mem_of_getElem? listed)
  have marks : (e.graph.node? (i : OpId)).map (·.isVectorized) = _ :=
    graph ▸ Lowering.isVectorized_lowered i
  rw [here, listed, Option.map_some, Option.map_some, Option.some.injEq] at marks
  rw [marks]
  cases isHeader with
  | own counted n' _ made =>
      obtain rfl : n = n' := by
        have origin : d.origin = some n' := made ▸ rfl
        exact Option.some.inj (is.symm.trans (syn.trans origin))
      rw [made]
      rfl
  | other counted made =>
      have origin : d.origin = none := made ▸ rfl
      exact nomatch is.symm.trans (syn.trans origin)

/-- A header is widened exactly if its loop counts up and both the graph and the code are made for a
target that asks for it, whatever stands in the loop. -/
theorem widens_iff {goal : Option Architecture}
    (graph : e.graph = Lowering.lowered e.unit cpg e.kernel goal) : e.Widens h ↔
      goal.any (·.autoVectorize) = true ∧ e.target.autoVectorize = true ∧ e.CountsUp h := by
  obtain ⟨silent, -⟩ := drawn.header_silent member control
  have vectorized {n : Node} (is : e.syntaxOf h = some n) :=
    drawn.isVectorized_header member control graph is
  constructor
  · rintro ⟨text, header, increments, line⟩
    obtain ⟨m, init, cond, post, body, is, rfl⟩ := exists_forStmt header
    by_cases counted : (Node.forStmt m init cond post body).className = "ForStmt"
    · rw [line_counted control silent is counted, vectorized is] at line
      split at line
      · rename_i both
        simp only [Bool.and_eq_true] at both
        exact ⟨both.1.1, both.2, by rw [is, Option.map_some, counted], _, header, increments⟩
      · have first := head_headerText (e := e) init cond post
        rw [line, head_widened] at first
        exact absurd first (by decide)
    · obtain ⟨rfl, rfl, test, rfl⟩ := className_of_counted counted
      have first := head_widened (e := e) (e.headerText none (some test) none)
      rw [← line, line_while control silent is,
        head_append (head_append (by decide : "while (".toList.head? = some 'w') _) _] at first
      exact absurd first (by decide)
  · rintro ⟨goals, targets, counts, text, header, increments⟩
    obtain ⟨m, init, cond, post, body, is, rfl⟩ := exists_forStmt header
    rw [is, Option.map_some, Option.some.injEq] at counts
    refine ⟨_, header, increments, ?_⟩
    rw [line_counted control silent is counts, vectorized is, goals, targets, counts]
    rfl

end Emitter.Drawn

/-- The node at `j` ends the block that the one at `i` opens. -/
def OperationGraph.Encloses (g : OperationGraph) (i j : Nat) : Prop :=
  i < j ∧ (g.nodes[j]?).map (·.kind) = some .blockEnd ∧
    (∀ l < j - i, 0 ≤ OpKind.net (((g.nodes.map (·.kind)).drop (i + 1)).take l)) ∧
    OpKind.net (((g.nodes.map (·.kind)).drop (i + 1)).take (j - i - 1)) = 0

instance (g : OperationGraph) (i j : Nat) : Decidable (g.Encloses i j) :=
  inferInstanceAs (Decidable (_ ∧ _))

/-- Headers are widened for what they are, and every statement is resolved for what it is, in a loop
or not. -/
structure Emitter.ResolvesApart (e : Emitter) (goal : Option Architecture) : Prop where
  body : e.generate.value.body = (e.graph.nodes.foldl e.lay {}).text
  widens : ∀ h ∈ e.graph.nodes, h.kind = .control → (e.Widens h ↔
    goal.any (·.autoVectorize) = true ∧ e.target.autoVectorize = true ∧ e.CountsUp h)
  frame : ∀ m ∈ e.graph.nodes, m.isStatement = true → m.kind = .control ∨ m.kind = .blockEnd →
    e.generate.value.resolutions.lookup m.id = none
  statement : ∀ m ∈ e.graph.nodes, m.isStatement = true → m.kind ≠ .control → m.kind ≠ .blockEnd →
    ∃ s, e.WrittenFor m s ∧
      e.generate.value.resolutions.lookup m.id = some (e.statementVerdict s)

namespace LoopBody

open Bracketing DeclaredType

/-- A rule for the addition of vectors. -/
def addition : Rule where
  id := "add"
  category := Database.vectorCategory
  pattern := { operations := ["_mm_add_ps"] }
  templates := [("NEON", { code := "vaddq_f32(\x7b\x7binput_0\x7d\x7d, \x7b\x7binput_1\x7d\x7d)" })]

/-- A loop with the call of an intrinsic and a plain statement. -/
def mixed : String := "func f(a __m128, b *float) \x7b\n\tfor i := 0; i < 8; i++ \x7b\n" ++
  "\t\ta = _mm_add_ps(a, a)\n\t\tb[i] = 1.5\n\t\x7d\n\x7d\n"

/-- A loop with a plain statement. -/
def plain : String := "func f(a *float) \x7b\n\tfor i := 0; i < 8; i++ \x7b\n" ++
  "\t\ta[i] = 1.5\n\t\x7d\n\x7d\n"

/-- The emission of the loop with the intrinsic under the rule. -/
def adding : Emitter := emitterFor .neon { rules := [addition] } mixed

end LoopBody

end Retarget
