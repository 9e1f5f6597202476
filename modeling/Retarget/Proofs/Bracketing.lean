/-
# Proofs.Bracketing -- blocks that open and close

A header is emitted with every control statement, a closing node with every block, so the two
match unless a block stands where no header opens it: as a statement of its own or below a label.
`loose` counts those; the nodes of a parsed kernel are bracketed exactly if there are none
(`nodes_bracketed`), and then the code closes the function with its last node and not before.  A
kernel with a block of its own is closed too early (`nodes_bracketed_loose`).
-/
import Retarget.Proofs.BodyDepth
import Retarget.Proofs.LoweredGraph
import Retarget.Proofs.SpelledText
import Retarget.Proofs.StatementShape

namespace Retarget

open Retarget.Source (Node)

set_option autoImplicit false
set_option linter.dupNamespace false

/-! ## Blocks without a header -/

namespace Source.Node

/-- One for a block, which closes what it may not have opened. -/
def braces (n : Node) : Nat := if n.isBlock then 1 else 0

mutual

/-- The blocks below a statement that no header opens. -/
def loose : Node → Nat
  | .block _ stmts => looseAll stmts
  | .labeled _ _ stmt => stmt.braces + loose stmt
  | .ifStmt _ _ _ body orElse => loose body + looseOpt orElse
  | .forStmt _ _ _ _ body => loose body
  | .rangeStmt _ _ _ _ body => loose body
  | _ => 0

def looseOpt : Option Node → Nat
  | none => 0
  | some n => loose n

def looseAll : List Node → Nat
  | [] => 0
  | n :: ns => n.braces + loose n + looseAll ns

end

theorem loose_plain {n : Node} (plain : n.isCompound = false) : n.loose = 0 := by
  cases n <;> first | contradiction | rfl

end Source.Node

namespace Lowering

open OpKind (net)

variable {u : SourceUnit} {k : KernelFn}

/-! ## What the nodes of a statement do to the depth -/

def kinds (drafts : List Draft) : List OpKind := drafts.map (·.node.kind)

@[simp] theorem kinds_nil : kinds [] = [] := rfl

@[simp] theorem kinds_cons (d : Draft) (drafts : List Draft) :
    kinds (d :: drafts) = d.node.kind :: kinds drafts := rfl

@[simp] theorem kinds_append (front back : List Draft) :
    kinds (front ++ back) = kinds front ++ kinds back := List.map_append

/-- The nodes close `a` blocks more than they open; if it is none, they stay where they began.
Every header among them is a statement. -/
structure Settles (a : Nat) (drafts : List Draft) : Prop where
  total : net (kinds drafts) = -a
  stays : a = 0 → ∀ i, 0 ≤ net ((kinds drafts).take i)
  written : ∀ d ∈ drafts, d.node.kind = .control → d.node.isStatement = true

namespace Settles

variable {a b : Nat} {front back drafts : List Draft}

theorem append (first : Settles a front) (second : Settles b back) :
    Settles (a + b) (front ++ back) where
  total := by
    rw [kinds_append, OpKind.net_append, first.total, second.total]
    omega
  stays := by
    intro none i
    have before := first.stays (by omega) i
    have after := second.stays (by omega) (i - (kinds front).length)
    rw [kinds_append, List.take_append, OpKind.net_append]
    omega
  written := by
    intro d member
    rcases List.mem_append.mp member with here | there
    · exact first.written d here
    · exact second.written d there

/-- Nodes that neither open nor close. -/
theorem flat (each : ∀ d ∈ drafts, d.node.kind.turn = 0) : Settles 0 drafts := by
  induction drafts with
  | nil => exact ⟨rfl, by simp, by simp⟩
  | cons d drafts ih =>
      have level := each d List.mem_cons_self
      have rest := ih fun d member => each d (List.mem_cons_of_mem _ member)
      refine ⟨?_, fun _ i => ?_, fun d' member isControl => ?_⟩
      · simpa [level] using rest.total
      · cases i with
        | zero => simp
        | succ i => simpa [level] using rest.stays rfl i
      · have turns := each d' member
        rw [isControl] at turns
        contradiction

/-- A closing node that nothing opens. -/
theorem close (inner : Settles a drafts) (counted : Bool) :
    Settles (a + 1) (drafts ++ [blockEnd counted]) := by
  refine inner.append ⟨rfl, by simp, ?_⟩
  simp [blockEnd, draft]

/-- A header, what it holds, and the node that closes it. -/
theorem enclose (inner : Settles a drafts) {head : Draft} (isControl : head.node.kind = .control)
    (isStatement : head.node.isStatement = true) (counted : Bool) :
    Settles a (head :: (drafts ++ [blockEnd counted])) where
  total := by
    have total := (inner.close counted).total
    rw [kinds_cons, OpKind.net_cons, total, isControl]
    simp only [OpKind.turn]
    omega
  stays := by
    intro none i
    rw [kinds_cons, isControl]
    cases i with
    | zero => simp
    | succ i =>
        have inside := inner.stays none i
        have last : -1 ≤ net ((kinds [blockEnd counted]).take (i - (kinds drafts).length)) := by
          cases i - (kinds drafts).length <;> simp [blockEnd, draft, OpKind.turn]
        rw [List.take_succ_cons, OpKind.net_cons, kinds_append, List.take_append, OpKind.net_append]
        simp only [OpKind.turn]
        omega
  written := by
    intro d member
    rcases List.mem_cons.mp member with rfl | rest
    · exact fun _ => isStatement
    · exact (inner.close counted).written d rest

end Settles

/-! ## Simple statements -/

theorem turn_operands {counted : Bool} {n : Node} :
    ∀ d ∈ operands u k counted n, d.node.kind.turn = 0 := by
  intro d member
  obtain ⟨x, -, made⟩ := List.mem_filterMap.mp member
  unfold operandDraft? at made
  split at made
  · split at made
    · exact Option.some.inj made ▸ rfl
    · cases made
  · split at made
    · exact Option.some.inj made ▸ rfl
    · cases made
  · cases made

theorem turn_optOperands {counted : Bool} {n : Option Node} :
    ∀ d ∈ optOperands u k counted n, d.node.kind.turn = 0 := by
  intro d member
  obtain ⟨x, -, operand⟩ := List.mem_flatMap.mp member
  exact turn_operands d operand

theorem turn_generic {counted : Bool} {n : Node} :
    ∀ d ∈ generic u k counted n, d.node.kind.turn = 0 :=
  List.forall_mem_cons.mpr ⟨rfl, turn_operands⟩

theorem turn_define {counted : Bool} {n : Node} {var : String} {init : Option Node}
    {covers : List Source.NodeId} :
    ∀ d ∈ define u k counted n var init covers, d.node.kind.turn = 0 := by
  refine List.forall_mem_cons.mpr ⟨?_, turn_optOperands⟩
  cases init.any u.scope.isVectorCall <;> rfl

theorem turn_assign {counted : Bool} {n : Node} :
    ∀ d ∈ assign u k counted n, d.node.kind.turn = 0 := by
  unfold assign
  split
  · exact turn_define
  · split
    · exact List.forall_mem_cons.mpr ⟨rfl, turn_operands⟩
    · exact turn_generic
  · exact turn_generic

theorem turn_exprStmt {counted : Bool} {n x : Node} :
    ∀ d ∈ exprStmt u k counted n x, d.node.kind.turn = 0 := by
  unfold exprStmt
  split
  · refine List.forall_mem_cons.mpr ⟨?_, fun d member => ?_⟩
    · split <;> rfl
    · obtain ⟨arg, -, operand⟩ := List.mem_flatMap.mp member
      exact turn_operands d operand
  · exact turn_generic

theorem turn_declStmt {counted : Bool} {n decl : Node} :
    ∀ d ∈ declStmt u k counted n decl, d.node.kind.turn = 0 := by
  unfold declStmt
  split
  · exact turn_define
  · exact turn_generic

theorem turn_lower_plain {counted : Bool} {n : Node} (plain : n.isCompound = false) :
    ∀ d ∈ lower u k counted n, d.node.kind.turn = 0 := by
  cases n with
  | empty => exact List.forall_mem_nil _
  | block | labeled | ifStmt | forStmt | rangeStmt => cases plain
  | declStmt => exact turn_declStmt
  | assign => exact turn_assign
  | exprStmt => exact turn_exprStmt
  | _ => exact turn_generic

/-! ## All statements -/

/-- The closing node of a block. -/
def tail (counted : Bool) (n : Node) : List Draft := if n.isBlock then [blockEnd counted] else []

/-- The nodes of a statement are its inner ones, among which only loose blocks close more than is
opened, and for a block the one that closes it. -/
def SettlesWithin (u : SourceUnit) (k : KernelFn) (n : Node) : Prop :=
  ∀ counted, ∃ inner, lower u k counted n = inner ++ tail counted n ∧ Settles n.loose inner

namespace SettlesWithin

variable {n : Node}

theorem plain (plain : n.isCompound = false) : SettlesWithin u k n := by
  intro counted
  have noBlock : n.isBlock = false := by cases n <;> first | contradiction | rfl
  refine ⟨lower u k counted n, by simp [tail, noBlock], ?_⟩
  rw [Node.loose_plain plain]
  exact .flat (turn_lower_plain plain)

/-- The whole of a statement. -/
theorem whole (within : SettlesWithin u k n) (counted : Bool) :
    Settles (n.braces + n.loose) (lower u k counted n) := by
  obtain ⟨inner, split, settles⟩ := within counted
  rw [split, Nat.add_comm]
  by_cases isBlock : n.isBlock = true
  · simpa [tail, Node.braces, isBlock] using settles.close counted
  · simpa [tail, Node.braces, isBlock] using settles

/-- A body with its header, and operands between the two. -/
theorem headed (within : SettlesWithin u k n) (isBlock : n.isBlock = true) {head : Draft}
    (isControl : head.node.kind = .control) (isStatement : head.node.isStatement = true)
    {operands : List Draft} (level : ∀ d ∈ operands, d.node.kind.turn = 0) (counted : Bool) :
    Settles n.loose (head :: operands ++ lower u k counted n) := by
  obtain ⟨inner, split, settles⟩ := within counted
  have enclosed := ((Settles.flat level).append settles).enclose isControl isStatement counted
  simpa [split, tail, isBlock] using enclosed

end SettlesWithin

theorem lowerAll_settles {stmts : List Node} (each : ∀ s ∈ stmts, SettlesWithin u k s)
    (counted : Bool) : Settles (Node.looseAll stmts) (lowerAll u k counted stmts) := by
  induction stmts with
  | nil => exact .flat (List.forall_mem_nil _)
  | cons n ns ih =>
      dsimp only [Node.looseAll, lowerAll]
      have first := (each n List.mem_cons_self).whole counted
      exact first.append (ih fun s member => each s (List.mem_cons_of_mem _ member))

/-- What follows an `else` has a header of its own; a chained condition is closed once more. -/
theorem lowerElse_settles {orElse : Option Node}
    (shape : ∀ e ∈ orElse, e.isBlock = true ∨ e.isIf = true)
    (each : ∀ e ∈ orElse, SettlesWithin u k e) (counted : Bool) :
    Settles (Node.looseOpt orElse) (lowerElse u k counted orElse) := by
  cases orElse with
  | none => exact .flat (List.forall_mem_nil _)
  | some e =>
      have within := each e rfl
      rw [Node.looseOpt]
      rcases shape e rfl with isBlock | isIf
      · have enclosed : Settles e.loose (header counted none elseName :: [] ++ lower u k counted e) :=
          within.headed isBlock rfl rfl (by simp) counted
        cases e with
        | block m stmts => simpa [lowerElse] using enclosed
        | _ => contradiction
      · have whole := within.whole counted
        cases e with
        | ifStmt m init cond body orElse =>
            rw [show Node.braces (.ifStmt m init cond body orElse) = 0 from rfl, Nat.zero_add]
              at whole
            have enclosed : Settles _ (header counted none elseName :: _) :=
              whole.enclose rfl rfl counted
            simpa [lowerElse] using enclosed
        | _ => contradiction

theorem lower_settles {n : Node} (structured : n.Structured) : SettlesWithin u k n := by
  induction structured with
  | block each ih =>
      intro counted
      exact ⟨_, rfl, lowerAll_settles ih counted⟩
  | labeled inner ih =>
      intro counted
      refine ⟨_, by dsimp only [lower]; exact (List.append_nil _).symm, ?_⟩
      exact ih.whole counted
  | ifStmt first isBlock inner shape other ih ihOther =>
      intro counted
      refine ⟨_, by dsimp only [lower]; exact (List.append_nil _).symm, ?_⟩
      rename_i m init cond body orElse
      have before : ∀ d ∈ lowerOpt u k counted init, d.node.kind.turn = 0 := by
        cases init with
        | none => exact List.forall_mem_nil _
        | some i => exact turn_lower_plain (first i rfl)
      have branch : Settles body.loose (header counted (some (.ifStmt m init cond body orElse))
          (Node.ifStmt m init cond body orElse).className :: operands u k counted cond ++
            lower u k counted body) :=
        ih.headed isBlock rfl rfl turn_operands counted
      have both := ((Settles.flat before).append branch).append
        (lowerElse_settles shape ihOther counted)
      show Settles (body.loose + Node.looseOpt orElse) _
      simpa using both
  | forStmt isBlock inner ih =>
      intro counted
      refine ⟨_, by dsimp only [lower]; exact (List.append_nil _).symm, ?_⟩
      rename_i m init cond post body
      have level : ∀ d ∈ optOperands u k counted init ++ optOperands u k counted cond,
          d.node.kind.turn = 0 :=
        List.forall_mem_append.mpr ⟨turn_optOperands, turn_optOperands⟩
      show Settles body.loose _
      simpa using ih.headed isBlock rfl rfl level _
  | rangeStmt isBlock inner ih =>
      intro counted
      refine ⟨_, by dsimp only [lower]; exact (List.append_nil _).symm, ?_⟩
      exact ih.headed isBlock rfl rfl turn_operands counted
  | simple plain => exact .plain plain

/-- The nodes of a block are bracketed exactly if every block in it has a header. -/
theorem bracketed_lower {body : Node} (isBlock : body.isBlock = true) (structured : body.Structured) :
    OpKind.Bracketed (kinds (lower u k false body)) ↔ body.loose = 0 := by
  obtain ⟨inner, split, settles⟩ := lower_settles (u := u) (k := k) structured false
  have closed : kinds (lower u k false body) = kinds inner ++ [OpKind.blockEnd] := by
    rw [split, kinds_append, tail, if_pos isBlock]
    rfl
  have total := settles.total
  rw [closed]
  constructor
  · intro bracketed
    have outside := bracketed.outside
    simp only [OpKind.net_append, OpKind.net_cons, OpKind.net_nil, OpKind.turn] at outside
    omega
  · intro none
    refine ⟨fun i before => ?_, by simp, ?_⟩
    · have stays := settles.stays none i
      simp only [List.length_append, List.length_singleton] at before
      rw [List.take_append_of_le_length (by omega)]
      omega
    · simp only [OpKind.net_append, OpKind.net_cons, OpKind.net_nil, OpKind.turn]
      omega

theorem written_lower {body : Node} (structured : body.Structured) :
    ∀ d ∈ lower u k false body, d.node.kind = .control → d.node.isStatement = true :=
  ((lower_settles structured).whole false).written

end Lowering

/-! ## Kernels -/

/-- The nodes of a parsed kernel are bracketed exactly if each of its blocks has a header.  Then,
wherever the lines that open a block are those of headers, the code closes the function once, at
its end. -/
theorem nodes_bracketed {file text : String} {u : SourceUnit} {k : KernelFn} {body : Node}
    (parsed : SourceUnit.parseKernels file text = .ok u) (member : k ∈ u.kernels)
    (hasBody : k.body = some body) (cpg : PropertyGraph) (source target : Option Architecture) :
    (OpKind.Bracketed ((convert u cpg k source target).value.1.graph.nodes.map (·.kind)) ↔
      body.loose = 0) ∧
    (body.loose = 0 → ∀ e : Emitter, e.graph = (convert u cpg k source target).value.1.graph →
      e.LinesFit → e.ClosesLast) := by
  obtain ⟨isBlock, structured⟩ := parseKernels_structured parsed member hasBody
  have nodes := Lowering.map_nodes_lowered u (cpg.build u k).value k target
    (fun n => (n.kind, n.isStatement)) (fun _ => rfl) (fun _ _ => rfl)
  rw [Lowering.convert_graph (by simp [KernelFn.hasBody, hasBody])]
  have drafts : Lowering.draftsOf u k = Lowering.lower u k false body := by
    simp [Lowering.draftsOf, hasBody]
  rw [drafts] at nodes
  have kinds : (Lowering.lowered u (cpg.build u k).value k target).nodes.map (·.kind) =
      Lowering.kinds (Lowering.lower u k false body) := by
    simpa [List.map_map, Function.comp_def, Lowering.kinds] using congrArg (List.map Prod.fst) nodes
  have bracketed := Lowering.bracketed_lower (u := u) (k := k) isBlock structured
  rw [← kinds] at bracketed
  refine ⟨bracketed, fun none e graph fit => Emitter.closesLast_of_bracketed fit ?_ ?_⟩
  · rw [graph]
    intro n member isControl
    have shape : (n.kind, n.isStatement) ∈ (Lowering.lower u k false body).map
        fun d => (d.node.kind, d.node.isStatement) := nodes ▸ List.mem_map_of_mem member
    obtain ⟨d, drafted, same⟩ := List.mem_map.mp shape
    obtain ⟨kind, isStatement⟩ := Prod.mk.inj same
    rw [← isStatement]
    exact Lowering.written_lower structured d drafted (kind.trans isControl)
  · rw [graph]
    exact bracketed.mpr none

/-! ## Two kernels -/

namespace Bracketing

/-- The unit of a text. -/
def unit (text : String) : SourceUnit := (SourceUnit.parseKernels "" text).toOption.getD default

def kernel (text : String) : KernelFn := (unit text).kernels.headD default

/-- The emission of a text without rules. -/
def emitter (text : String) : Emitter where
  unit := unit text
  kernel := kernel text
  graph := (convert (unit text) PropertyGraph.new (kernel text) none none).value.1.graph
  rules := {}
  target := .scalar

section Spelled

variable {text : String} {cs : List Char}

/-- The unit of a text with these characters. -/
def spelledUnit (cs : List Char) : SourceUnit := (SourceUnit.readKernels "" cs).toOption.getD default

def spelledKernel (cs : List Char) : KernelFn := (spelledUnit cs).kernels.headD default

/-- The emission of a text with these characters, without rules. -/
def spelledEmitter (cs : List Char) : Emitter where
  unit := spelledUnit cs
  kernel := spelledKernel cs
  graph := (convert (spelledUnit cs) PropertyGraph.new (spelledKernel cs) none none).value.1.graph
  rules := {}
  target := .scalar

theorem unit_spelled (spelled : text.toList = cs) : unit text = spelledUnit cs := by
  rw [unit, spelledUnit, SourceUnit.parseKernels_spelled "" spelled]

theorem kernel_spelled (spelled : text.toList = cs) : kernel text = spelledKernel cs := by
  rw [kernel, spelledKernel, unit_spelled spelled]

theorem emitter_spelled (spelled : text.toList = cs) : emitter text = spelledEmitter cs := by
  rw [emitter, spelledEmitter, unit_spelled spelled, kernel_spelled spelled]

end Spelled

/-- A chained condition with a loop in a branch. -/
def branching : String :=
  "func f(a int) \x7b\n\tif a > 0 \x7b\n\t\tfor a > 1 \x7b\n\t\t\ta--\n\t\t\x7d\n" ++
    "\t\x7d else if a < 0 \x7b\n\t\ta = 0\n\t\x7d\n\x7d\n"

/-- A block of its own before another statement. -/
def nested : String := "func f() \x7b\n\t\x7b\n\t\tx := 1\n\t\x7d\n\ty := 2\n\x7d\n"

theorem emitter_graph (text : String) : (emitter text).graph =
    (convert (unit text) PropertyGraph.new (kernel text) none none).value.1.graph := by
  rw [emitter]

theorem parsed_of_isOk {text : String} (ok : (SourceUnit.parseKernels "" text).isOk = true) :
    SourceUnit.parseKernels "" text = .ok (unit text) := by
  unfold unit
  cases outcome : SourceUnit.parseKernels "" text with
  | ok u => rfl
  | error err => simp [outcome, Except.isOk, Except.toBool] at ok

theorem kernel_mem {text : String} (some : (unit text).kernels ≠ []) :
    kernel text ∈ (unit text).kernels := by
  unfold kernel
  cases listed : (unit text).kernels with
  | nil => contradiction
  | cons k ks => exact List.mem_cons_self

end Bracketing

open Bracketing in
/-- Chained conditions and loops are bracketed, and the code closes the function at its end. -/
theorem nodes_bracketed_branching :
    SourceUnit.parseKernels "" branching = .ok (unit branching) ∧
      OpKind.Bracketed ((emitter branching).graph.nodes.map (·.kind)) ∧
      (emitter branching).ClosesLast := by
  obtain ⟨ok, listed, isSome, noLoose, fit⟩ :
      (SourceUnit.parseKernels "" branching).isOk = true ∧ (unit branching).kernels ≠ [] ∧
        (kernel branching).body.isSome = true ∧ ((kernel branching).body.getD default).loose = 0 ∧
        (emitter branching).LinesFit := by
    have spelled : branching.toList = _ := Text.toList_join String.toList_ofList String.toList_ofList
    rw [SourceUnit.parseKernels_spelled "" spelled, unit_spelled spelled, kernel_spelled spelled,
      emitter_spelled spelled]
    unfold Emitter.LinesFit
    decide +kernel
  obtain ⟨body, hasBody⟩ := Option.isSome_iff_exists.mp isSome
  rw [hasBody, Option.getD_some] at noLoose
  obtain ⟨bracketed, closes⟩ := nodes_bracketed (parsed_of_isOk ok) (kernel_mem listed) hasBody
    PropertyGraph.new none none
  refine ⟨parsed_of_isOk ok, ?_, closes noLoose (emitter branching) (emitter_graph branching) fit⟩
  rw [emitter_graph]
  exact bracketed.mpr noLoose

open Bracketing in
/-- The block that nothing opens closes the function before its last statement. -/
theorem nodes_bracketed_loose :
    SourceUnit.parseKernels "" nested = .ok (unit nested) ∧ kernel nested ∈ (unit nested).kernels ∧
      ¬OpKind.Bracketed ((emitter nested).graph.nodes.map (·.kind)) ∧
      ((emitter nested).bodyAfter ((emitter nested).graph.nodes.take 2) {} {}).closed = true ∧
      (emitter nested).generate.value.body = "    int x = 1;\n\x7d\nint y = 2;\n\x7d\n" := by
  obtain ⟨ok, listed, unbalanced, closed, body⟩ :
      (SourceUnit.parseKernels "" nested).isOk = true ∧ (unit nested).kernels ≠ [] ∧
        ¬OpKind.Bracketed ((emitter nested).graph.nodes.map (·.kind)) ∧
        ((emitter nested).bodyAfter ((emitter nested).graph.nodes.take 2) {} {}).closed = true ∧
        (emitter nested).generate.value.body = "    int x = 1;\n\x7d\nint y = 2;\n\x7d\n" := by
    have spelled : nested.toList = _ := String.toList_ofList
    rw [SourceUnit.parseKernels_spelled "" spelled, unit_spelled spelled, emitter_spelled spelled]
    decide +kernel
  exact ⟨parsed_of_isOk ok, kernel_mem listed, unbalanced, closed, body⟩

end Retarget
