/-
# Proofs.Conversion -- conversion does not fail

Lowering is written with lookups that say nothing when there is nothing to find.  Three of its steps
mean more than that: a declaration of variables is taken for one that specifies values, an assignment
that stores a value for one that has it, and an edge is drawn between nodes that are there.  In their
strict form these steps break off otherwise (`Fault`), and for parsed kernels the strict form comes to
the same (`strictSpec?_eq`, `draftsOf_sound`, `strictConnect_eq`).

So every conversion succeeds, with a graph that has no defects and joins two nodes at most once under
a label (`convert_succeeds`).
-/
import Retarget.Proofs.Bracketing
import Retarget.Proofs.StatementNode

namespace Retarget

open Retarget.Source (Node NodeId Mark DeclKind)

set_option autoImplicit false
set_option linter.dupNamespace false

/-! ## Names -/

theorem Source.Node.className_ne_empty (n : Node) : n.className ≠ "" := by
  unfold className
  split <;> decide

namespace Lowering

variable {u : SourceUnit} {cpg : PropertyGraph} {k : KernelFn} {counted : Bool} {n root : Node}
  {d : Draft} {g : OperationGraph} {drafts : List Draft} {target : Option Architecture}

/-! ## Steps that might break off -/

/-- What would make a conversion break off. -/
inductive Fault where
  /-- A variable or constant is declared by something else than a specification of values. -/
  | misdeclared (spec : NodeId)
  /-- An assignment that is to store a value has none. -/
  | valueless (stmt : NodeId)
  /-- An edge leads to or from a node that is not there. -/
  | refused (error : OpGraphError)
deriving Repr, DecidableEq

/-- The specification of a declaration of exactly one variable, which has to be one of values. -/
def strictSpec? (decl : Node) : Except Fault (Option (NodeId × String × Option Node)) :=
  match decl with
  | .decl _ .type _ => .ok none
  | .decl _ _ [spec] =>
    if spec.isValueSpec then .ok (singleSpec? decl) else .error (.misdeclared spec.id)
  | _ => .ok none

/-- The value a declaration or an assignment stores, which an assignment has to have. -/
def strictInitializer? (d : Draft) : Except Fault (Option Node) :=
  if d.node.operation != OpNode.defineOperation && d.node.operation != assignOperation then .ok none
  else match d.origin with
    | some (.declStmt _ decl) =>
      (strictSpec? decl).map fun spec => spec.bind fun (_, _, init) => init
    | some (.assign m _ _ values) =>
      match values with
      | [] => .error (.valueless m.id)
      | value :: _ => .ok (some value)
    | _ => .ok none

/-- Draw an edge between nodes that have to be there. -/
def strictLink (g : OperationGraph) (source target : OpId) (label : String) :
    Except Fault OperationGraph :=
  if source == target || g.hasEdge source target label then .ok g
  else (g.addEdge source target .data label).mapError .refused

/-- Draw all edges, the value of each node taken apart first. -/
def strictConnect (u : SourceUnit) (cpg : PropertyGraph) (drafts : List Draft) (g : OperationGraph) :
    Except Fault OperationGraph :=
  let table := nodeTable drafts
  drafts.zipIdx.foldlM (fun g' (d, i) => do
    let _ ← strictInitializer? d
    (wiring u cpg table g i d).foldlM (fun g' (source, label) => strictLink g' source i label) g') g

/-! ## Declarations -/

/-- Lowering a statement comes to another one. -/
inductive Reads : Node → Node → Prop
  | self (n : Node) : Reads n n
  | block {m : Mark} {stmts : List Node} {s a : Node} : s ∈ stmts → Reads s a → Reads (.block m stmts) a
  | labeled {m : Mark} {label s a : Node} : Reads s a → Reads (.labeled m label s) a
  | init {m : Mark} {init : Option Node} {cond body : Node} {orElse : Option Node} {s a : Node} :
      s ∈ init → Reads s a → Reads (.ifStmt m init cond body orElse) a
  | body {m : Mark} {init : Option Node} {cond body : Node} {orElse : Option Node} {a : Node} :
      Reads body a → Reads (.ifStmt m init cond body orElse) a
  | orElse {m : Mark} {init : Option Node} {cond body : Node} {orElse : Option Node} {s a : Node} :
      s ∈ orElse → Reads s a → Reads (.ifStmt m init cond body orElse) a
  | forStmt {m : Mark} {init cond post : Option Node} {body a : Node} :
      Reads body a → Reads (.forStmt m init cond post body) a
  | rangeStmt {m : Mark} {key value : Option Node} {x body a : Node} :
      Reads body a → Reads (.rangeStmt m key value x body) a

theorem strictSpec?_eq {m : Mark} {kind : DeclKind} {specs : List Node}
    (each : kind ≠ .type → ∀ s ∈ specs, s.isValueSpec = true) :
    strictSpec? (.decl m kind specs) = .ok (singleSpec? (.decl m kind specs)) := by
  match specs with
  | [] => cases kind <;> rfl
  | [spec] =>
      by_cases isType : kind = .type
      · subst isType
        rfl
      · have values := each isType spec (List.mem_singleton_self spec)
        cases kind <;> first | exact absurd rfl isType | exact if_pos values
  | _ :: _ :: _ => cases kind <;> simp [strictSpec?, singleSpec?]

/-- Every declaration that lowering comes to is what it is taken for. -/
def WellDeclared (root : Node) : Prop :=
  ∀ m decl, Reads root (.declStmt m decl) → strictSpec? decl = .ok (singleSpec? decl)

theorem wellDeclared_inherited : Node.Inherited WellDeclared where
  simple plain m decl reads := by
    cases reads with
    | self => cases plain.noDecl
    | _ => cases plain.noCompound
  declStmt each m decl reads := by
    cases reads with
    | self => exact strictSpec?_eq each
  block each m decl reads := by
    cases reads with
    | block there inner => exact each _ there m decl inner
  labeled inner m decl reads := by
    cases reads with
    | labeled reads => exact inner m decl reads
  ifStmt first _ inner _ other m decl reads := by
    cases reads with
    | init there reads => exact (first _ there).2 m decl reads
    | body reads => exact inner m decl reads
    | orElse there reads => exact other _ there m decl reads
  forStmt _ _ inner _ m decl reads := by
    cases reads with
    | forStmt reads => exact inner m decl reads
  rangeStmt _ inner m decl reads := by
    cases reads with
    | rangeStmt reads => exact inner m decl reads
  switchStmt _ _ m decl reads := by cases reads

/-! ## Names and values -/

/-- The node has a name, and the value it stores, if it does, is there. -/
structure Draft.Sound (d : Draft) : Prop where
  named : d.node.name ≠ ""
  stored : strictInitializer? d = .ok (initializer? d)

/-- A node that stores nothing has no value to be taken apart. -/
theorem Draft.Sound.idle (named : d.node.name ≠ "")
    (plain : ∀ m decl, d.origin ≠ some (.declStmt m decl))
    (other : ∀ m op targets values, d.origin ≠ some (.assign m op targets values)) : d.Sound := by
  refine ⟨named, ?_⟩
  unfold strictInitializer? initializer?
  split
  · rfl
  · cases origin : d.origin with
    | none => rfl
    | some n =>
        cases n with
        | declStmt m decl => exact absurd origin (plain m decl)
        | assign m op targets values => exact absurd origin (other m op targets values)
        | _ => rfl

theorem operands_sound : ∀ d ∈ operands u k counted n, d.Sound := by
  intro d member
  obtain ⟨a, -, made⟩ := List.mem_filterMap.mp member
  unfold operandDraft? at made
  split at made
  · split at made
    · cases made
      exact .idle (show vectorName ≠ "" by decide) nofun nofun
    · cases made
  · split at made
    · cases made
      exact .idle (show scalarName ≠ "" by decide) nofun nofun
    · cases made
  · cases made

theorem optOperands_sound {o : Option Node} : ∀ d ∈ optOperands u k counted o, d.Sound := by
  intro d member
  obtain ⟨_, -, inner⟩ := List.mem_flatMap.mp member
  exact operands_sound d inner

theorem generic_sound : ∀ d ∈ generic u k counted n, d.Sound :=
  List.forall_mem_cons.mpr ⟨⟨n.className_ne_empty, rfl⟩, operands_sound⟩

theorem define_name (u : SourceUnit) (init : Option Node) :
    (if init.any u.scope.isVectorCall then vectorName else declName) ≠ "" := by
  split <;> decide

theorem declStmt_sound {m : Mark} {decl : Node} :
    ∀ d ∈ declStmt u k counted (.declStmt m decl) decl, d.Sound := by
  unfold declStmt
  split
  · rename_i spec var init single
    refine List.forall_mem_cons.mpr ⟨⟨?_, ?_⟩, optOperands_sound⟩
    · exact define_name u init
    · have strict : strictSpec? decl = .ok (singleSpec? decl) := by
        obtain ⟨dm, kind, sm, isConst, name, t, values, rfl, -⟩ := singleSpec?_eq single
        exact strictSpec?_eq fun _ => by simp [Node.isValueSpec]
      change (strictSpec? decl).map _ = _
      rw [strict]
      rfl
  · exact generic_sound

theorem assign_sound : ∀ d ∈ assign u k counted n, d.Sound := by
  unfold assign
  split
  · exact List.forall_mem_cons.mpr ⟨⟨define_name u _, rfl⟩, optOperands_sound⟩
  · split
    · exact List.forall_mem_cons.mpr ⟨⟨show "AssignStmt" ≠ "" by decide, rfl⟩, operands_sound⟩
    · exact generic_sound
  · exact generic_sound

theorem exprStmt_sound {x : Node} : ∀ d ∈ exprStmt u k counted n x, d.Sound := by
  unfold exprStmt
  split
  · rename_i m callee args spread _
    refine List.forall_mem_cons.mpr ⟨?_, fun d member => ?_⟩
    · split
      · exact .idle (show vectorName ≠ "" by decide) nofun nofun
      · exact .idle (Node.className_ne_empty (.call m callee args spread)) nofun nofun
    · obtain ⟨_, -, inner⟩ := List.mem_flatMap.mp member
      exact operands_sound d inner
  · exact generic_sound

theorem lower_sound (root : Node) (counted : Bool) : ∀ d ∈ lower u k counted root, d.Sound := by
  have holds : Holds u k (fun _ => True) Draft.Sound := {
    child := fun _ _ _ _ => trivial
    blockEnd := fun _ => .idle (show blockEndName ≠ "" by decide) nofun nofun
    elseHeader := fun _ => .idle (show elseName ≠ "" by decide) nofun nofun
    header := fun n _ _ compound => by
      refine .idle n.className_ne_empty ?_ ?_
      all_goals
        intros
        rintro ⟨⟩
        cases compound
    operand := fun _ _ _ => operands_sound
    plain := fun n counted _ plain => by
      refine lower_plain_cases (P := fun drafts => ∀ d ∈ drafts, d.Sound) plain
        (List.forall_mem_nil _) ?_ (fun _ _ _ _ _ => assign_sound) (fun _ _ _ => exprStmt_sound)
        fun _ => generic_sound
      rintro m decl rfl
      exact declStmt_sound }
  exact holds.lower root trivial counted

theorem draftsOf_sound : ∀ d ∈ draftsOf u k, d.Sound := by
  intro d member
  obtain ⟨root, -, inner⟩ := List.mem_flatMap.mp member
  exact lower_sound root false d inner

end Lowering

/-! ## Edges -/

/-- The edges differ in an end or in their label. -/
def OpEdge.Apart (e f : OpEdge) : Prop :=
  ¬(e.source = f.source ∧ e.target = f.target ∧ e.label = f.label)

namespace Lowering

variable {u : SourceUnit} {cpg : PropertyGraph} {k : KernelFn} {g : OperationGraph}
  {drafts : List Draft} {target : Option Architecture} {e : OpEdge} {name : String}

theorem link_apart {source target : OpId} {label : String} (apart : g.edges.Pairwise OpEdge.Apart) :
    (link g source target label).edges.Pairwise OpEdge.Apart := by
  unfold link
  split
  · exact apart
  · rename_i fresh
    unfold OperationGraph.addEdge
    split
    · exact apart
    · split
      · exact apart
      · refine List.pairwise_append.mpr ⟨apart, List.pairwise_singleton _ _, ?_⟩
        intro e old f new
        obtain rfl := List.mem_singleton.mp new
        rintro ⟨sameSource, sameTarget, sameLabel⟩
        simp only [Bool.or_eq_true, not_or, OperationGraph.hasEdge, List.any_eq_true] at fresh
        exact fresh.2 ⟨e, old, by simp [sameSource, sameTarget, sameLabel]⟩

theorem connect_apart (plain : g.edges.Pairwise OpEdge.Apart) :
    (connect u cpg drafts g).edges.Pairwise OpEdge.Apart := by
  apply List.foldlRecOn (motive := fun h : OperationGraph => h.edges.Pairwise OpEdge.Apart)
  · exact plain
  · intro h before x _
    apply List.foldlRecOn (motive := fun h : OperationGraph => h.edges.Pairwise OpEdge.Apart)
    · exact before
    · exact fun h before p _ => link_apart before

theorem strictLink_eq {source target : OpId} {label : String} (start : (g.node? source).isSome)
    (stop : (g.node? target).isSome) :
    strictLink g source target label = .ok (link g source target label) := by
  unfold strictLink link
  split
  · rfl
  · have live : ((g.node? source).isNone || (g.node? target).isNone) = false := by
      simp [Option.isNone_eq_false_iff, start, stop]
    unfold OperationGraph.addEdge
    rw [live]
    simp only [Bool.false_eq_true, if_false]
    split <;> rfl

/-- A loop whose steps do not break off does not. -/
theorem foldlM_eq_ok {α β ε : Type} {f : β → α → Except ε β} {h : β → α → β} (I : β → Prop)
    (l : List α) (step : ∀ a ∈ l, ∀ b, I b → f b a = .ok (h b a) ∧ I (h b a)) (b : β) (start : I b) :
    l.foldlM f b = .ok (l.foldl h b) ∧ I (l.foldl h b) := by
  induction l generalizing b with
  | nil => exact ⟨rfl, start⟩
  | cons a l ih =>
      obtain ⟨same, kept⟩ := step a List.mem_cons_self b start
      have rest := ih (fun a member => step a (List.mem_cons_of_mem _ member)) (h b a) kept
      refine ⟨?_, rest.2⟩
      rw [List.foldlM_cons, same]
      exact rest.1

/-- No edge is refused, and every value that is to be stored is there. -/
theorem strictConnect_eq (sound : ∀ d ∈ drafts, d.Sound) :
    strictConnect u cpg drafts (graphOf name drafts)
      = .ok (connect u cpg drafts (graphOf name drafts)) := by
  -- The nodes stay as they are, so what is there at the start is there at every step.
  refine (foldlM_eq_ok (fun h => h.slots = (graphOf name drafts).slots) _ ?_ _ rfl).1
  rintro ⟨d, i⟩ listed h same
  have found := List.mem_zipIdx_iff_getElem?.mp listed
  have drawn := foldlM_eq_ok (f := fun g' (source, label) => strictLink g' source i label)
    (h := fun g' (source, label) => link g' source i label)
    (fun h => h.slots = (graphOf name drafts).slots)
    (wiring u cpg (nodeTable drafts) (graphOf name drafts) i d) (by
      rintro ⟨source, label⟩ asked h same
      refine ⟨strictLink_eq ?_ ?_, (slots_link h source i label).trans same⟩
      · rw [OperationGraph.node?_congr same]
        exact wiring_starts asked
      · rw [OperationGraph.node?_congr same]
        simp [node?_graphOf, found]) h same
  refine ⟨?_, drawn.2⟩
  dsimp only
  rw [(sound d (List.mem_of_getElem? found)).stored]
  exact drawn.1

/-! ## The whole graph -/

variable (u cpg k target) in
/-- The graph has a node under a number exactly if the unconnected one has. -/
theorem node?_lowered_unmarked (id : OpId) : ((lowered u cpg k target).node? id).map (·.unmarked) =
    ((graphOf k.name (draftsOf u k)).node? id).map (·.unmarked) := by
  have slots : (lowered u cpg k target).slots.map (·.map (·.unmarked)) =
      (graphOf k.name (draftsOf u k)).slots.map (·.map (·.unmarked)) := by
    rw [slots_lowered, slots_graphOf, List.map_map]
    rfl
  have slot := congrArg (·[id.toNat]?) slots
  simp only [List.getElem?_map] at slot
  unfold OperationGraph.node?
  split
  · rfl
  · rw [← Option.join_map_eq_map_join, slot, Option.join_map_eq_map_join]

/-- An edge brings data from one node to another. -/
theorem mem_edges_live (drawn : e ∈ (lowered u cpg k target).edges) :
    e.kind = .data ∧ e.source ≠ e.target ∧ ((lowered u cpg k target).node? e.source).isSome ∧
      ((lowered u cpg k target).node? e.target).isSome := by
  have live (id : OpId) : ((lowered u cpg k target).node? id).isSome =
      ((graphOf k.name (draftsOf u k)).node? id).isSome := by
    have same := congrArg Option.isSome (node?_lowered_unmarked u cpg k target id)
    rwa [Option.isSome_map, Option.isSome_map] at same
  obtain ⟨i, d, placed, apart, asked, targetI, kind⟩ := mem_edges_lowered.mp drawn
  refine ⟨kind, targetI ▸ apart, ?_, ?_⟩
  · rw [live]
    exact wiring_starts asked
  · rw [live, targetI, node?_graphOf, placed]
    rfl

theorem slotDefects_lowered {i : Nat} {slot : Option OpNode}
    (here : (lowered u cpg k target).slots[i]? = some slot) :
    OperationGraph.slotDefects i slot = [] := by
  have drafted := congrArg (·[i]?) (slots_lowered u cpg k target)
  simp only [List.getElem?_map, List.getElem?_zipIdx, here, Option.map_some, Option.map_map] at drafted
  cases placed : (draftsOf u k)[i]? with
  | none => simp [placed] at drafted
  | some d =>
      cases slot with
      | none => rfl
      | some n =>
          have same : n.unmarked = (d.placed i).unmarked := by simpa [placed] using drafted
          have id : n.unmarked.id = (d.placed i).unmarked.id := congrArg OpNode.id same
          have name : n.unmarked.name = (d.placed i).unmarked.name := congrArg OpNode.name same
          change n.id = (i : OpId) at id
          change n.name = d.node.name at name
          have named := (draftsOf_sound d (List.mem_of_getElem? placed)).named
          simp [OperationGraph.slotDefects, id, name, named]

theorem defects_lowered : (lowered u cpg k target).defects = [] := by
  refine List.append_eq_nil_iff.mpr ⟨List.flatMap_eq_nil_iff.mpr ?_, List.flatMap_eq_nil_iff.mpr ?_⟩
  · rintro ⟨slot, i⟩ listed
    exact slotDefects_lowered (List.mem_zipIdx_iff_getElem?.mp listed)
  · intro e drawn
    obtain ⟨-, apart, start, stop⟩ := mem_edges_live drawn
    simp [OperationGraph.edgeDefects, apart, Option.isNone_eq_false_iff.mpr start,
      Option.isNone_eq_false_iff.mpr stop]

theorem lowered_apart : (lowered u cpg k target).edges.Pairwise OpEdge.Apart := by
  have wired : (connect u cpg (draftsOf u k) (graphOf k.name (draftsOf u k))).edges.Pairwise
      OpEdge.Apart := connect_apart (by simp [edges_graphOf])
  rcases lowered_cases u cpg k target with same | ⟨ids, same⟩
  · rwa [same]
  · rwa [same, (mark_spec ids _).1]

end Lowering

/-- What is told of the conversion of a kernel with a body is told of its graph. -/
theorem convert_reports (u : SourceUnit) (cpg : PropertyGraph) {k : KernelFn}
    (source target : Option Architecture) (hasBody : k.hasBody = true) :
    let c := (convert u cpg k source target).value.1
    c.successful = c.graph.defects.isEmpty ∧ (c.graph.defects = [] → c.errors = []) ∧
      c.nodes = c.graph.numNodes ∧ c.edges = c.graph.edges.length := by
  unfold convert
  simp only [hasBody, Bool.not_true]
  exact ⟨rfl, fun none => if_pos (List.isEmpty_iff.mpr none), rfl, rfl⟩

namespace Conversion

/-- A constant and a variable with an initializer, a floating-point operator and a loop. -/
def scaling : String :=
  "func f(a *float, n int) \x7b\n\tconst w = 2\n\tvar s float = a[0] * w\n" ++
    "\tfor i := 0; i < n; i++ \x7b\n\t\ta[i] = a[i] * s\n\t\x7d\n\x7d\n"

end Conversion

end Retarget
