/-
# Proofs.StatementTally -- every statement is accounted for once

What is said of a node is written down while other nodes are rendered: operands speak for themselves
when they are asked for, a store repeats what was said of its value, and the first word on a node
stands.  Still each statement is accounted for once.  Only nodes that are no statements are asked for
(`Lowered.asks_within`), so the first word on a statement falls while its own line is made; it is that
of the rule found for its operation, or for that of its value, or that none has been applied
(`Emit.Tells`).  What is written down is never changed, so that the tally, which is kept line by line,
can be read off the table in the end (`tally_nodes`).

All this needs that no variable called `init` flows.  The edge along the flow of such a variable is
taken for that of an initialiser, and a statement repeats what was said of another one
(`statements_tallied_twice`).
-/
import Retarget.Proofs.LoopBody
import Retarget.Proofs.OperandNesting

namespace Retarget

open Retarget.Source (Node NodeId)
open Retarget.Text (endsWith)

set_option autoImplicit false
set_option linter.dupNamespace false

/-! ## Emissions that add what is allowed -/

def Resolution.isByRule : Resolution → Bool
  | byRule _ => true
  | byFallback => false

namespace EmitState

/-- Every record is allowed. -/
def Obeys (allowed : OpId → Resolution → Prop) (s : EmitState) : Prop :=
  ∀ id r, s.resolutions.lookup id = some r → allowed id r

/-- Something is said of the node. -/
def Speaks (id : OpId) (s : EmitState) : Prop := (s.resolutions.lookup id).isSome = true

theorem Speaks.kept {id : OpId} {s t : EmitState} (speaks : s.Speaks id) (kept : s.Kept t) :
    t.Speaks id := by
  obtain ⟨r, found⟩ := Option.isSome_iff_exists.mp speaks
  exact Option.isSome_of_eq_some (kept id r found)

end EmitState

/-- The emission changes no record, adds allowed ones, and leaves one of each node that is told. -/
structure Emit.Tells {α : Type} (allowed : OpId → Resolution → Prop) (told : OpId → Prop)
    (m : Emit α) : Prop where
  kept : ∀ s : EmitState, s.Kept (m.run s).2
  obeys : ∀ s : EmitState, s.Obeys allowed → (m.run s).2.Obeys allowed
  speaks : ∀ (s : EmitState) id, told id → (m.run s).2.Speaks id

namespace Emit.Tells

variable {α β : Type} {allowed : OpId → Resolution → Prop} {told told' : OpId → Prop} {m : Emit α}

theorem weaken (tells : Tells allowed told m) (fewer : ∀ id, told' id → told id) :
    Tells allowed told' m :=
  ⟨tells.kept, tells.obeys, fun s id here => tells.speaks s id (fewer id here)⟩

/-- A step that records nothing. -/
theorem quiet (same : ∀ s, (m.run s).2.resolutions = s.resolutions) :
    Tells allowed (fun _ => False) m := by
  refine ⟨?_, ?_, fun _ _ => False.elim⟩
  · intro s id r found
    rw [same, found]
  · intro s obeys id r found
    rw [same] at found
    exact obeys id r found

theorem ret (a : α) : Tells allowed (fun _ => False) (pure a : Emit α) := quiet fun _ => rfl

theorem bind {f : α → Emit β} (first : Tells allowed told m) (next : ∀ a, Tells allowed told' (f a)) :
    Tells allowed (fun id => told id ∨ told' id) (m >>= f) := by
  refine ⟨?_, ?_, ?_⟩
  · intro s
    exact (first.kept s).trans ((next _).kept _)
  · intro s obeys
    exact (next _).obeys _ (first.obeys s obeys)
  · rintro s id (here | there)
    · exact (first.speaks s id here).kept ((next _).kept _)
    · exact (next _).speaks _ id there

/-- What comes after may say anything. -/
theorem followed {f : α → Emit β} (first : Tells allowed told m)
    (next : ∀ a, Tells allowed (fun _ => False) (f a)) : Tells allowed told (m >>= f) :=
  (first.bind next).weaken fun _ => Or.inl

/-- What comes before may say anything. -/
theorem after {f : α → Emit β} (first : Tells allowed (fun _ => False) m)
    (next : ∀ a, Tells allowed told (f a)) : Tells allowed told (m >>= f) :=
  (first.bind next).weaken fun _ => Or.inr

theorem foldlM {f : β → α → Emit β} {told : α → OpId → Prop} (l : List α)
    (each : ∀ b, ∀ a ∈ l, Tells allowed (told a) (f b a)) (b : β) :
    Tells allowed (fun id => ∃ a ∈ l, told a id) (l.foldlM f b) := by
  induction l generalizing b with
  | nil => exact (ret b).weaken (by simp)
  | cons a l ih =>
      rw [List.foldlM_cons]
      have rest := ih fun b a member => each b a (List.mem_cons_of_mem _ member)
      refine ((each b a List.mem_cons_self).bind rest).weaken ?_
      rintro id ⟨a', member, here⟩
      rcases List.mem_cons.mp member with rfl | later
      · exact Or.inl here
      · exact Or.inr ⟨a', later, here⟩

end Emit.Tells

namespace Emitter

open Lowering (initLabel assignOperation)
open Emit (Tells)

/-! ## What may be said of a node -/

section Allowed

variable (e : Emitter)

/-- The operation that a rule is looked for: for a store that of the node that feeds it, if there is
one, and for others their own. -/
def decides (n : OpNode) : Option String :=
  if n.stores then (e.graph.input? n.id initLabel).map (·.operation) else some n.operation

/-- A node is written by the rule found for the operation that decides, or printed. -/
def Allows (n : OpNode) (r : Resolution) : Prop :=
  r = .byFallback ∨ ∃ op ∈ e.decides n, ∃ rule, e.rule? op = some rule ∧ r = .byRule rule.id

/-- A node that has a line of its own, which is not a header. -/
def isPlain (n : OpNode) : Bool := n.isStatement && n.kind != .control && n.kind != .blockEnd

/-- What may be said under a number; nothing is said of headers and of ends of blocks. -/
def allowedAt (id : OpId) (r : Resolution) : Prop :=
  ∀ n, e.graph.node? id = some n → n.kind ≠ .control ∧ n.kind ≠ .blockEnd ∧ e.Allows n r

end Allowed

variable {e : Emitter} {n m : OpNode}

theorem isPlain_iff : isPlain n = true ↔
    n.isStatement = true ∧ n.kind ≠ .control ∧ n.kind ≠ .blockEnd := by
  simp [isPlain, and_assoc]

theorem decides_of_stores (silent : n.stores = false) : e.decides n = some n.operation := by
  rw [decides, if_neg (by simp [silent])]

/-! ## Where records are made -/

theorem resolve_kept (id : OpId) (r : Resolution) (s : EmitState) :
    s.Kept ((resolve id r).run s).2 := by
  intro x r' found
  rw [lookup_resolve, found, Option.some_or]

theorem resolve_speaks (id : OpId) (r : Resolution) (s : EmitState) :
    ((resolve id r).run s).2.Speaks id := by
  unfold EmitState.Speaks
  rw [lookup_resolve, if_pos rfl]
  cases s.resolutions.lookup id <;> rfl

/-- A node whose own value has been recorded is resolved alike. -/
theorem inherit_run (id : OpId) {source : OpId} {s : EmitState} (speaks : s.Speaks source) :
    ∃ r, s.resolutions.lookup source = some r ∧ (inherit id source).run s = (resolve id r).run s := by
  obtain ⟨r, known⟩ := Option.isSome_iff_exists.mp speaks
  refine ⟨r, known, ?_⟩
  unfold inherit
  simp [known]

section Records

variable (placed : e.graph.node? n.id = some n) (level : n.kind ≠ .control) (inner : n.kind ≠ .blockEnd)

include placed level inner

theorem resolve_obeys {r : Resolution} (allows : e.Allows n r) {s : EmitState}
    (obeys : s.Obeys e.allowedAt) : ((resolve n.id r).run s).2.Obeys e.allowedAt := by
  intro id r' found
  rw [lookup_resolve, Option.or_eq_some_iff] at found
  rcases found with old | ⟨-, new⟩
  · exact obeys id r' old
  · split at new
    · rename_i same
      cases new
      intro m here
      obtain rfl : n = m := Option.some.inj (placed.symm.trans (same ▸ here))
      exact ⟨level, inner, allows⟩
    · cases new

theorem tells_resolve {r : Resolution} (allows : e.Allows n r) :
    Tells e.allowedAt (· = n.id) (resolve n.id r) where
  kept := resolve_kept n.id r
  obeys _ := resolve_obeys placed level inner allows
  speaks s _ here := here ▸ resolve_speaks n.id r s

theorem tells_fallback : Tells e.allowedAt (· = n.id) (e.fallback n) :=
  (tells_resolve placed level inner (Or.inl rfl)).followed fun _ => .ret _

/-- A node that stores nothing speaks for itself, if what it asks for says what is allowed. -/
theorem tells_applyWith (silent : n.stores = false) {render : OpNode → Emit String}
    (each : ∀ m, e.Asks n m → Tells e.allowedAt (fun _ => False) (render m)) :
    Tells e.allowedAt (· = n.id) (e.applyWith render n) := by
  have fallback := tells_fallback placed level inner
  unfold applyWith
  split
  · exact fallback
  · rename_i rule matched
    split
    · exact Tells.after (.quiet fun _ => rfl) fun _ => fallback
    · rename_i template there
      have bound (b : Bindings) : Tells e.allowedAt (fun _ => False)
          ((e.graph.edgesTo n.id).foldlM (e.bindOperand render n) b) := by
        have one (b : Bindings) (edge : OpEdge) (leads : edge ∈ e.graph.edgesTo n.id) :
            Tells e.allowedAt (fun _ => False) (e.bindOperand render n b edge) := by
          unfold bindOperand
          split
          · rename_i i source index found
            split
            · exact Tells.after (.ret _) fun _ => .ret _
            · rename_i other
              have asks : e.Asks n source :=
                ⟨edge, leads, Option.isSome_of_eq_some index, found, eq_false_of_ne_true other⟩
              exact (each source asks).after fun _ => .ret _
          · exact .ret _
        exact (Tells.foldlM (e.graph.edgesTo n.id) one b).weaken fun _ => False.elim
      refine Tells.after (bound _) fun b => ?_
      dsimp only
      split
      · exact Tells.after (.quiet fun _ => rfl) fun _ => fallback
      · have allows : e.Allows n (.byRule rule.id) :=
          Or.inr ⟨n.operation, decides_of_stores silent, rule, matched, rfl⟩
        refine (tells_resolve placed level inner allows).followed fun _ => ?_
        exact Tells.after (.quiet fun _ => rfl) fun _ => .ret _

/-- A store repeats what has been said of the value that feeds it. -/
theorem tells_inherited {α : Type} {told : Emit String} (telling : Tells e.allowedAt (· = m.id) told)
    (among : e.graph.node? m.id = some m) (value : m.stores = false) (stores : n.stores = true)
    (input : e.graph.input? n.id initLabel = some m) (rest : String → α) :
    Tells e.allowedAt (· = n.id) (do let text ← told; inherit n.id m.id; return rest text) := by
  have decides : e.decides n = e.decides m := by
    rw [decides_of_stores value, Emitter.decides, if_pos stores, input]
    rfl
  have run (s : EmitState) : ∃ r, (told.run s).2.resolutions.lookup m.id = some r ∧
      ((do let text ← told; inherit n.id m.id; return rest text : Emit α).run s).2 =
        ((resolve n.id r).run (told.run s).2).2 := by
    obtain ⟨r, known, same⟩ := inherit_run n.id (telling.speaks s m.id rfl)
    exact ⟨r, known, congrArg Prod.snd same⟩
  refine ⟨?_, ?_, ?_⟩
  · intro s
    obtain ⟨r, -, after⟩ := run s
    rw [after]
    exact (telling.kept s).trans (resolve_kept n.id r _)
  · intro s obeys
    obtain ⟨r, known, after⟩ := run s
    have before := telling.obeys s obeys
    obtain ⟨-, -, allows⟩ := before m.id r known m among
    have allows : e.Allows n r := by
      unfold Allows
      rw [decides]
      exact allows
    rw [after]
    exact resolve_obeys placed level inner allows before
  · rintro s id rfl
    obtain ⟨r, -, after⟩ := run s
    rw [after]
    exact resolve_speaks n.id r _

end Records

/-! ## Lines -/

theorem firstLine_ne_empty {s : String} {c : Char} (first : s.toList.head? = some c)
    (other : c ≠ '\n') : firstLine s ≠ "" := by
  obtain ⟨cs, text⟩ := List.head?_eq_some_iff.mp first
  simp [firstLine, text, other]

/-- The text of a loop over a range begins with its header. -/
theorem head_print_range (u : SourceUnit) (m : Source.Mark) (key value : Option Node) (x body : Node) :
    (u.print (.rangeStmt m key value x body)).toList.head? = some 'f' := by
  obtain ⟨rest, text⟩ : ∃ rest, (u.printer (.rangeStmt m key value x body)).stmt 0
      (.rangeStmt m key value x body) = "for (long " ++ rest := by
    dsimp only [CPrinter.stmt, CPrinter.line]
    exact ⟨_, by simp only [Text.repeated, String.append_assoc]; rfl⟩
  have begins : Text.trimEnd ['\n'] "for (long " = "for (long " := by decide
  show (Text.trimEnd ['\n'] _).toList.head? = some 'f'
  rw [text, Text.trimEnd_append]
  split
  · rw [begins]
    rfl
  · simp

theorem control_quiet (header : e.isHeader n = true) :
    (∀ s, ((e.control n).run s).2 = s) ∧ ((e.control n).run {}).1 ≠ "" := by
  have told {text : String} (filled : text ≠ "") :
      (∀ s, ((pure text : Emit String).run s).2 = s) ∧ ((pure text : Emit String).run {}).1 ≠ "" :=
    ⟨fun _ => rfl, filled⟩
  unfold control
  split
  · exact told (by simp)
  · exact told (by simp)
  · refine told ?_
    unfold loopHeader
    dsimp only
    split <;> simp
  · exact told (firstLine_ne_empty (head_print_range _ _ _ _ _ _) (by decide))
  · rename_i noIf _ noFor noRange
    have isElse : (n.name == Lowering.elseName) = true := by
      unfold isHeader at header
      split at header
      · rename_i syn
        exact (noIf _ _ _ _ _ syn).elim
      · rename_i syn
        exact (noFor _ _ _ _ _ syn).elim
      · rename_i syn
        exact (noRange _ _ _ _ _ syn).elim
      · exact header
    rw [if_pos isElse]
    exact told (by decide)

namespace Drawn

variable {cpg : PropertyGraph} {root : Node} (drawn : e.Drawn cpg root) {calls : List CallRecord}
  (wired : cpg.Wired e.unit calls) (member : n ∈ e.graph.nodes)

include drawn wired member

theorem tells_apply (depth : Nat) (silent : n.stores = false) (level : n.kind ≠ .control)
    (inner : n.kind ≠ .blockEnd) : Tells e.allowedAt (· = n.id) (e.apply depth n) := by
  induction depth generalizing n with
  | zero => exact tells_fallback (drawn.node?_id member) level inner
  | succ depth ih =>
      rw [apply_succ]
      apply tells_applyWith (drawn.node?_id member) level inner silent
      intro m asks
      obtain ⟨⟨silent', level', inner'⟩, -⟩ := drawn.asks_within wired member asks
      exact (ih asks.mem_nodes silent' level' inner').weaken fun _ => False.elim

/-- A store that is fed is resolved like its value. -/
theorem tells_fed {α : Type} {source : OpNode} (level : n.kind ≠ .control) (inner : n.kind ≠ .blockEnd)
    (stores : n.stores = true) (input : e.graph.input? n.id initLabel = some source)
    (rest : String → α) : Tells e.allowedAt (· = n.id)
      (do let text ← e.applyNode source; inherit n.id source.id; return rest text) := by
  have among := mem_of_input? input
  obtain ⟨silent, level', inner'⟩ := drawn.value_of_input member input
  have telling := drawn.tells_apply wired among (e.graph.slots.length + 1) silent level' inner'
  exact tells_inherited (drawn.node?_id member) level inner telling (drawn.node?_id among) silent
    stores input rest

/-- The line of a statement that is no header says something of it, and nothing that is not allowed. -/
theorem tells_statement (level : n.kind ≠ .control) (inner : n.kind ≠ .blockEnd) :
    Tells e.allowedAt (· = n.id) (e.statement n) := by
  have placed := drawn.node?_id member
  unfold statement
  split
  · rename_i declares
    have stores : n.stores = true := by rw [OpNode.stores, declares, Bool.true_or]
    unfold define
    split
    split
    · rename_i source input
      exact drawn.tells_fed wired member level inner stores input _
    · exact (tells_resolve placed level inner (Or.inl rfl)).followed fun _ => .ret _
  · rename_i other
    rw [if_neg (by simpa using level)]
    split
    · rename_i assigns
      have stores : n.stores = true := by rw [OpNode.stores, assigns, Bool.or_true]
      split
      · rename_i source input
        exact drawn.tells_fed wired member level inner stores input _
      · exact tells_fallback placed level inner
    · rename_i plain
      exact drawn.tells_apply wired member _ (by simp [OpNode.stores, other, plain]) level inner

omit wired in
theorem header_isStatement (control : n.kind = .control) : n.isStatement = true := by
  obtain ⟨i, d, -, -, same, isHeader⟩ := drawn.header_draft member control
  have isStatement := congrArg OpNode.isStatement same
  change n.isStatement = d.node.isStatement at isStatement
  rw [isStatement]
  cases isHeader with
  | own _ _ _ is => exact is ▸ rfl
  | other _ is => exact is ▸ rfl

omit wired in
/-- The line of a header is a text and says nothing. -/
theorem header_quiet (control : n.kind = .control) :
    (∀ s, ((e.statement n).run s).2 = s) ∧ e.line n ≠ "" := by
  obtain ⟨silent, header⟩ := drawn.header_isHeader member control
  have is : e.statement n = e.control n := by
    unfold statement
    rw [if_neg (by simp [silent]), if_pos (by simp [control])]
  unfold line
  rw [is]
  exact control_quiet header

/-- A node is written while the table is as allowed: it stays so, and is told what is to be told. -/
theorem tells_writeNode (b : BodyState) :
    Tells e.allowedAt (fun id => isPlain n = true ∧ id = n.id) (e.writeNode b n) := by
  by_cases closes : n.kind = .blockEnd
  · rw [writeNode_blockEnd closes]
    refine (Tells.ret _).weaken ?_
    rintro id ⟨plain, -⟩
    exact (isPlain_iff.mp plain).2.2 closes
  have line : Tells e.allowedAt (fun id => isPlain n = true ∧ id = n.id) (e.statement n) := by
    by_cases control : n.kind = .control
    · refine (Tells.quiet fun s => ?_).weaken ?_
      · rw [(drawn.header_quiet member control).1 s]
      · rintro id ⟨plain, -⟩
        exact (isPlain_iff.mp plain).2.1 control
    · exact (drawn.tells_statement wired member control closes).weaken fun _ => And.right
  unfold writeNode
  rw [if_neg (by simpa using closes)]
  split
  · rename_i silent
    refine (Tells.ret _).weaken ?_
    rintro id ⟨plain, -⟩
    simp [(isPlain_iff.mp plain).1] at silent
  · refine line.followed fun text => ?_
    split
    · exact .ret _
    · exact Tells.followed (.quiet fun _ => rfl) fun _ => .ret _

end Drawn

/-! ## The tally -/

/-- The node has a line that is not a header, and a record of the sort. -/
def counts (e : Emitter) (s : EmitState) (sort : Resolution → Bool) (n : OpNode) : Bool :=
  isPlain n && e.line n != "" && (s.resolutions.lookup n.id).any sort

theorem tally_counts (r : Option Resolution) (b : BodyState) :
    (tally r b).ruleApplied = b.ruleApplied + (if r.any (·.isByRule) then 1 else 0) ∧
      (tally r b).fallbacks = b.fallbacks + (if r.any (!·.isByRule) then 1 else 0) := by
  cases r with
  | none => exact ⟨rfl, rfl⟩
  | some r => cases r <;> exact ⟨rfl, rfl⟩

theorem closeBlock_counts (b : BodyState) :
    (e.closeBlock b).ruleApplied = b.ruleApplied ∧ (e.closeBlock b).fallbacks = b.fallbacks := by
  unfold closeBlock
  split
  · split <;> exact ⟨rfl, rfl⟩
  · exact ⟨rfl, rfl⟩

theorem counts_of_not_plain {s : EmitState} {sort : Resolution → Bool} (other : isPlain n = false) :
    e.counts s sort n = false := by simp [counts, other]

namespace Drawn

variable {cpg : PropertyGraph} {root : Node} (drawn : e.Drawn cpg root) {calls : List CallRecord}
  (wired : cpg.Wired e.unit calls)

include drawn wired

/-- What is counted for a node can be told from every later table. -/
theorem tally_writeNode (member : n ∈ e.graph.nodes) (b : BodyState) {s last : EmitState}
    (obeys : s.Obeys e.allowedAt) (kept : ((e.writeNode b n).run s).2.Kept last) :
    ((e.writeNode b n).run s).1.ruleApplied =
        b.ruleApplied + (if e.counts last (·.isByRule) n then 1 else 0) ∧
      ((e.writeNode b n).run s).1.fallbacks =
        b.fallbacks + (if e.counts last (!·.isByRule) n then 1 else 0) := by
  by_cases closes : n.kind = .blockEnd
  · have other : isPlain n = false := by simp [isPlain, closes]
    rw [writeNode_blockEnd closes, counts_of_not_plain other, counts_of_not_plain other]
    exact closeBlock_counts b
  by_cases written : n.isStatement = true ∧ e.line n ≠ ""
  · have run := writeNode_run closes written.1 written.2 b s
    rw [run] at kept ⊢
    dsimp only at kept ⊢
    by_cases control : n.kind = .control
    · have other : isPlain n = false := by simp [isPlain, control]
      have unspoken : s.resolutions.lookup n.id = none := by
        refine Option.eq_none_iff_forall_ne_some.mpr fun r found => ?_
        exact (obeys n.id r found n (drawn.node?_id member)).1 control
      rw [(drawn.header_quiet member control).1 s, unspoken, counts_of_not_plain other,
        counts_of_not_plain other]
      exact ⟨rfl, rfl⟩
    · have plain : isPlain n = true := isPlain_iff.mpr ⟨written.1, control, closes⟩
      have speaks := (drawn.tells_statement wired member control closes).speaks s n.id rfl
      obtain ⟨r, found⟩ := Option.isSome_iff_exists.mp speaks
      have later := kept n.id r found
      obtain ⟨byRule, byFallback⟩ := tally_counts (some r) b
      rw [found]
      simp only [counts, plain, later, byRule, byFallback, bne_iff_ne.mpr written.2, Bool.true_and]
      exact ⟨trivial, trivial⟩
  · have blank := writeNode_blank closes (fun isStatement => by simpa [isStatement] using written) b s
    have other (sort : Resolution → Bool) : e.counts last sort n = false := by
      simp only [counts, isPlain, Bool.and_eq_false_iff]
      by_cases isStatement : n.isStatement = true
      · have empty : e.line n = "" := by simpa [isStatement] using written
        simp [empty]
      · simp [isStatement]
    rw [blank, other, other]
    exact ⟨rfl, rfl⟩

/-- The counters count the nodes by what the table says of them in the end. -/
theorem tally_nodes (nodes : List OpNode) (among : ∀ n ∈ nodes, n ∈ e.graph.nodes) (b : BodyState)
    {s : EmitState} (obeys : s.Obeys e.allowedAt) :
    let run := (nodes.foldlM e.writeNode b).run s
    run.1.ruleApplied = b.ruleApplied + nodes.countP (e.counts run.2 (·.isByRule)) ∧
      run.1.fallbacks = b.fallbacks + nodes.countP (e.counts run.2 (!·.isByRule)) := by
  induction nodes generalizing b s with
  | nil => exact ⟨rfl, rfl⟩
  | cons n nodes ih =>
      have member := among n List.mem_cons_self
      have rest := fun n inside => among n (List.mem_cons_of_mem _ inside)
      have telling := drawn.tells_writeNode wired member b
      have after := Tells.foldlM nodes
        (fun b m inside => drawn.tells_writeNode wired (rest m inside) b)
        ((e.writeNode b n).run s).1
      obtain ⟨byRule, byFallback⟩ :=
        drawn.tally_writeNode wired member b obeys (after.kept ((e.writeNode b n).run s).2)
      obtain ⟨laterByRule, laterByFallback⟩ := ih rest ((e.writeNode b n).run s).1
        (telling.obeys s obeys)
      intro run
      have is : run = (nodes.foldlM e.writeNode ((e.writeNode b n).run s).1).run
          ((e.writeNode b n).run s).2 := by
        simp only [run, List.foldlM_cons, Emit.run_bind]
      rw [is, List.countP_cons, List.countP_cons, laterByRule, laterByFallback, byRule, byFallback]
      exact ⟨by omega, by omega⟩

end Drawn

/-! ## The texts of a body -/

section Texts

variable (e : Emitter)

/-- The node has a text: it ends a block, or its line is one. -/
def isWritten (n : OpNode) : Bool := n.kind == .blockEnd || (n.isStatement && e.line n != "")

/-- The text of a node that stands as deep as `depth` tells. -/
def piece (depth : Nat) (n : OpNode) : String :=
  if n.kind == .blockEnd then e.writeLines (depth - 1) "\x7d"
  else e.writeLines depth (terminated (e.line n))

/-- How deep the text stands that follows. -/
def depthAfter (depth : Nat) (n : OpNode) : Nat :=
  if n.kind == .blockEnd then depth - 1
  else if endsWith (terminated (e.line n)) "\x7b" then depth + 1
  else depth

/-- The texts of nodes one after another, one for each. -/
def pieces : Nat → List OpNode → List String
  | _, [] => []
  | depth, n :: nodes => e.piece depth n :: pieces (e.depthAfter depth n) nodes

variable {e}

theorem lay_written (signature : e.signature = true) (written : e.isWritten n = true)
    (b : BodyState) :
    (e.lay b n).text = b.text ++ e.piece b.depth n ∧ (e.lay b n).depth = e.depthAfter b.depth n := by
  by_cases closes : n.kind = .blockEnd
  · have closed : (e.closeBlock b).text = b.text ++ e.writeLines (b.depth - 1) "\x7d" ∧
        (e.closeBlock b).depth = b.depth - 1 := by
      unfold closeBlock
      split
      · rename_i last
        have outside : b.depth - 1 = 0 := by omega
        rw [outside]
        exact ⟨rfl, rfl⟩
      · exact ⟨rfl, rfl⟩
    simpa [lay, piece, depthAfter, closes] using closed
  · simp only [isWritten, Bool.or_eq_true, beq_iff_eq, closes, false_or, Bool.and_eq_true,
      bne_iff_ne, ne_eq] at written
    simp [lay, piece, depthAfter, closes, written]

theorem lay_unwritten (unwritten : e.isWritten n = false) (b : BodyState) : e.lay b n = b := by
  simp only [isWritten, Bool.or_eq_false_iff, beq_eq_false_iff_ne, ne_eq, Bool.and_eq_false_iff,
    bne_eq_false_iff_eq] at unwritten
  obtain ⟨other, silent | empty⟩ := unwritten
  · simp [lay, other, silent]
  · simp [lay, other, empty]

/-- The text grows by the texts of the nodes that have one. -/
theorem foldl_lay_text (signature : e.signature = true) (nodes : List OpNode) (b : BodyState) :
    (nodes.foldl e.lay b).text =
      b.text ++ String.join (e.pieces b.depth (nodes.filter e.isWritten)) := by
  induction nodes generalizing b with
  | nil => simp [pieces]
  | cons n nodes ih =>
      rw [List.foldl_cons, ih]
      by_cases written : e.isWritten n = true
      · obtain ⟨text, depth⟩ := lay_written signature written b
        rw [List.filter_cons_of_pos written, pieces, String.join_cons, text, depth,
          String.append_assoc]
      · rw [List.filter_cons_of_neg written, lay_unwritten (eq_false_of_ne_true written)]

theorem body_eq_pieces (signature : e.signature = true) : e.generate.value.body =
    String.join (e.pieces 1 (e.graph.nodes.filter e.isWritten)) := by
  rw [body_eq_lines, foldl_lay_text signature]
  exact String.empty_append

end Texts

/-- Statements that are no headers are resolved, each for what it is, and counted by how they are;
every text stands in the body once, at its place. -/
structure Accounts (e : Emitter) : Prop where
  statement : ∀ n ∈ e.graph.nodes, isPlain n = true →
    ∃ r, e.generate.value.resolutions.lookup n.id = some r ∧ e.Allows n r
  frame : ∀ n ∈ e.graph.nodes, n.kind = .control ∨ n.kind = .blockEnd →
    e.generate.value.resolutions.lookup n.id = none
  byRule : e.generate.value.ruleApplied = e.graph.nodes.countP fun n => isPlain n && e.line n != "" &&
    (e.generate.value.resolutions.lookup n.id).any (·.isByRule)
  byFallback : e.generate.value.fallbacks = e.graph.nodes.countP fun n => isPlain n &&
    e.line n != "" && (e.generate.value.resolutions.lookup n.id).any (!·.isByRule)
  written : ∀ n ∈ e.graph.nodes, e.isWritten n = true ↔
    n.kind = .control ∨ n.kind = .blockEnd ∨ isPlain n = true ∧ e.line n ≠ ""
  body : e.signature = true → e.generate.value.body =
    String.join (e.pieces 1 (e.graph.nodes.filter e.isWritten))

/-- The writing of a whole body is as that of each node. -/
theorem Drawn.tells_writeBody {cpg : PropertyGraph} {root : Node} (drawn : e.Drawn cpg root)
    {calls : List CallRecord} (wired : cpg.Wired e.unit calls) :
    Tells e.allowedAt (fun id => ∃ n ∈ e.graph.nodes, isPlain n = true ∧ id = n.id) e.writeBody :=
  Tells.foldlM e.graph.nodes (fun b _ member => drawn.tells_writeNode wired member b) {}

theorem Drawn.accounts {cpg : PropertyGraph} {root : Node} (drawn : e.Drawn cpg root)
    {calls : List CallRecord} (wired : cpg.Wired e.unit calls) : e.Accounts := by
  have telling := drawn.tells_writeBody wired
  have started : EmitState.Obeys e.allowedAt {} := fun _ _ found => nomatch found
  have obeys : (e.writeBody.run {}).2.Obeys e.allowedAt := telling.obeys {} started
  obtain ⟨byRule, byFallback⟩ := drawn.tally_nodes wired e.graph.nodes (fun _ member => member) {} started
  refine ⟨?_, ?_, ?_, ?_, ?_, body_eq_pieces⟩
  · intro n member plain
    obtain ⟨r, found⟩ := Option.isSome_iff_exists.mp (telling.speaks {} n.id ⟨n, member, plain, rfl⟩)
    exact ⟨r, found, (obeys n.id r found n (drawn.node?_id member)).2.2⟩
  · intro n member frame
    refine Option.eq_none_iff_forall_ne_some.mpr fun r found => ?_
    obtain ⟨level, inner, -⟩ := obeys n.id r found n (drawn.node?_id member)
    exact frame.elim level inner
  · exact byRule.trans (Nat.zero_add _)
  · exact byFallback.trans (Nat.zero_add _)
  · intro n member
    by_cases control : n.kind = .control
    · simp [isWritten, control, drawn.header_isStatement member control,
        (drawn.header_quiet member control).2]
    · by_cases closes : n.kind = .blockEnd
      · simp [isWritten, closes]
      · simp [isWritten, isPlain, control, closes]

end Emitter

/-- Every statement is accounted for once, under all rules and for all targets, if no variable that
flows into a node is called like the mark of initialisers. -/
theorem statements_tallied (e : Emitter) (numbered : e.unit.Numbered) (phrased : e.unit.Phrased)
    (listed : e.kernel ∈ e.unit.kernels) (cap : Int) (ops : List (GraphOp e.unit))
    (source goal : Option Architecture)
    (graph : e.graph = (convert e.unit (PropertyGraph.history e.unit cap ops) e.kernel source
      goal).value.1.graph)
    (apart : Lowering.InitApart e.unit
      ((PropertyGraph.history e.unit cap ops).build e.unit e.kernel).value e.kernel) :
    e.Accounts := by
  have ordered := PropertyGraph.build_ordered cap ops listed
  by_cases bare : e.graph.nodes = []
  · have run : e.writeBody.run {} = ({}, {}) := by
      rw [Emitter.writeBody, bare]
      rfl
    refine ⟨?_, ?_, ?_, ?_, ?_, Emitter.body_eq_pieces⟩
    · simp [bare]
    · simp [bare]
    · simp [bare, Emitter.generate, run]
    · simp [bare, Emitter.generate, run]
    · simp [bare]
  · obtain ⟨n, member⟩ := List.exists_mem_of_ne_nil _ bare
    obtain ⟨-, root, drawn⟩ := e.exists_drawn numbered phrased listed graph apart member
    exact drawn.accounts ordered.wired

/-! ## A variable that is stored again -/

namespace StatementTally

open OperandNesting

variable (v : String)

/-- The kernel `v := add(a, b); for { x := v }`. -/
def storing : KernelFn where
  id := 0
  name := "f"
  params := []
  result := "void"
  start := 0
  stop := 0
  body := some (.block ⟨1, 0, 0⟩
    [.assign ⟨2, 0, 0⟩ .define [.name ⟨3, 0, 0⟩ v]
        [.call ⟨4, 0, 0⟩ (.name ⟨5, 0, 0⟩ "_mm_add_ps")
          [.name ⟨6, 0, 0⟩ "a", .name ⟨7, 0, 0⟩ "b"] false],
      .forStmt ⟨8, 0, 0⟩ none none none (.block ⟨9, 0, 0⟩
        [.assign ⟨10, 0, 0⟩ .define [.name ⟨11, 0, 0⟩ "x"] [.name ⟨12, 0, 0⟩ v]])])
  fallOff := .ret ⟨13, 0, 0⟩ []
  vars := []

def storingUnit : SourceUnit where
  file := ""
  lines := default
  scope := {}
  kernels := [storing v]
  numbered := rfl

/-- The emission of the kernel, with a rule for its intrinsic. -/
def stored : Emitter where
  unit := storingUnit v
  kernel := storing v
  graph := (convert (storingUnit v) (PropertyGraph.history (storingUnit v) 0 []) (storing v) none
    (some .neon)).value.1.graph
  rules := { rules := [replacing "_mm_add_ps" "vaddq_f32"] }
  target := .neon

end StatementTally

open StatementTally in
/-- One statement is written by a rule, one is printed, and the header and two braces stand around. -/
theorem statements_tallied_stored : (stored "y").unit.Numbered ∧ (stored "y").unit.Phrased ∧
    Lowering.InitApart (stored "y").unit
      ((PropertyGraph.history (stored "y").unit 0 []).build (stored "y").unit
        (stored "y").kernel).value (stored "y").kernel ∧
    (stored "y").Accounts ∧ (stored "y").generate.value.ruleApplied = 1 ∧
    (stored "y").generate.value.fallbacks = 1 ∧ (stored "y").generate.value.body =
      "    float32x4_t y = vaddq_f32(a, b);\n    // Vector Loop (NEON)\n    for (; ; ) \x7b\n" ++
        "        auto x = y;\n    \x7d\n\x7d\n" := by
  obtain ⟨numbered, phrased, apart, tally⟩ :
      (stored "y").unit.Numbered ∧ (stored "y").unit.Phrased ∧
      Lowering.InitApart (stored "y").unit
        ((PropertyGraph.history (stored "y").unit 0 []).build (stored "y").unit
          (stored "y").kernel).value (stored "y").kernel ∧
      (stored "y").generate.value.ruleApplied = 1 ∧ (stored "y").generate.value.fallbacks = 1 ∧
      (stored "y").generate.value.body =
        "    float32x4_t y = vaddq_f32(a, b);\n    // Vector Loop (NEON)\n    for (; ; ) \x7b\n" ++
          "        auto x = y;\n    \x7d\n\x7d\n" := by
    decide +kernel
  have accounts := statements_tallied (stored "y") numbered phrased (List.mem_singleton_self _) 0 []
    none (some .neon) rfl apart
  exact ⟨numbered, phrased, apart, accounts, tally⟩

open StatementTally in
/-- A variable called like the mark of initialisers: the declaration in the loop is a print, and is
counted as written by the rule of the other one's value. -/
theorem statements_tallied_twice : (stored "init").unit.Numbered ∧ (stored "init").unit.Phrased ∧
    ¬(stored "init").Accounts ∧ (stored "init").generate.value.ruleApplied = 2 ∧
    (stored "init").generate.value.body =
      "    float32x4_t init = vaddq_f32(a, b);\n    // Vector Loop (NEON)\n    for (; ; ) \x7b\n" ++
        "        auto x = auto init = _mm_add_ps(a, b);\n    \x7d\n\x7d\n" := by
  obtain ⟨numbered, phrased, ⟨x, atX, plain, operation, unruled, record⟩, tally⟩ :
      (stored "init").unit.Numbered ∧ (stored "init").unit.Phrased ∧
      (∃ x ∈ (stored "init").graph.nodes[3]?, Emitter.isPlain x = true ∧
        (stored "init").decides x = some "define" ∧ (stored "init").rule? "define" = none ∧
        (stored "init").generate.value.resolutions.lookup x.id = some (.byRule "vaddq_f32")) ∧
      (stored "init").generate.value.ruleApplied = 2 ∧ (stored "init").generate.value.body =
        "    float32x4_t init = vaddq_f32(a, b);\n    // Vector Loop (NEON)\n    for (; ; ) \x7b\n" ++
          "        auto x = auto init = _mm_add_ps(a, b);\n    \x7d\n\x7d\n" := by
    decide +kernel
  refine ⟨numbered, phrased, fun accounts => ?_, tally⟩
  obtain ⟨r, found, allows⟩ := accounts.statement x (List.mem_of_getElem? atX) plain
  obtain rfl := Option.some.inj (record.symm.trans found)
  rcases allows with printed | ⟨op, decided, rule, matched, -⟩
  · cases printed
  · obtain rfl := Option.some.inj (operation.symm.trans decided)
    exact nomatch unruled.symm.trans matched

end Retarget
