/-
# Proofs.CappedDefinitions -- which definitions are reported when the cap is hit

The passes start with no facts at all, so leaving some of them out can only lose facts.  The
definitions reported before a node are those that a path brings there in as many rounds as the cap
allows (`ReachesWithin`), and a definition is listed as dead if it is brought to no use within them
(`cappedDefinitions_iff`).  If the passes have converged, these are all there are.  If they have not,
a definition that is read may be missing and listed as dead (`cappedDefinitions_lost`); and no cap is
high enough for all graphs, since loops in a row take one round each (`cappedDefinitions_unbounded`).
-/
import Retarget.Proofs.Rounds
import Retarget.Proofs.StatementIndex

namespace Retarget

open Retarget.Source (NodeId)

set_option autoImplicit false
set_option linter.dupNamespace false

namespace FlowGraph

variable {g : FlowGraph} {access : Access} {params : List String} {passes more : Nat} {d s : NodeId}
  {v : String}

/-- The definition of `v` at `d` gets right before `s` without another write, along blocks that can
be left in so many passes. -/
def ReachesWithin (g : FlowGraph) (passes : Nat) (access : Access) (v : String) (d s : NodeId) :
    Prop :=
  ∃ p ns left q, g.At p d ∧ g.Trail p.next ns left q ∧ g.At q s ∧ access.Clear v ns ∧
    rounds left ≤ passes

theorem reaches_iff_within : g.Reaches access v d s ↔ ∃ passes, g.ReachesWithin passes access v d s := by
  constructor
  · rintro ⟨p, ns, q, atD, path, atS, clear⟩
    obtain ⟨left, trail⟩ := path_iff_trail.mp path
    exact ⟨rounds left, p, ns, left, q, atD, trail, atS, clear, le_refl _⟩
  · rintro ⟨_, p, ns, left, q, atD, trail, atS, clear, -⟩
    exact ⟨p, ns, q, atD, path_iff_trail.mpr ⟨left, trail⟩, atS, clear⟩

theorem ReachesWithin.reaches (within : g.ReachesWithin passes access v d s) :
    g.Reaches access v d s := reaches_iff_within.mpr ⟨passes, within⟩

theorem ReachesWithin.mono (within : g.ReachesWithin passes access v d s) (le : passes ≤ more) :
    g.ReachesWithin more access v d s := by
  obtain ⟨p, ns, left, q, atD, trail, atS, clear, few⟩ := within
  exact ⟨p, ns, left, q, atD, trail, atS, clear, few.trans le⟩

/-- The definitions reported before a node, whatever the cap. -/
theorem mem_originsOf_iff_within (distinct : g.statements.Nodup) :
    d ∈ originsOf g ((analyzeFlow g access params passes).factsBefore s) v ↔
      v ∈ access.defs d ∧ g.ReachesWithin passes access v d s := by
  have brought {p : Point} (here : g.At p s) :
      (⟨v, some d⟩ : Fact) ∈ (analyzeFlow g access params passes).factsBefore s ↔
        v ∈ access.defs d ∧ g.ReachesWithin passes access v d s := by
    have inside : p.offset ≤ (g.nodes p.block).length :=
      Nat.le_of_lt (List.getElem?_eq_some_iff.mp here).1
    rw [factsBefore_eq distinct here,
      (reachingDefs_separable access params).mem_factsAt_iff passes inside]
    constructor
    · rintro ⟨left, ⟨ns, clear, ⟨known, -⟩ | ⟨e, q, origin, makes, atE, trail⟩⟩, few⟩
      · exact absurd known fresh_origin
      · obtain rfl : d = e := Option.some.inj origin
        exact ⟨makes, q, ns, left, p, atE, trail, here, clear, few⟩
    · rintro ⟨makes, q, ns, left, r, atD, trail, there, clear, few⟩
      obtain rfl := there.unique distinct here
      exact ⟨left, ⟨ns, clear, Or.inr ⟨d, q, rfl, makes, atD, trail⟩⟩, few⟩
  rw [mem_originsOf]
  constructor
  · rintro ⟨-, found⟩
    obtain ⟨p, here⟩ := at_of_mem_factsBefore found
    exact (brought here).mp found
  · rintro ⟨makes, within⟩
    obtain ⟨stands, there⟩ := within.reaches.mem_statements
    obtain ⟨p, here⟩ := mem_statements.mp there
    exact ⟨stands, (brought here).mpr ⟨makes, within⟩⟩

theorem within_of_converged (distinct : g.statements.Nodup)
    (converged : (analyzeFlow g access params passes).converged = true)
    (defines : v ∈ access.defs d) (reaches : g.Reaches access v d s) :
    g.ReachesWithin passes access v d s :=
  ((mem_originsOf_iff_within distinct).mp
    (mem_originsOf_of_reaches distinct converged defines reaches)).2

end FlowGraph

/-! ## What is reported of a built kernel -/

namespace PropertyGraph

/-- No definition that is read is missing: at every use, by whatever name the node is asked for,
all definitions that reach it are reported. -/
def DefinitionsComplete (g : PropertyGraph) (b : BuiltKernel) : Prop :=
  ∀ t s v d, s ∈ b.stmts → g.canonical t = s → v ∈ b.facts.access.uses s →
    v ∈ b.facts.access.defs d → b.graph.Reaches b.facts.access v d s → d ∈ g.definitions t v

/-- What is listed as dead is not read on any path. -/
def DeadUnread (g : PropertyGraph) (b : BuiltKernel) : Prop :=
  ∀ d v, (d, v) ∈ g.deadDefinitions b.kernel →
    ∀ s, v ∈ b.facts.access.uses s → ¬b.graph.Reaches b.facts.access v d s

end PropertyGraph

/-- Whatever the cap, and whatever has been built and discarded before: the definitions reported at
a node are those that get there within as many rounds, and those listed as dead are those that get
to no use within them.  So nothing is missing where the passes converged. -/
theorem cappedDefinitions_iff {u : SourceUnit} (numbered : u.Numbered) (cap : Int)
    (ops : List (GraphOp u)) :
    let pg := PropertyGraph.history u cap ops
    let passes := (PropertyGraph.new cap).cap
    ∀ b ∈ pg.built,
      (∀ t s v d, s ∈ b.stmts → pg.canonical t = s → (d ∈ pg.definitions t v ↔
        v ∈ b.facts.access.defs d ∧ b.graph.ReachesWithin passes b.facts.access v d s)) ∧
      (∀ d v, (d, v) ∈ pg.deadDefinitions b.kernel ↔
        d ∈ b.stmts ∧ v ∈ b.facts.access.defs d ∧ ∀ s, v ∈ b.facts.access.uses s →
          ¬b.graph.ReachesWithin passes b.facts.access v d s) ∧
      (b.facts.converged = true → pg.DefinitionsComplete b ∧ pg.DeadUnread b) := by
  intro pg passes b built
  have wired := (PropertyGraph.history_ordered u cap ops).wired
  have indexed := PropertyGraph.history_indexed numbered cap ops
  obtain ⟨k, listed, describes⟩ := PropertyGraph.history_describes u cap ops b built
  have distinct := numbered.statements_nodup listed describes.graph
  -- The facts of the kernel are those of its analysis, with the cap of the graph.
  have access : b.facts.access = u.accessTo b.stmts := by
    rw [describes.facts]
    rfl
  have reported (s d : NodeId) (v : String) :
      d ∈ originsOf b.graph (b.facts.factsBefore s) v ↔
        v ∈ b.facts.access.defs d ∧ b.graph.ReachesWithin passes b.facts.access v d s := by
    rw [access, describes.facts]
    exact FlowGraph.mem_originsOf_iff_within distinct
  have definitions : ∀ t s v d, s ∈ b.stmts → pg.canonical t = s → (d ∈ pg.definitions t v ↔
      v ∈ b.facts.access.defs d ∧ b.graph.ReachesWithin passes b.facts.access v d s) := by
    intro t s v d stands known
    rw [wired.definitions_eq numbered indexed built stands known]
    exact reported s d v
  have dead : ∀ d v, (d, v) ∈ pg.deadDefinitions b.kernel ↔
      d ∈ b.stmts ∧ v ∈ b.facts.access.defs d ∧ ∀ s, v ∈ b.facts.access.uses s →
        ¬b.graph.ReachesWithin passes b.facts.access v d s := by
    intro d v
    rw [wired.mem_deadDefinitions_iff numbered indexed built]
    refine and_congr_right fun _ => and_congr_right fun defines => ?_
    constructor
    · intro untold s uses within
      have stands := describes.stmts ▸ within.reaches.mem_statements.2
      exact untold s stands uses ((reported s d v).mpr ⟨defines, within⟩)
    · intro far s _ uses told
      exact far s uses ((reported s d v).mp told).2
  refine ⟨definitions, dead, fun converged => ?_⟩
  have within {s d : NodeId} {v : String} (defines : v ∈ b.facts.access.defs d)
      (reaches : b.graph.Reaches b.facts.access v d s) :
      b.graph.ReachesWithin passes b.facts.access v d s := by
    rw [access] at defines reaches ⊢
    rw [describes.facts] at converged
    exact FlowGraph.within_of_converged distinct converged defines reaches
  constructor
  · intro t s v d stands known _ defines reaches
    exact (definitions t s v d stands known).mpr ⟨defines, within defines reaches⟩
  · intro d v listed s uses reaches
    obtain ⟨-, defines, far⟩ := (dead d v).mp listed
    exact far s uses (within defines reaches)

/-! ## Fixed programs -/

namespace Capped

/-- A definition that is read behind two loops. -/
def looping : String :=
  "func f(n int) int \x7b\n\tx := 1\n\tfor n > 0 \x7b\n\t\tn--\n\t\x7d\n\tfor n > 0 \x7b\n\t\tn--\n\t\x7d\n\treturn x\n\x7d\n"

/-- Its property graph, made with the given cap. -/
def built (cap : Int) : PropertyGraph :=
  PropertyGraph.history (Bracketing.unit looping) cap [.buildUnit]

end Capped

open Capped in
/-- With the default cap the definition is found at its use and is not dead. -/
theorem cappedDefinitions_iff_looping :
    (Bracketing.unit looping).Numbered ∧
    ∃ b ∈ (built 0).built, b.facts.converged = true ∧ (built 0).DefinitionsComplete b ∧
      (built 0).DeadUnread b ∧ b.graph.ReachesWithin 100 b.facts.access "x" 11 29 := by
  obtain ⟨numbered, found⟩ : (Bracketing.unit looping).Numbered ∧
      ((built 0).built.any fun b => b.facts.converged && b.stmts.contains 29 &&
        (built 0).canonical 29 == 29 && ((built 0).definitions 29 "x").contains 11) = true := by
    have spelled : looping.toList = _ := String.toList_ofList
    rw [built, Bracketing.unit_spelled spelled]
    decide +kernel
  obtain ⟨b, listed, checks⟩ := List.any_eq_true.mp found
  obtain ⟨⟨⟨converged, stands⟩, own⟩, reported⟩ :
      ((b.facts.converged = true ∧ 29 ∈ b.stmts) ∧ (built 0).canonical 29 = 29) ∧
        11 ∈ (built 0).definitions 29 "x" := by
    simpa using checks
  obtain ⟨definitions, -, exact_⟩ := cappedDefinitions_iff numbered 0 [.buildUnit] b listed
  obtain ⟨complete, unread⟩ := exact_ converged
  exact ⟨numbered, b, listed, converged, complete, unread,
    ((definitions 29 29 "x" 11 stands own).mp reported).2⟩

open Capped in
/-- With a cap of one pass the definition of `x` is neither found at its use behind the loops nor
thought to be read. -/
theorem cappedDefinitions_lost :
    ∃ b ∈ (built 1).built, ¬(built 1).DefinitionsComplete b ∧ ¬(built 1).DeadUnread b := by
  -- What reaches the use is told by an analysis of the same graph with a higher cap.
  have found : ((built 1).built.any fun b => b.graph.statements.Nodup && b.stmts.contains 29 &&
      (built 1).canonical 29 == 29 && (b.facts.access.uses 29).contains "x" &&
      (b.facts.access.defs 11).contains "x" && !((built 1).definitions 29 "x").contains 11 &&
      ((built 1).deadDefinitions b.kernel).contains (11, "x") &&
      (originsOf b.graph
        ((analyzeFlow b.graph b.facts.access [] 100).factsBefore 29) "x").contains 11) = true := by
    have spelled : looping.toList = _ := String.toList_ofList
    rw [built, Bracketing.unit_spelled spelled]
    decide +kernel
  obtain ⟨b, listed, checks⟩ := List.any_eq_true.mp found
  obtain ⟨⟨⟨⟨⟨⟨⟨distinct, stands⟩, own⟩, uses⟩, defines⟩, missing⟩, dead⟩, higher⟩ :
      ((((((b.graph.statements.Nodup ∧ 29 ∈ b.stmts) ∧ (built 1).canonical 29 = 29) ∧
        "x" ∈ b.facts.access.uses 29) ∧ "x" ∈ b.facts.access.defs 11) ∧
        11 ∉ (built 1).definitions 29 "x") ∧ (11, "x") ∈ (built 1).deadDefinitions b.kernel) ∧
        11 ∈ originsOf b.graph ((analyzeFlow b.graph b.facts.access [] 100).factsBefore 29) "x" := by
    simpa using checks
  have reaches := (reaches_of_mem_originsOf distinct higher).2.2
  refine ⟨b, listed, fun complete => ?_, fun unread => ?_⟩
  · exact missing (complete 29 29 "x" 11 stands own uses defines reaches)
  · exact unread 11 "x" dead 29 uses reaches

/-! ## No cap is high enough -/

/-- A pass goes back once at most for each level that an edge leads up. -/
theorem FlowGraph.Trail.level_le {g : FlowGraph} {level : Nat → Nat}
    (step : ∀ i j, j ∈ g.succs i → level j ≤ level i + if i < j then 0 else 1) {p q : Point}
    {ns : List NodeId} {left : List Nat} (trail : g.Trail p ns left q) :
    level q.block ≤ level p.block + rounds left := by
  induction trail with
  | here => exact Nat.le_refl _
  | node _ _ ih => exact ih
  | @edge i j q ns left leads trail ih =>
      have up := step i j leads
      change level q.block ≤ level i + rounds (i :: left)
      cases left with
      | nil =>
          have last : level q.block ≤ level j := ih
          rw [rounds]
          split at up <;> omega
      | cons b left =>
          obtain ⟨rfl, -⟩ := trail.head_eq
          have rest : level q.block ≤ level b + rounds (b :: left) := ih
          rw [rounds]
          omega

namespace LoopRow

/-- The blocks of `n + 1` loops in a row, numbered as those of loops are: the body of a loop, what
comes after it, its header.  Each block holds one node, with the number of the block. -/
def block (n i : Nat) : Block :=
  if i = 3 * n + 4 then ⟨.exit, [], [], none⟩
  else if i = 0 then ⟨.body, [i], [(3, .always)], none⟩
  else if i % 3 = 0 then ⟨.forLoop, [i], [(i - 2, .taken), (i - 1, .skipped)], none⟩
  else if i % 3 = 1 then ⟨.forBody, [i], [(i + 2, .always)], none⟩
  else ⟨.forDone, [i], [(if i = 3 * n + 2 then i + 2 else i + 4, .always)], none⟩

def graph (n : Nat) : FlowGraph := ⟨(List.range (3 * n + 5)).map (block n)⟩

/-- The first node defines what the one behind the last loop uses. -/
def access (n : Nat) : Access where
  defs i := if i = 0 then ["x"] else []
  uses i := if i = 3 * n + 2 then ["x"] else []

/-- How many loops have been left. -/
def level (i : Nat) : Nat := (i - 1) / 3 + if i % 3 = 2 then 1 else 0

variable {n i j : Nat}

theorem block?_eq (n i : Nat) :
    (graph n).block? i = if i < 3 * n + 5 then some (block n i) else none := by
  split <;> simp_all [FlowGraph.block?, graph]

theorem block_nodes (n i : Nat) : (block n i).nodes = if i = 3 * n + 4 then [] else [i] := by
  unfold block
  split_ifs <;> rfl

theorem nodes_eq (n i : Nat) : (graph n).nodes i = if i < 3 * n + 4 then [i] else [] := by
  rw [FlowGraph.nodes, block?_eq]
  rcases Nat.lt_trichotomy i (3 * n + 4) with low | rfl | high
  · rw [if_pos (by omega), if_pos low]
    exact (block_nodes n i).trans (if_neg (by omega))
  · rw [if_pos (by omega), if_neg (by omega)]
    exact (block_nodes n _).trans (if_pos rfl)
  · rw [if_neg (by omega), if_neg (by omega)]
    rfl

theorem succs_eq (n i : Nat) : (graph n).succs i = if i < 3 * n + 4 then
    if i = 0 then [3]
    else if i % 3 = 0 then [i - 2, i - 1]
    else if i % 3 = 1 then [i + 2]
    else [if i = 3 * n + 2 then i + 2 else i + 4]
    else [] := by
  rw [FlowGraph.succs, FlowGraph.labeledSuccs, block?_eq]
  rcases Nat.lt_trichotomy i (3 * n + 4) with low | rfl | high
  · rw [if_pos (by omega), if_pos low, block, if_neg (by omega)]
    split_ifs <;> rfl
  · rw [if_pos (by omega), if_neg (by omega), block, if_pos rfl]
    rfl
  · rw [if_neg (by omega), if_neg (by omega)]
    rfl

theorem mem_succs_iff : j ∈ (graph n).succs i ↔ i < 3 * n + 4 ∧
    if i = 0 then j = 3
    else if i % 3 = 0 then j = i - 2 ∨ j = i - 1
    else if i % 3 = 1 then j = i + 2
    else j = if i = 3 * n + 2 then i + 2 else i + 4 := by
  rw [succs_eq]
  by_cases low : i < 3 * n + 4
  · rw [if_pos low, and_iff_right low]
    split_ifs <;> simp
  · rw [if_neg low]
    exact iff_of_false List.not_mem_nil fun inside => low inside.1

theorem at_iff {p : Point} {m : NodeId} :
    (graph n).At p m ↔ p.block = m ∧ p.offset = 0 ∧ p.block < 3 * n + 4 := by
  rw [FlowGraph.At, nodes_eq]
  by_cases low : p.block < 3 * n + 4
  · rw [if_pos low, List.getElem?_singleton]
    split <;> simp_all
  · simp [low]

theorem level_eq (i : Nat) : level i = i / 3 + i % 3 - 1 := by
  unfold level
  split <;> omega

/-- An edge back is what leaves a loop. -/
theorem level_step (leads : j ∈ (graph n).succs i) :
    level j ≤ level i + if i < j then 0 else 1 := by
  obtain ⟨-, next⟩ := mem_succs_iff.mp leads
  rw [level_eq, level_eq]
  split_ifs at next ⊢ <;> omega

/-- The use is behind the last loop, so a definition before the first needs a pass for each. -/
theorem not_reachesWithin (n : Nat) :
    ¬(graph n).ReachesWithin n (access n) "x" 0 (3 * n + 2) := by
  rintro ⟨p, ns, left, q, atD, trail, atS, -, few⟩
  have far := trail.level_le fun i j leads => level_step leads
  rw [Point.next, (at_iff.mp atD).1, (at_iff.mp atS).1] at far
  unfold level at far
  simp at far
  omega

/-- One node and then an edge. -/
theorem across (leads : j ∈ (graph n).succs i) : (graph n).Path ⟨i, 0⟩ [i] ⟨j, 0⟩ := by
  have low := (mem_succs_iff.mp leads).1
  have crossed : (graph n).Path ((graph n).blockEnd i) [] ⟨j, 0⟩ := .edge leads (.here _)
  rw [FlowGraph.blockEnd, nodes_eq, if_pos low] at crossed
  exact .node (at_iff.mpr ⟨rfl, rfl, low⟩) crossed

/-- From the header of the first loop to that of any other. -/
theorem exists_path (m : Nat) (le : m ≤ n) :
    ∃ ns, 0 ∉ ns ∧ (graph n).Path ⟨3, 0⟩ ns ⟨3 * m + 3, 0⟩ := by
  induction m with
  | zero => exact ⟨[], List.not_mem_nil, .here _⟩
  | succ m ih =>
      obtain ⟨ns, away, path⟩ := ih (by omega)
      have out : 3 * m + 2 ∈ (graph n).succs (3 * m + 3) := by
        rw [mem_succs_iff, if_neg (by omega), if_pos (by omega)]
        omega
      have on : 3 * (m + 1) + 3 ∈ (graph n).succs (3 * m + 2) := by
        rw [mem_succs_iff, if_neg (by omega), if_neg (by omega), if_neg (by omega),
          if_neg (by omega)]
        omega
      refine ⟨ns ++ ([3 * m + 3] ++ [3 * m + 2]), by simp [away], ?_⟩
      exact path.trans ((across out).trans (across on))

theorem reaches (n : Nat) : (graph n).Reaches (access n) "x" 0 (3 * n + 2) := by
  obtain ⟨ns, away, path⟩ := exists_path (n := n) n (le_refl n)
  have start : (graph n).Path ⟨0, 1⟩ [] ⟨3, 0⟩ := by
    have leads : 3 ∈ (graph n).succs 0 := by
      rw [mem_succs_iff, if_pos rfl]
      omega
    have crossed : (graph n).Path ((graph n).blockEnd 0) [] ⟨3, 0⟩ := .edge leads (.here _)
    rwa [FlowGraph.blockEnd, nodes_eq, if_pos (by omega)] at crossed
  have out : 3 * n + 2 ∈ (graph n).succs (3 * n + 3) := by
    rw [mem_succs_iff, if_neg (by omega), if_pos (by omega)]
    omega
  have first : (graph n).At ⟨0, 0⟩ 0 := at_iff.mpr ⟨rfl, rfl, Nat.succ_pos _⟩
  have last : (graph n).At ⟨3 * n + 2, 0⟩ (3 * n + 2) := at_iff.mpr ⟨rfl, rfl, by simp⟩
  refine ⟨⟨0, 0⟩, [] ++ (ns ++ [3 * n + 3]), ⟨3 * n + 2, 0⟩, first,
    start.trans (path.trans (across out)), last, ?_⟩
  intro m member
  have other : m ≠ 0 := by
    rintro rfl
    simp [away] at member
  simp [access, other]

theorem statements_nodup (n : Nat) : (graph n).statements.Nodup := by
  have listed : (graph n).statements = (List.range (3 * n + 5)).flatMap fun i => (block n i).nodes :=
    List.flatMap_map ..
  rw [listed]
  refine nodup_flatMap_of_key (fun i => i) List.nodup_range ?_ ?_
  · intro i _
    rw [block_nodes]
    split <;> simp
  · intro i _ m member
    rw [block_nodes] at member
    split at member <;> simp_all

end LoopRow

/-- Whatever the cap, there are programs that need more passes: the definition before the first of
`cap + 1` loops is read behind the last one and not reported there. -/
theorem cappedDefinitions_unbounded (cap : Nat) :
    let g := LoopRow.graph cap
    let access := LoopRow.access cap
    g.Reaches access "x" 0 (3 * cap + 2) ∧
      0 ∉ originsOf g ((analyzeFlow g access [] cap).factsBefore (3 * cap + 2)) "x" := by
  refine ⟨LoopRow.reaches cap, fun listed => LoopRow.not_reachesWithin cap ?_⟩
  exact ((FlowGraph.mem_originsOf_iff_within (LoopRow.statements_nodup cap)).mp listed).2

end Retarget
