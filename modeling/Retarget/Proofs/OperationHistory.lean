/-
# Proofs.OperationHistory -- every operation graph that changes can lead to

A history is a list of the four changes, in any order and with any arguments (`GraphChange`).  A node
is given by what it holds, so adding the same once more makes another node.  A change may be refused:
an edge between nodes that are not both there, or the removal of what is not there.  The slots, the
edges and the index of names are kept by each change separately, and still fit together after any
history (`Consistent`, `history_sound`).

Which edges there are can be told from the changes alone: those drawn between two distinct nodes
that were both there, in the order of drawing, without those that a later change cuts (`standing`).
That removing a node and never reusing its number amounts to cutting its edges is what ties this to
the state: an edge never touches a node that is gone.
-/
import Retarget.Operation.Graph
import Retarget.Proofs.Grouping
import Retarget.Proofs.LoweredGraph

namespace Retarget

set_option autoImplicit false
set_option linter.dupNamespace false

/-- A change to an operation graph. -/
inductive GraphChange where
  | addNode (n : OpNode)
  | addEdge (source target : OpId) (kind : OpEdgeKind) (label : String)
  | removeNode (id : OpId)
  | removeEdge (source target : OpId)

/-- Whether a change takes an edge away that is there. -/
def GraphChange.cuts (e : OpEdge) : GraphChange → Bool
  | .removeNode id => e.source == id || e.target == id
  | .removeEdge source target => e.source == source && e.target == target
  | _ => false

namespace OperationGraph

/-- The graph after a change, and whether the change was accepted. -/
def change (g : OperationGraph) : GraphChange → OperationGraph × Bool
  | .addNode n => ((g.addNode n).1, true)
  | .addEdge source target kind label =>
    match g.addEdge source target kind label with
    | .ok h => (h, true)
    | .error _ => (g, false)
  | .removeNode id => g.removeNode id
  | .removeEdge source target => g.removeEdge source target

def changed (g : OperationGraph) (changes : List GraphChange) : OperationGraph :=
  changes.foldl (fun g c => (g.change c).1) g

/-- The graph after a history that starts with an empty one. -/
def made (name : String) (changes : List GraphChange) : OperationGraph := (new name).changed changes

/-! ## What a history tells -/

/-- The number a change gives out. -/
def numbered (g : OperationGraph) : GraphChange → List OpId
  | .addNode n => [(g.addNode n).2]
  | _ => []

/-- The numbers given out, in order. -/
def numbers (g : OperationGraph) : List GraphChange → List OpId
  | [] => []
  | c :: cs => g.numbered c ++ (g.change c).1.numbers cs

/-- The edge a change draws: one between two nodes that are there and are not the same. -/
def drawn (g : OperationGraph) : GraphChange → List OpEdge
  | .addEdge source target kind label =>
    if (g.node? source).isSome && (g.node? target).isSome && source != target then
      [⟨source, target, kind, label⟩]
    else []
  | _ => []

/-- The edges that are drawn and that no later change cuts, in the order of drawing. -/
def standing (g : OperationGraph) : List GraphChange → List OpEdge
  | [] => []
  | c :: cs => (g.drawn c).filter (fun e => !cs.any (·.cuts e)) ++ (g.change c).1.standing cs

/-! ## Consistency -/

/-- An edge joins two nodes that are there and are not the same. -/
def Joins (g : OperationGraph) (e : OpEdge) : Prop :=
  (g.node? e.source).isSome ∧ (g.node? e.target).isSome ∧ e.source ≠ e.target

/-- How slots, edges and the index of names fit together. -/
structure Consistent (g : OperationGraph) : Prop where
  /-- The node in a slot has the number of the slot. -/
  slotted : ∀ (i : Nat) (n : OpNode), g.slots[i]? = some (some n) → n.id = i
  joined : ∀ e ∈ g.edges, g.Joins e
  /-- A name is listed with a node that is there and bears it. -/
  named : ∀ name id, (name, id) ∈ g.index → ∃ n, g.node? id = some n ∧ n.name = name
  listed : (g.index.map (·.1)).Nodup

/-- Why a change is refused. -/
def Refuses (g : OperationGraph) : GraphChange → Prop
  | .addNode _ => False
  | .addEdge source target _ _ => g.node? source = none ∨ g.node? target = none
  | .removeNode id => g.node? id = none
  | .removeEdge source target => ∀ e ∈ g.edges, ¬(e.source = source ∧ e.target = target)

variable {g : OperationGraph} {id other : OpId} {n : OpNode}

theorem node?_eq_some_iff :
    g.node? id = some n ↔ ∃ i : Nat, id = i ∧ g.slots[i]? = some (some n) := by
  constructor
  · intro found
    rw [node?] at found
    split at found
    · cases found
    · rename_i above
      exact ⟨id.toNat, (Int.toNat_of_nonneg (Int.not_lt.mp above)).symm,
        Option.join_eq_some_iff.mp found⟩
  · rintro ⟨i, rfl, here⟩
    rw [node?_natCast, here, Option.join_some]

theorem mem_nodes_iff : n ∈ g.nodes ↔ ∃ i : Nat, g.slots[i]? = some (some n) := by
  have self : n ∈ g.nodes ↔ some n ∈ g.slots := by simp [nodes]
  rw [self, List.mem_iff_getElem?]

/-! ## One change -/

/-- An edge is refused, dropped or put last. -/
theorem addEdge_cases (g : OperationGraph) (source target : OpId) (kind : OpEdgeKind)
    (label : String) :
    ((g.node? source = none ∨ g.node? target = none) ∧
      g.addEdge source target kind label = .error (.unknownNode source target)) ∨
    ((g.node? source).isSome ∧ (g.node? target).isSome ∧ source = target ∧
      g.addEdge source target kind label = .ok g) ∨
    ((g.node? source).isSome ∧ (g.node? target).isSome ∧ source ≠ target ∧
      g.addEdge source target kind label =
        .ok { g with edges := g.edges ++ [⟨source, target, kind, label⟩] }) := by
  unfold addEdge
  cases start : g.node? source with
  | none => simp
  | some a =>
      cases stop : g.node? target with
      | none => simp
      | some b => by_cases same : source = target <;> simp [same]

theorem node?_addNode_self (n : OpNode) :
    (g.addNode n).1.node? g.slots.length = some { n with id := (g.slots.length : OpId) } := by
  simp [node?_natCast, addNode]

theorem node?_addNode_of_node? {m : OpNode} (n : OpNode) (found : g.node? id = some m) :
    (g.addNode n).1.node? id = some m := by
  obtain ⟨i, rfl, here⟩ := node?_eq_some_iff.mp found
  have inside : i < g.slots.length := (List.getElem?_eq_some_iff.mp here).1
  rw [node?_natCast, addNode, List.getElem?_append_left inside, here, Option.join_some]

/-- A removal empties the slot of the node and no other. -/
theorem node?_removeNode (found : g.node? id = some n) :
    (g.removeNode id).1.node? other = if other = id then none else g.node? other := by
  obtain ⟨i, rfl, here⟩ := node?_eq_some_iff.mp found
  simp only [removeNode, found, Int.toNat_natCast]
  unfold node?
  split
  · rename_i below
    have differ : other ≠ (i : OpId) := fun same => absurd (same ▸ below) (by simp)
    rw [if_neg differ]
  · rename_i above
    obtain ⟨j, rfl⟩ := Int.eq_ofNat_of_zero_le (Int.not_lt.mp above)
    simp only [Int.toNat_natCast, Int.natCast_inj]
    by_cases same : j = i
    · subst same
      rw [List.getElem?_set_self (List.getElem?_eq_some_iff.mp here).1, Option.join_some, if_pos rfl]
    · rw [List.getElem?_set_ne (Ne.symm same), if_neg same]

theorem Consistent.addNode (consistent : g.Consistent) (n : OpNode) :
    (g.addNode n).1.Consistent where
  slotted i m here := by
    simp only [OperationGraph.addNode, List.getElem?_append] at here
    split at here
    · exact consistent.slotted i m here
    · obtain ⟨last, rfl⟩ : i - g.slots.length = 0 ∧ { n with id := (g.slots.length : OpId) } = m := by
        simpa [List.getElem?_singleton] using here
      have past : i = g.slots.length := by omega
      exact congrArg Nat.cast past.symm
  joined e drawn := by
    obtain ⟨start, stop, apart⟩ := consistent.joined e drawn
    obtain ⟨a, atSource⟩ := Option.isSome_iff_exists.mp start
    obtain ⟨b, atTarget⟩ := Option.isSome_iff_exists.mp stop
    exact ⟨by rw [node?_addNode_of_node? n atSource]; rfl,
      by rw [node?_addNode_of_node? n atTarget]; rfl, apart⟩
  named name id entry := by
    have old (entry : (name, id) ∈ g.index) :
        ∃ m, (g.addNode n).1.node? id = some m ∧ m.name = name := by
      obtain ⟨m, found, bears⟩ := consistent.named name id entry
      exact ⟨m, node?_addNode_of_node? n found, bears⟩
    simp only [OperationGraph.addNode] at entry
    split at entry
    · exact old entry
    · rcases List.mem_cons.mp entry with new | kept
      · obtain ⟨rfl, rfl⟩ := Prod.mk.inj new
        exact ⟨_, node?_addNode_self n, rfl⟩
      · exact old (List.mem_filter.mp kept).1
  listed := by
    simp only [OperationGraph.addNode]
    split
    · exact consistent.listed
    · rw [List.map_cons, List.nodup_cons]
      refine ⟨fun again => ?_, consistent.listed.sublist (List.filter_sublist.map _)⟩
      obtain ⟨entry, kept, same⟩ := List.mem_map.mp again
      exact absurd same (by simpa using (List.mem_filter.mp kept).2)

theorem Consistent.removeNode (consistent : g.Consistent) (id : OpId) :
    (g.removeNode id).1.Consistent := by
  cases found : g.node? id with
  | none => simpa only [OperationGraph.removeNode, found] using consistent
  | some n =>
      have others (x : OpId) (differ : x ≠ id) : (g.removeNode id).1.node? x = g.node? x := by
        rw [node?_removeNode found, if_neg differ]
      refine ⟨fun i m here => ?_, fun e drawn => ?_, fun name x entry => ?_, ?_⟩
      · simp only [OperationGraph.removeNode, found, List.getElem?_set] at here
        split at here
        · split at here <;> cases here
        · exact consistent.slotted i m here
      · have kept : e ∈ g.edges ∧ e.source ≠ id ∧ e.target ≠ id := by
          simpa [OperationGraph.removeNode, found] using drawn
        obtain ⟨start, stop, apart⟩ := consistent.joined e kept.1
        exact ⟨by rwa [others _ kept.2.1], by rwa [others _ kept.2.2], apart⟩
      · have old : (name, x) ∈ g.index := by
          simp only [OperationGraph.removeNode, found] at entry
          split at entry
          · exact (List.mem_filter.mp entry).1
          · exact entry
        obtain ⟨m, there, bears⟩ := consistent.named name x old
        -- had the name stood for the removed node, it would have gone with it
        have differ : x ≠ id := by
          rintro rfl
          obtain rfl : n = m := Option.some.inj (found.symm.trans there)
          subst bears
          have points := (lookup_eq_some_iff_mem consistent.listed).mpr old
          simp [OperationGraph.removeNode, found, points] at entry
        exact ⟨m, (others x differ).trans there, bears⟩
      · simp only [OperationGraph.removeNode, found]
        split
        · exact consistent.listed.sublist (List.filter_sublist.map _)
        · exact consistent.listed

theorem Consistent.addEdge (consistent : g.Consistent) {e : OpEdge} (joins : g.Joins e) :
    ({ g with edges := g.edges ++ [e] } : OperationGraph).Consistent where
  slotted := consistent.slotted
  joined x drawn := by
    rcases List.mem_append.mp drawn with old | new
    · exact consistent.joined x old
    · exact List.mem_singleton.mp new ▸ joins
  named := consistent.named
  listed := consistent.listed

theorem Consistent.removeEdge (consistent : g.Consistent) (source target : OpId) :
    (g.removeEdge source target).1.Consistent :=
  ⟨consistent.slotted, fun e drawn => consistent.joined e (List.mem_filter.mp drawn).1,
    consistent.named, consistent.listed⟩

theorem Consistent.change (consistent : g.Consistent) (c : GraphChange) :
    (g.change c).1.Consistent := by
  cases c with
  | addNode n => exact consistent.addNode n
  | addEdge source target kind label =>
      rcases g.addEdge_cases source target kind label with
        ⟨-, refused⟩ | ⟨-, -, -, dropped⟩ | ⟨start, stop, apart, added⟩
      all_goals dsimp only [OperationGraph.change]
      · rwa [refused]
      · rwa [dropped]
      · rw [added]
        exact consistent.addEdge ⟨start, stop, apart⟩
  | removeNode id => exact consistent.removeNode id
  | removeEdge source target => exact consistent.removeEdge source target

/-- A change leaves the edges it does not cut, in their order, and puts the one it draws last. -/
theorem Consistent.edges_change (consistent : g.Consistent) (c : GraphChange) :
    (g.change c).1.edges = g.edges.filter (fun e => !c.cuts e) ++ g.drawn c := by
  cases c with
  | addNode n => simp [OperationGraph.change, OperationGraph.addNode, GraphChange.cuts, drawn]
  | addEdge source target kind label =>
      have uncut : g.edges.filter (fun e => !(GraphChange.addEdge source target kind label).cuts e)
          = g.edges := by simp [GraphChange.cuts]
      rw [uncut, OperationGraph.change, drawn]
      rcases g.addEdge_cases source target kind label with
        ⟨gone | gone, refused⟩ | ⟨-, -, same, dropped⟩ | ⟨start, stop, apart, added⟩
      · simp [refused, gone]
      · simp [refused, gone]
      · subst same
        simp [dropped]
      · simp [added, start, stop, apart]
  | removeNode id =>
      cases found : g.node? id with
      | none =>
          -- no edge touches a node that is gone
          have apart : ∀ e ∈ g.edges, (!(GraphChange.removeNode id).cuts e) = true := by
            intro e drawn
            obtain ⟨start, stop, -⟩ := consistent.joined e drawn
            have notSource : e.source ≠ id := by rintro rfl; simp [found] at start
            have notTarget : e.target ≠ id := by rintro rfl; simp [found] at stop
            simp [GraphChange.cuts, notSource, notTarget]
          simp [OperationGraph.change, OperationGraph.removeNode, found, drawn,
            List.filter_eq_self.mpr apart]
      | some n =>
          simp [OperationGraph.change, OperationGraph.removeNode, found, drawn, GraphChange.cuts, bne]
  | removeEdge source target =>
      simp [OperationGraph.change, OperationGraph.removeEdge, drawn, GraphChange.cuts]

theorem numbered_eq (c : GraphChange) : g.numbered c = [] ∧
      (g.change c).1.slots.length = g.slots.length ∨
    g.numbered c = [(g.slots.length : OpId)] ∧
      (g.change c).1.slots.length = g.slots.length + 1 := by
  cases c with
  | addNode n => exact .inr ⟨rfl, by simp [OperationGraph.change, OperationGraph.addNode]⟩
  | addEdge source target kind label =>
      refine .inl ⟨rfl, ?_⟩
      rcases g.addEdge_cases source target kind label with
        ⟨-, refused⟩ | ⟨-, -, -, dropped⟩ | ⟨-, -, -, added⟩
      · simp [OperationGraph.change, refused]
      · simp [OperationGraph.change, dropped]
      · simp [OperationGraph.change, added]
  | removeNode id =>
      refine .inl ⟨rfl, ?_⟩
      cases found : g.node? id <;> simp [OperationGraph.change, OperationGraph.removeNode, found]
  | removeEdge source target => exact .inl ⟨rfl, rfl⟩

/-- A change is refused for a reason, and then leaves nodes and edges alone. -/
theorem refused_iff (c : GraphChange) : (g.change c).2 = false ↔ g.Refuses c := by
  cases c with
  | addNode n => simp [OperationGraph.change, Refuses]
  | addEdge source target kind label =>
      rcases g.addEdge_cases source target kind label with
        ⟨gone, refused⟩ | ⟨start, stop, -, dropped⟩ | ⟨start, stop, -, added⟩
      · simp [OperationGraph.change, refused, Refuses, gone]
      · simp [OperationGraph.change, dropped, Refuses, Option.ne_none_iff_isSome.mpr start,
          Option.ne_none_iff_isSome.mpr stop]
      · simp [OperationGraph.change, added, Refuses, Option.ne_none_iff_isSome.mpr start,
          Option.ne_none_iff_isSome.mpr stop]
  | removeNode id =>
      cases found : g.node? id <;> simp [OperationGraph.change, OperationGraph.removeNode, Refuses, found]
  | removeEdge source target => simp [OperationGraph.change, OperationGraph.removeEdge, Refuses]

theorem change_of_refused {c : GraphChange} (refused : (g.change c).2 = false) :
    (g.change c).1.slots = g.slots ∧ (g.change c).1.edges = g.edges := by
  cases c with
  | addNode n => cases refused
  | addEdge source target kind label =>
      simp only [OperationGraph.change] at refused ⊢
      split at refused <;> simp_all
  | removeNode id =>
      have gone : g.node? id = none := (refused_iff (.removeNode id)).mp refused
      simp [OperationGraph.change, OperationGraph.removeNode, gone]
  | removeEdge source target =>
      have none := (refused_iff (.removeEdge source target)).mp refused
      refine ⟨rfl, List.filter_eq_self.mpr fun e drawn => ?_⟩
      have differ := none e drawn
      simp only [Bool.not_eq_true', Bool.and_eq_false_imp, beq_iff_eq, beq_eq_false_iff_ne]
      exact fun source target => differ ⟨source, target⟩

/-! ## Histories -/

theorem Consistent.changed (consistent : g.Consistent) (changes : List GraphChange) :
    (g.changed changes).Consistent := by
  induction changes generalizing g with
  | nil => exact consistent
  | cons c cs ih => exact ih (consistent.change c)

theorem Consistent.edges_changed (consistent : g.Consistent) (changes : List GraphChange) :
    (g.changed changes).edges =
      g.edges.filter (fun e => !changes.any (·.cuts e)) ++ g.standing changes := by
  induction changes generalizing g with
  | nil => simp [OperationGraph.changed, standing]
  | cons c cs ih =>
      have rest : g.changed (c :: cs) = (g.change c).1.changed cs := rfl
      rw [rest, ih (consistent.change c), consistent.edges_change c, List.filter_append,
        List.filter_filter, standing, List.append_assoc]
      simp [Bool.and_comm]

theorem le_of_mem_numbers {id : Int} {changes : List GraphChange}
    (given : id ∈ g.numbers changes) : (g.slots.length : Int) ≤ id := by
  induction changes generalizing g with
  | nil => cases given
  | cons c cs ih =>
      rcases List.mem_append.mp given with now | later
      · rcases numbered_eq (g := g) c with ⟨none, -⟩ | ⟨one, -⟩
        · simp [none] at now
        · rw [one, List.mem_singleton] at now
          exact Int.le_of_eq now.symm
      · have above := ih later
        rcases numbered_eq (g := g) c with ⟨-, size⟩ | ⟨-, size⟩ <;> omega

theorem numbers_nodup (g : OperationGraph) (changes : List GraphChange) :
    (g.numbers changes).Nodup := by
  induction changes generalizing g with
  | nil => exact .nil
  | cons c cs ih =>
      rw [numbers]
      rcases numbered_eq (g := g) c with ⟨none, -⟩ | ⟨one, size⟩
      · rw [none]
        exact ih _
      · rw [one, List.singleton_append, List.nodup_cons]
        refine ⟨fun again => ?_, ih _⟩
        have above := le_of_mem_numbers again
        omega

theorem new_consistent (name : String) : (new name).Consistent :=
  ⟨by simp [new], nofun, nofun, .nil⟩

/-! ## What is asked of a consistent graph -/

theorem Consistent.ids_nodup (consistent : g.Consistent) : (g.nodes.map (·.id)).Nodup := by
  refine List.pairwise_map.mpr (List.pairwise_filterMap.mpr (List.pairwise_iff_getElem.mpr ?_))
  intro i j lowI lowJ before n here m there same
  have atI := consistent.slotted i n (List.getElem?_eq_some_iff.mpr ⟨lowI, here⟩)
  have atJ := consistent.slotted j m (List.getElem?_eq_some_iff.mpr ⟨lowJ, there⟩)
  have equal : i = j := Int.natCast_inj.mp (atI.symm.trans (same.trans atJ))
  exact absurd equal (Nat.ne_of_lt before)

theorem Consistent.mem_ids (consistent : g.Consistent) (there : (g.node? id).isSome) :
    id ∈ g.nodes.map (·.id) := by
  obtain ⟨n, found⟩ := Option.isSome_iff_exists.mp there
  obtain ⟨i, rfl, here⟩ := node?_eq_some_iff.mp found
  exact List.mem_map.mpr ⟨n, mem_nodes_iff.mpr ⟨i, here⟩, consistent.slotted i n here⟩

theorem Consistent.slotDefects_eq_nil_iff (consistent : g.Consistent) {i : Nat}
    (here : g.slots[i]? = some (some n)) : slotDefects i (some n) = [] ↔ n.name ≠ "" := by
  simp [slotDefects, consistent.slotted i n here]

/-- Names that are missing are all that can be wrong. -/
theorem Consistent.defects_iff (consistent : g.Consistent) :
    g.defects = [] ↔ ∀ n ∈ g.nodes, n.name ≠ "" := by
  have edges : g.edges.flatMap g.edgeDefects = [] := by
    refine List.flatMap_eq_nil_iff.mpr fun e drawn => ?_
    obtain ⟨start, stop, apart⟩ := consistent.joined e drawn
    simp [edgeDefects, apart, Option.isNone_eq_false_iff.mpr start,
      Option.isNone_eq_false_iff.mpr stop]
  rw [defects, edges, List.append_nil, List.flatMap_eq_nil_iff]
  constructor
  · intro clean n member
    obtain ⟨i, here⟩ := mem_nodes_iff.mp member
    exact (consistent.slotDefects_eq_nil_iff here).mp
      (clean (some n, i) (List.mem_zipIdx_iff_getElem?.mpr here))
  · rintro named ⟨slot, i⟩ listed
    have here : g.slots[i]? = some slot := List.mem_zipIdx_iff_getElem?.mp listed
    cases slot with
    | none => rfl
    | some n => exact (consistent.slotDefects_eq_nil_iff here).mpr (named n (mem_nodes_iff.mpr ⟨i, here⟩))

/-- The edges fall into those that leave each node. -/
theorem Consistent.edges_perm_from (consistent : g.Consistent) :
    g.edges.Perm ((g.nodes.map (·.id)).flatMap g.edgesFrom) :=
  perm_flatMap_filter OpEdge.source consistent.ids_nodup g.edges fun e drawn =>
    consistent.mem_ids (consistent.joined e drawn).1

/-- The edges fall into those that lead to each node. -/
theorem Consistent.edges_perm_to (consistent : g.Consistent) :
    g.edges.Perm ((g.nodes.map (·.id)).flatMap g.edgesTo) :=
  perm_flatMap_filter OpEdge.target consistent.ids_nodup g.edges fun e drawn =>
    consistent.mem_ids (consistent.joined e drawn).2.1

/-- A name taken over and lost with its second bearer, an edge back to its own node, and an edge
that goes with a node whose number is not given out again. -/
def shadowed : List GraphChange := [
  .addNode { kind := .load, name := "a" }, .addNode { kind := .load, name := "a" },
  .addNode { kind := .add, name := "b" }, .addEdge 0 2 .data "x", .addEdge 1 2 .data "y",
  .addEdge 2 2 .data "z", .removeNode 1, .addNode { kind := .store, name := "c" },
  .addEdge 2 3 .data "w"]

end OperationGraph

end Retarget
