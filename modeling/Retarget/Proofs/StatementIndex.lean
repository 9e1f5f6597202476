/-
# Proofs.StatementIndex -- every statement of a built kernel can be asked about

The index has an entry for every node of the flow graph of a kernel that is built.  Forgetting a
kernel drops the entries of its own nodes only, since no node stands in two flow graphs, and nothing
else drops any; so it is that way after every history (`history_indexed`).

What the queries answer about such a node, by whatever name it is asked for, is then what the
analysis of its kernel has found there (`Wired.definitions_eq`, `Wired.mem_readers_iff`,
`Wired.mem_deadDefinitions_iff`).
-/
import Retarget.Proofs.FlowEdges
import Retarget.PropertyGraph.Metrics

namespace Retarget

open Retarget.Source (NodeId)

set_option autoImplicit false
set_option linter.dupNamespace false

namespace PropertyGraph

variable {u : SourceUnit} {g : PropertyGraph} {b : BuiltKernel} {calls : List CallRecord}
  {s t d : NodeId} {v : String}

/-- Every node of the flow graph of a built kernel has an entry. -/
def Indexed (g : PropertyGraph) : Prop := ∀ b ∈ g.built, ∀ n ∈ b.stmts, ∃ s, (n, s) ∈ g.index

theorem index_removeNodes (g : PropertyGraph) (slots : List Slot) :
    (g.removeNodes slots).index = g.index := by
  induction slots generalizing g with
  | nil => rfl
  | cons s slots ih =>
      have rest : g.removeNodes (s :: slots) = (g.removeNode s).removeNodes slots := rfl
      rw [rest, ih, removeNode]
      split <;> rfl

theorem index_unlinked (g : PropertyGraph) (k : KernelId) : (g.unlinked k).1.index = g.index := by
  apply List.foldlRecOn
    (motive := fun state : PropertyGraph × List CallRecord => state.1.index = g.index)
  · rfl
  · intro state before r _
    rw [← before, unlinkCall]
    split
    · exact index_removeNodes _ _
    · split
      · exact index_removeNodes _ _
      · rfl

theorem indexed_invariant (numbered : u.Numbered) : Invariant u Indexed where
  forget g b wired built indexed := by
    intro c member n stands
    have same : (g.forget b).built = g.built.filter (·.kernel != b.kernel) := (wired.forget_alike b).2.2
    rw [same, List.mem_filter, bne_iff_ne] at member
    obtain ⟨s, entry⟩ := indexed c member.1 n stands
    have foreign : n ∉ b.stmts := by
      intro also
      obtain ⟨k, listed, describes⟩ := (wired.kernels b built).listed
      obtain ⟨k', listed', describes'⟩ := (wired.kernels c member.1).listed
      obtain rfl : k = k' := numbered.kernel_eq_of_statement listed listed' describes.graph
        describes'.graph (describes.stmts ▸ also) (describes'.stmts ▸ stands)
      exact member.2 (describes'.kernel.trans describes.kernel.symm)
    refine ⟨s, List.mem_filter.mpr ⟨?_, by simpa using foreign⟩⟩
    change (n, s) ∈ ((g.unlinked b.kernel).1.removeNodes b.slots).index
    rwa [index_removeNodes, index_unlinked]
  build g k wired listed _ indexed := by
    cases found : u.flowGraph? k with
    | none =>
        rw [PropertyGraph.buildKernel, found]
        exact indexed
    | some flow =>
        have ext := (Extends.addNodes g (kernelNodes k (rowsOf u flow))).trans
          (wireKernel_grown wired.sound u k flow).ext
        rw [buildKernel_eq found]
        intro c member n stands
        rcases List.mem_append.mp member with old | new
        · obtain ⟨s, entry⟩ := indexed c (ext.built ▸ old) n stands
          exact ⟨s, List.mem_append_left _ (ext.index ▸ entry)⟩
        · obtain rfl := List.mem_singleton.mp new
          obtain ⟨s, entry⟩ := exists_mem_entriesFor g.nodes.size stands
          exact ⟨s, List.mem_append_right _ entry⟩
  link g wired indexed := by
    have settled : g.Settled [] := List.forall_mem_nil _
    have ext := (foldl_linkStep_spec g.calls (g, []) wired settled).2.2
    intro c member n stands
    obtain ⟨s, entry⟩ := indexed c (ext.built ▸ member) n stands
    exact ⟨s, ext.index ▸ entry⟩

/-- After any history every node of a built kernel has an entry. -/
theorem history_indexed (numbered : u.Numbered) (cap : Int) (ops : List (GraphOp u)) :
    (history u cap ops).Indexed :=
  (indexed_invariant numbered).history nofun ops

/-! ## Answers -/

theorem Indexed.lookup (indexed : g.Indexed) (built : b ∈ g.built) (stands : s ∈ b.stmts) :
    (g.index.lookup s).isSome = true := by
  obtain ⟨slot, entry⟩ := indexed b built s stands
  exact List.lookup_isSome_iff.mpr ⟨(s, slot), entry, beq_self_eq_true s⟩

section Answers

variable (numbered : u.Numbered) (wired : g.Wired u calls) (indexed : g.Indexed)
  (built : b ∈ g.built) (stands : s ∈ b.stmts)

include numbered wired indexed built stands

/-- A node is asked about by its own number or by that of a statement it answers for. -/
theorem Wired.infoOf?_canonical (known : g.canonical t = s) : g.infoOf? t = some b := by
  have entry := indexed.lookup built stands
  have slot : g.slotOf? t = g.slotOf? s := by
    rw [slotOf?, slotOf?, known, canonical_of_indexed entry]
  rw [infoOf?, slot]
  exact wired.infoOf?_eq numbered built stands entry

theorem Wired.definitions_eq (known : g.canonical t = s) :
    g.definitions t v = originsOf b.graph (b.facts.factsBefore s) v := by
  rw [definitions, wired.infoOf?_canonical numbered indexed built stands known, known]

/-- The readers of a definition are the nodes that use the variable and are told of it. -/
theorem Wired.mem_readers_iff :
    t ∈ g.readers s v ↔
      t ∈ b.stmts ∧ v ∈ b.facts.access.uses t ∧
        s ∈ originsOf b.graph (b.facts.factsBefore t) v := by
  obtain ⟨k, listed, describes⟩ := (wired.kernels b built).listed
  have self := canonical_of_indexed (indexed.lookup built stands)
  have record : g.dataDepsOf s = (b.facts.deps.record s).data := by
    rw [dataDepsOf, depRecord?, wired.infoOf?_canonical numbered indexed built stands self, self]
    rfl
  have access : b.facts.access = u.accessTo b.stmts := by
    rw [describes.facts]
    rfl
  rw [readers, self, record, access, describes.facts, record_data]
  constructor
  · intro member
    obtain ⟨dep, among, rfl⟩ := List.mem_map.mp member
    obtain ⟨found, shape⟩ := List.mem_filter.mp among
    obtain ⟨⟨kind, source⟩, var⟩ : (dep.kind = .flow ∧ dep.source = s) ∧ dep.var = v := by
      simpa using shape
    obtain ⟨n, there, into⟩ := List.mem_flatMap.mp (List.mem_filter.mp found).1
    obtain ⟨rfl, origin⟩ := mem_depsInto.mp into
    rw [kind] at origin
    exact ⟨describes.stmts ▸ there, var ▸ origin.1, source ▸ var ▸ origin.2⟩
  · rintro ⟨there, uses, origin⟩
    refine List.mem_map.mpr ⟨⟨s, t, v, .flow⟩, List.mem_filter.mpr ⟨?_, by simp⟩, rfl⟩
    refine List.mem_filter.mpr ⟨?_, by simp⟩
    refine List.mem_flatMap.mpr ⟨t, describes.stmts ▸ there, ?_⟩
    exact mem_depsInto.mpr ⟨rfl, uses, origin⟩

omit stands in
/-- A dead definition is one that no node that uses the variable is told of. -/
theorem Wired.mem_deadDefinitions_iff :
    (s, v) ∈ g.deadDefinitions b.kernel ↔
      s ∈ b.stmts ∧ v ∈ b.facts.access.defs s ∧
        ∀ t ∈ b.stmts, v ∈ b.facts.access.uses t →
          s ∉ originsOf b.graph (b.facts.factsBefore t) v := by
  have listed : (s, v) ∈ g.deadDefinitions b.kernel ↔
      s ∈ b.stmts ∧ v ∈ b.facts.access.defs s ∧ g.readers s v = [] := by
    rw [deadDefinitions, wired.builtKernel?_eq built]
    simp
  rw [listed]
  refine and_congr_right fun stands => and_congr_right fun _ => ?_
  simp only [List.eq_nil_iff_forall_not_mem,
    wired.mem_readers_iff numbered indexed built stands, not_and]

end Answers

end PropertyGraph

end Retarget
