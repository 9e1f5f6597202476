/-
# Proofs.DefUse -- the variables a node writes and reads are listed once

Everything recorded about a node goes through lists of names to which only new names are added,
so no name is listed twice (`Scope.defUse_distinct`), and the table made for a kernel keeps that
(`SourceUnit.accessTo_distinct`).
-/
import Retarget.PropertyGraph.Build
import Retarget.Proofs.WordList

namespace Retarget

open Retarget.Source (Node NodeId)

set_option autoImplicit false
set_option linter.dupNamespace false

namespace Kernel.Scope

/-- No variable is listed twice. -/
structure DefUse.Distinct (d : DefUse) : Prop where
  defs : d.defs.Nodup
  uses : d.uses.Nodup

namespace DefUse

theorem distinct_empty : ({} : DefUse).Distinct := ⟨List.nodup_nil, List.nodup_nil⟩

theorem Distinct.append {a : DefUse} (distinct : a.Distinct) (b : DefUse) :
    (a.append b).Distinct :=
  ⟨Text.addNew_nodup distinct.defs b.defs, Text.addNew_nodup distinct.uses b.uses⟩

theorem Distinct.foldl {α : Type} {step : DefUse → α → DefUse}
    (keeps : ∀ d x, d.Distinct → (step d x).Distinct) {d : DefUse} (distinct : d.Distinct)
    (xs : List α) : (xs.foldl step d).Distinct := by
  induction xs generalizing d with
  | nil => exact distinct
  | cons x xs ih => exact ih (keeps d x distinct)

end DefUse

variable (scope : Scope)

theorem refs_nodup (n : Node) : (scope.refs n).Nodup := Text.addNew_nodup List.nodup_nil _

theorem distinct_refs (n : Node) : (⟨[], scope.refs n⟩ : DefUse).Distinct :=
  ⟨List.nodup_nil, scope.refs_nodup n⟩

theorem specDefUse_distinct (names values : List Node) :
    (scope.specDefUse names values).Distinct :=
  DefUse.Distinct.append ⟨Text.addNew_nodup List.nodup_nil _, List.nodup_nil⟩ _

theorem defUse_distinct (n : Node) : (scope.defUse n).Distinct := by
  unfold defUse
  split
  · refine DefUse.Distinct.append ?_ _
    exact DefUse.distinct_empty.foldl (fun d t distinct => distinct.append _) _
  · exact ⟨List.nodup_singleton _, List.nodup_singleton _⟩
  · exact scope.distinct_refs _
  · exact scope.specDefUse_distinct _ _
  · refine DefUse.distinct_empty.foldl (fun d s distinct => ?_) _
    split
    · exact distinct.append _
    · exact distinct
  · exact ⟨Text.addNew_nodup List.nodup_nil _, scope.refs_nodup _⟩
  · exact scope.distinct_refs _
  · exact scope.distinct_refs _
  · exact DefUse.distinct_empty
  · exact scope.distinct_refs _

end Kernel.Scope

/-- No node lists a variable twice. -/
structure Access.Distinct (access : Access) : Prop where
  defs : ∀ n, (access.defs n).Nodup
  uses : ∀ n, (access.uses n).Nodup

theorem SourceUnit.defUseOf_distinct (u : SourceUnit) (n : NodeId) : (u.defUseOf n).Distinct := by
  unfold SourceUnit.defUseOf
  cases u.node? n with
  | none => exact Kernel.Scope.DefUse.distinct_empty
  | some node => exact u.scope.defUse_distinct node

theorem SourceUnit.lookup_defUse (u : SourceUnit) (stmts : List NodeId) (n : NodeId) :
    (stmts.map fun m => (m, u.defUseOf m)).lookup n
      = if n ∈ stmts then some (u.defUseOf n) else none := by
  induction stmts with
  | nil => rfl
  | cons m stmts ih =>
      by_cases same : n = m
      · subst same
        simp
      · simp [List.lookup_cons, beq_false_of_ne same, ih, same]

theorem SourceUnit.defs_accessTo {u : SourceUnit} {stmts : List NodeId} {n : NodeId}
    (stands : n ∈ stmts) : (u.accessTo stmts).defs n = (u.defUseOf n).defs := by
  simp [accessTo, Access.ofTable, u.lookup_defUse, stands]

theorem SourceUnit.uses_accessTo {u : SourceUnit} {stmts : List NodeId} {n : NodeId}
    (stands : n ∈ stmts) : (u.accessTo stmts).uses n = (u.defUseOf n).uses := by
  simp [accessTo, Access.ofTable, u.lookup_defUse, stands]

theorem SourceUnit.accessTo_distinct (u : SourceUnit) (stmts : List NodeId) :
    (u.accessTo stmts).Distinct := by
  have row : ∀ n, ((u.accessTo stmts).defs n).Nodup ∧ ((u.accessTo stmts).uses n).Nodup := by
    intro n
    simp only [SourceUnit.accessTo, Access.ofTable, u.lookup_defUse]
    split
    · exact ⟨(u.defUseOf_distinct n).defs, (u.defUseOf_distinct n).uses⟩
    · exact ⟨List.nodup_nil, List.nodup_nil⟩
  exact ⟨fun n => (row n).1, fun n => (row n).2⟩

end Retarget
