/-
# Proofs.CatalogFields -- a catalog is read from its document

A rule can be written if its tables list a key once and its numbers have 64 bits (`Rule.Proper`).
Then whatever is read for its document is the rule, its tables in the order of their keys
(`Rule.written`), and likewise for a catalog (`gives_catalog`).  What is read from any document can be
written again (`Rule.proper_of_ofYaml?`).
-/
import Retarget.Proofs.FieldReading

namespace Retarget

open Retarget.Text (minInt64 maxInt64)
open Retarget.Yaml

set_option autoImplicit false
set_option linter.dupNamespace false

/-! ## What is written is read -/

/-- The template as it is read from its document. -/
def Template.written (t : Template) : Template :=
  { t with hints := sortedKeys t.hints, segments := [] }

/-- The pattern as it is read from its document. -/
def Pattern.written (p : Pattern) : Pattern := { p with constraints := sortedKeys p.constraints }

/-- The rule as it is read from its document. -/
def Rule.written (r : Rule) : Rule :=
  { r with
    pattern := r.pattern.written
    templates := (sortedKeys r.templates).map fun (arch, t) => (arch, t.written)
    blanks := []
    source := "" }

/-- The catalog as it is read from its document. -/
def Catalog.written (c : Catalog) : Catalog := { c with rules := c.rules.map Rule.written }

/-- A rule that can be written: its tables list a key once, and its numbers have 64 bits. -/
structure Rule.Proper (r : Rule) : Prop where
  constraints : (r.pattern.constraints.map (·.1)).Nodup
  templates : (r.templates.map (·.1)).Nodup
  hints : ∀ entry ∈ r.templates, (entry.2.hints.map (·.1)).Nodup
  numbers : ∀ n ∈ [r.priority, r.speedup, r.sizeImpact], minInt64 ≤ n ∧ n ≤ maxInt64

theorem gives_template {t : Template} (once : (t.hints.map (·.1)).Nodup) :
    Gives Template.ofYaml? (Catalog.templateYaml t) t.written := by
  intro n read
  obtain ⟨fs, known, found⟩ :=
    fields?_of_isReadAs ["code", "headers", "auxiliary", "hints"] (by simp) (by simp) read
  have code : textField fs "code" = some t.code :=
    field_eq (.held (gives_text t.code)) (found "code" _ (by simp))
  have headers := field_eq (gives_optTexts t.headers) (found "headers" _ (by simp))
  have auxiliary := field_eq (gives_optTexts t.auxiliary) (found "auxiliary" _ (by simp))
  have hints := field_eq (gives_optMap once) (found "hints" _ (by simp))
  simp only [Template.ofYaml?, known, code, headers, auxiliary, hints,
    Option.bind_eq_bind, Option.bind_some, Option.pure_def]
  rfl

theorem bind_of_some {α β : Type} {x : Option α} {a : α} {f : α → Option β} {b : Option β}
    (found : x = some a) (rest : f a = b) : (x >>= f) = b := by
  rw [found]
  exact rest

theorem gives_pattern {p : Pattern} (once : (p.constraints.map (·.1)).Nodup) :
    Gives Pattern.ofYaml? (Catalog.patternYaml p) p.written := by
  intro n read
  obtain ⟨fs, known, found⟩ := fields?_of_isReadAs
    ["id", "description", "operations", "node_types", "constraints"] (by simp) (by simp) read
  have id : textField fs "id" = some p.id :=
    field_eq (gives_optText p.id) (found "id" _ (by simp))
  have description : textField fs "description" = some p.description :=
    field_eq (gives_optText p.description) (found "description" _ (by simp))
  have operations := field_eq (gives_optTexts p.operations) (found "operations" _ (by simp))
  have nodeTypes := field_eq (gives_optTexts p.nodeTypes) (found "node_types" _ (by simp))
  have constraints := field_eq (gives_optMap once) (found "constraints" _ (by simp))
  exact bind_of_some known (bind_of_some id (bind_of_some description (bind_of_some operations
    (bind_of_some nodeTypes (bind_of_some constraints rfl)))))

/-- The templates of a rule are read one by one, and none of them is blank. -/
theorem templates_read {r : Rule} (proper : r.Proper) {fs : List (String × Yaml)}
    (found : Option.Rel (fun v v' : Yaml => v.isReadAs v' = true)
      (some (Yaml.mapping (tableEntries Catalog.templateYaml (sortedKeys r.templates))))
      (fs.lookup "templates")) :
    ∃ table, field fs "templates" table? [] = some table ∧
      table.filter (fun e => !e.2.isNull) = table ∧ table.filter (fun e => e.2.isNull) = [] ∧
      (table.mapM fun (arch, t) => do return (arch, ← Template.ofYaml? t)) =
        some r.written.templates := by
  unfold field
  generalize fs.lookup "templates" = given at found
  cases found with
  | some read =>
      obtain ⟨table, tables, readAs⟩ :=
        table?_of_isReadAs (sortedKeys_nodup proper.templates) read
      have full : ∀ e ∈ table, e.2.isNull = false := by
        intro e listed
        obtain ⟨x, -, -, value⟩ := exists_of_mem_forall₂ readAs listed
        obtain ⟨entries, shape, -⟩ := exists_entries_of_isReadAs value
        rw [shape]
        rfl
      refine ⟨table, tables, List.filter_eq_self.mpr fun e listed => by simp [full e listed],
        List.filter_eq_nil_iff.mpr fun e listed => by simp [full e listed],
        mapM_eq_some_of_forall₂ readAs ?_⟩
      rintro ⟨arch, t⟩ listed ⟨arch', n'⟩ ⟨rfl, value⟩
      have once := proper.hints (arch, t) ((sortedKeys_perm _).mem_iff.mp listed)
      simp [gives_template once n' value]

theorem gives_rule {r : Rule} (proper : r.Proper) :
    Gives Rule.ofYaml? (Catalog.ruleYaml r) r.written := by
  intro n read
  obtain ⟨fs, known, found⟩ := fields?_of_isReadAs Rule.fieldNames (by simp)
    (by simp [Rule.fieldNames]) read
  have fits (k : Int) (listed : k ∈ [r.priority, r.speedup, r.sizeImpact]) :=
    gives_optNumber (proper.numbers k listed)
  have id : textField fs "id" = some r.id :=
    field_eq (.held (gives_text r.id)) (found "id" _ (by simp))
  have name : textField fs "name" = some r.name :=
    field_eq (gives_optText r.name) (found "name" _ (by simp))
  have category : textField fs "category" = some r.category :=
    field_eq (gives_optText r.category) (found "category" _ (by simp))
  have priority := field_eq (fits r.priority (by simp)) (found "priority" _ (by simp))
  have pattern : field fs "pattern" Pattern.ofYaml? {} = some r.pattern.written :=
    field_eq (.held (gives_pattern proper.constraints)) (found "pattern" _ (by simp))
  have speedup := field_eq (fits r.speedup (by simp)) (found "speedup" _ (by simp))
  have sizeImpact := field_eq (fits r.sizeImpact (by simp)) (found "size_impact" _ (by simp))
  obtain ⟨table, tables, full, blank, templates⟩ :=
    templates_read proper (found "templates" _ (by simp [tableEntries]))
  rw [← full] at templates
  refine bind_of_some known (bind_of_some tables (bind_of_some id (bind_of_some name
    (bind_of_some category (bind_of_some priority (bind_of_some pattern (bind_of_some templates
    (bind_of_some speedup (bind_of_some sizeImpact ?_)))))))))
  rw [show table.filter (fun (_, t) => t.isNull) = [] from blank]
  rfl

/-- A catalog of rules that can be written is read from its document. -/
theorem gives_catalog {c : Catalog} (proper : ∀ r ∈ c.rules, r.Proper) :
    Gives Catalog.ofYaml? c.toYaml c.written := by
  intro n read
  obtain ⟨fs, known, found⟩ := fields?_of_isReadAs ["category", "rules"] (by simp) (by simp) read
  have category : textField fs "category" = some c.category :=
    field_eq (.held (gives_text c.category)) (found "category" _ (by simp))
  have each : Gives (fun n => do (← n.items?).mapM Rule.ofYaml?)
      (.sequence (c.rules.map Catalog.ruleYaml)) (c.rules.map Rule.written) := by
    intro n read
    obtain ⟨items, rfl, pairs⟩ := exists_items_of_isReadAs read
    simp only [items?, resolved?, Option.bind_eq_bind, Option.bind_some]
    exact mapM_eq_some_of_forall₂ (List.forall₂_map_left_iff.mp pairs) fun r listed item value =>
      gives_rule (proper r listed) item value
  have rules : field fs "rules" (fun n => do (← n.items?).mapM Rule.ofYaml?) [] =
      some (c.rules.map Rule.written) := field_eq (.held each) (found "rules" _ (by simp))
  simp only [Option.bind_eq_bind] at rules
  simp only [Catalog.ofYaml?, known, category, rules, Option.bind_eq_bind,
    Option.bind_some, Option.pure_def]
  rfl

/-! ## What is read can be written -/

theorem Template.hints_nodup {n : Yaml} {t : Template} (read : Template.ofYaml? n = some t) :
    (t.hints.map (·.1)).Nodup := by
  simp only [Template.ofYaml?, Option.bind_eq_bind, Option.bind_eq_some_iff, Option.pure_def,
    Option.some.injEq] at read
  obtain ⟨fs, -, code, -, headers, -, auxiliary, -, hints, given, rfl⟩ := read
  exact field_nodup given

theorem Pattern.constraints_nodup {n : Yaml} {p : Pattern} (read : Pattern.ofYaml? n = some p) :
    (p.constraints.map (·.1)).Nodup := by
  simp only [Pattern.ofYaml?, Option.bind_eq_bind, Option.bind_eq_some_iff, Option.pure_def,
    Option.some.injEq] at read
  obtain ⟨fs, -, id, -, description, -, operations, -, nodeTypes, -, constraints, given, rfl⟩ := read
  exact field_nodup given

/-- What is read from any document can be written. -/
theorem Rule.proper_of_ofYaml? {n : Yaml} {r : Rule} (read : Rule.ofYaml? n = some r) :
    r.Proper := by
  obtain ⟨fs, -, read⟩ := Option.bind_eq_some_iff.mp read
  obtain ⟨table, tables, read⟩ := Option.bind_eq_some_iff.mp read
  obtain ⟨id, -, read⟩ := Option.bind_eq_some_iff.mp read
  obtain ⟨name, -, read⟩ := Option.bind_eq_some_iff.mp read
  obtain ⟨category, -, read⟩ := Option.bind_eq_some_iff.mp read
  obtain ⟨priority, hasPriority, read⟩ := Option.bind_eq_some_iff.mp read
  obtain ⟨pattern, hasPattern, read⟩ := Option.bind_eq_some_iff.mp read
  obtain ⟨templates, each, read⟩ := Option.bind_eq_some_iff.mp read
  obtain ⟨speedup, hasSpeedup, read⟩ := Option.bind_eq_some_iff.mp read
  obtain ⟨sizeImpact, hasSize, read⟩ := Option.bind_eq_some_iff.mp read
  obtain rfl := Option.some.inj read
  have once : (table.map (·.1)).Nodup := by
    obtain ⟨n, read⟩ | rfl := field_cases tables
    · exact table?_nodup read
    · exact .nil
  have keys : (table.filter fun e => !e.2.isNull).map (·.1) = templates.map (·.1) := by
    refine keys_eq_of_mapM (fun e e' value => ?_) each
    obtain ⟨t, -, same⟩ := Option.bind_eq_some_iff.mp value
    rw [← Option.some.inj same]
  refine ⟨?_, ?_, ?_, ?_⟩
  · obtain ⟨n, read⟩ | rfl := field_cases hasPattern
    · exact Pattern.constraints_nodup read
    · exact .nil
  · exact keys ▸ once.sublist (List.filter_sublist.map _)
  · intro entry listed
    obtain ⟨e, -, value⟩ := exists_of_mem_forall₂ (forall₂_of_mapM each) listed
    obtain ⟨t, read, same⟩ := Option.bind_eq_some_iff.mp value
    rw [← Option.some.inj same]
    exact Template.hints_nodup read
  · simp only [List.forall_mem_cons, List.not_mem_nil, false_imp_iff, implies_true, and_true]
    exact ⟨field_fits hasPriority, field_fits hasSpeedup, field_fits hasSize⟩

theorem Catalog.proper_of_ofYaml? {n : Yaml} {c : Catalog} (read : Catalog.ofYaml? n = some c) :
    ∀ r ∈ c.rules, r.Proper := by
  simp only [Catalog.ofYaml?, Option.bind_eq_bind, Option.bind_eq_some_iff, Option.pure_def,
    Option.some.injEq] at read
  obtain ⟨fs, -, category, -, rules, given, rfl⟩ := read
  intro r listed
  obtain ⟨n, items⟩ | rfl := field_cases given
  · obtain ⟨nodes, -, each⟩ := Option.bind_eq_some_iff.mp items
    obtain ⟨n, -, value⟩ := exists_of_mem_forall₂ (forall₂_of_mapM each) listed
    exact Rule.proper_of_ofYaml? value
  · cases listed

end Retarget
