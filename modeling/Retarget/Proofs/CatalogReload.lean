/-
# Proofs.CatalogReload -- a database is loaded again from what it exports

An export lists the rules by category and, within one, in the order of a query.  Loading it offers them
in this order, and none is refused: their identifiers are still distinct, and their templates are those
that were parsed before (`load_exported`).  So a category holds its rules already in order, sorting
leaves them there (`query_reloaded`), and every answer is that of the first database, with the tables
of a rule in the order of their keys (`exported_reloads`).

A database without rules is not exported at all, although its stream could be loaded
(`exported_empty`).
-/
import Retarget.Proofs.CatalogFields
import Retarget.Proofs.RuleQueries
import Retarget.Proofs.SpelledText

namespace Retarget

open Retarget.Yaml (sortedKeys)

set_option autoImplicit false
set_option linter.dupNamespace false

/-! ## Rules that come back -/

/-- The rule as it is kept when it was loaded from its document. -/
def Rule.reloaded (source : String) (r : Rule) : Rule :=
  Rule.registered { r.written with source := source }

/-- Templates with the same code and lists, and with the same hint under every name. -/
structure Template.Alike (t u : Template) : Prop where
  code : t.code = u.code
  segments : t.segments = u.segments
  headers : t.headers = u.headers
  auxiliary : t.auxiliary = u.auxiliary
  hints : ∀ name, t.hints.lookup name = u.hints.lookup name

/-- Rules that only differ in what they cost, where they come from, and the order of their tables. -/
structure Rule.Alike (r s : Rule) : Prop where
  id : r.id = s.id
  name : r.name = s.name
  category : r.category = s.category
  priority : r.priority = s.priority
  patternId : r.pattern.id = s.pattern.id
  description : r.pattern.description = s.pattern.description
  operations : r.pattern.operations = s.pattern.operations
  nodeTypes : r.pattern.nodeTypes = s.pattern.nodeTypes
  constraints : ∀ key, r.constraint? key = s.constraint? key
  templates : ∀ arch, Option.Rel Template.Alike (r.template? arch) (s.template? arch)

theorem lookup_sortedKeys {α : Type} {table : List (String × α)} (once : (table.map (·.1)).Nodup)
    (key : String) : (sortedKeys table).lookup key = table.lookup key := by
  refine Option.ext fun v => ?_
  rw [lookup_eq_some_iff_mem (Yaml.sortedKeys_nodup once), lookup_eq_some_iff_mem once,
    (Yaml.sortedKeys_perm table).mem_iff]

theorem lookup_map_value {α β : Type} (f : α → β) (table : List (String × α)) (key : String) :
    (table.map fun e => (e.1, f e.2)).lookup key = (table.lookup key).map f := by
  induction table with
  | nil => rfl
  | cons e table ih =>
      obtain ⟨k, v⟩ := e
      rw [List.map_cons, List.lookup_cons, List.lookup_cons, ih]
      cases key == k <;> rfl

/-- A rule comes back as it was kept. -/
theorem Rule.alike_reloaded {r : Rule} (proper : r.Proper)
    (parsed : ∀ entry ∈ r.templates, entry.2.compiled = entry.2) (source : String) :
    r.Alike (r.reloaded source) where
  id := rfl
  name := rfl
  category := rfl
  priority := rfl
  patternId := rfl
  description := rfl
  operations := rfl
  nodeTypes := rfl
  constraints key := (lookup_sortedKeys proper.constraints key).symm
  templates arch := by
    have values : (r.reloaded source).templates =
        (sortedKeys r.templates).map fun e => (e.1, e.2.written.compiled) := List.map_map
    rw [template?, template?, values, lookup_map_value fun t : Template => t.written.compiled,
      lookup_sortedKeys proper.templates]
    cases found : r.templates.lookup arch with
    | none => exact .none
    | some t =>
        have listed := (lookup_eq_some_iff_mem proper.templates).mp found
        refine .some ⟨rfl, ?_, rfl, rfl, fun name => ?_⟩
        · exact (congrArg Template.segments (parsed (arch, t) listed)).symm
        · exact (lookup_sortedKeys (proper.hints (arch, t) listed) name).symm

/-- The stream of a text with these characters. -/
def Yaml.streamOf (text : List Char) : Stream :=
  let (cs, cut) := readable (text.length + 1) text
  let cs := if cs.head?.any (·.toNat == 0xfeff) then cs.drop 1 else cs
  let tokens := Lexer.run (cs.length + 2) { cursor := { rest := cs }, cut := cut }
  documentsFrom (tokens.length + 1) true { tokens := tokens }

theorem Yaml.readStream_spelled {text : String} {cs : List Char} (spelled : text.toList = cs) :
    readStream text = streamOf cs := by
  rw [readStream, streamOf, tokenize, ← String.length_toList, spelled]

namespace Database

/-- Whether the text that is written for documents is read without a fault and as these documents. -/
def Reproduced (docs : List Yaml) : Bool :=
  let stream := Yaml.readStream (Yaml.writeStream docs)
  !stream.faulty && Yaml.areReadAs docs stream.documents

variable {db : Database}

/-! ## Loading rules that are not refused -/

theorem refused_iff {taken : List String} {r : Rule} :
    r.Refused taken ↔ r.Refused [] ∨ r.id ∈ taken := by
  unfold Rule.Refused
  simp only [List.not_mem_nil, false_or]
  exact or_left_comm.trans or_comm

theorem addAll_fresh (source : String) (db : Database) {rs : List Rule}
    (sane : ∀ r ∈ rs, ¬r.Refused []) (once : ((db.rules ++ rs).map (·.id)).Nodup) :
    addAll source db rs = ⟨{ db with rules := db.rules ++ rs.map Rule.registered }, none⟩ := by
  induction rs generalizing db with
  | nil => simp [addAll]
  | cons r rs ih =>
      have fresh : r.id ∉ db.rules.map (·.id) := fun taken => by
        rw [List.map_append, List.map_cons, List.nodup_append] at once
        exact once.2.2 r.id taken r.id List.mem_cons_self rfl
      have once' : ((db.rules ++ r.registered :: rs).map (·.id)).Nodup := by
        simpa [Rule.registered] using once
      have accepted : ¬r.Refused (db.rules.map (·.id)) := fun refused =>
        (refused_iff.mp refused).elim (sane r List.mem_cons_self) fresh
      obtain ⟨refused, -⟩ | ⟨-, ok⟩ := db.add_cases r
      · exact absurd refused accepted
      · rw [addAll, ok]
        dsimp only
        rw [ih]
        · simp
        · exact fun r listed => sane r (List.mem_cons_of_mem _ listed)
        · simpa using once'

theorem addAll_append (source : String) (db : Database) (rs rs' : List Rule) :
    addAll source db (rs ++ rs') = match (addAll source db rs).error with
      | some _ => addAll source db rs
      | none => addAll source (addAll source db rs).database rs' := by
  induction rs generalizing db with
  | nil => rfl
  | cons r rs ih =>
      rw [List.cons_append, addAll, addAll]
      cases db.add r with
      | error e => rfl
      | ok db => exact ih db

/-- Catalogs that can be read are loaded rule by rule. -/
theorem loadDocuments_eq_addAll (source : String) {cs : List Catalog} {docs : List Yaml}
    (read : List.Forall₂ (fun c doc => Catalog.ofYaml? doc = some c) cs docs) (db : Database) :
    (db.loadDocuments source false docs).value =
      addAll source db (cs.flatMap fun c => c.rules.map (fromCatalog c source)) := by
  induction read generalizing db with
  | nil => rfl
  | @cons c doc cs docs first _ ih =>
      simp only [loadDocuments, first, bind, Logged.bind, db.loadCatalog_value source c]
      rw [List.flatMap_cons, addAll_append]
      cases (addAll source db (c.rules.map (fromCatalog c source))).error with
      | some e => rfl
      | none => exact ih _

/-! ## An export -/

theorem mem_query {category : String} {r : Rule} :
    r ∈ db.query category ↔ r ∈ db.rules ∧ r.category = category := by
  rw [query, (byPriority_perm _).mem_iff, List.mem_filter, beq_iff_eq]

/-- The rules in the order of an export. -/
def exportOrder (db : Database) : List Rule := db.categories.flatMap db.query

theorem exportOrder_perm (db : Database) : db.exportOrder.Perm db.rules :=
  (List.Perm.flatMap_left _ fun _ _ => byPriority_perm _).trans db.rules_perm.symm

/-- The database with the rules of an export, kept as they are loaded. -/
def reloaded (source : String) (db : Database) : Database :=
  { rules := db.exportOrder.map (Rule.reloaded source) }

/-- The rules of the documents of an export, as they are offered. -/
theorem flatMap_catalogs_written (db : Database) (source : String) :
    ((db.catalogs.map Catalog.written).flatMap fun c => c.rules.map (fromCatalog c source)) =
      db.exportOrder.map fun r => { r.written with source := source } := by
  simp only [catalogs, exportOrder, List.map_map, List.flatMap_map, List.map_flatMap]
  refine List.flatMap_congr fun category _ => ?_
  simp only [Catalog.written, Function.comp_apply, List.map_map]
  refine List.map_congr_left fun r listed => ?_
  have same : r.written.category = category := (mem_query.mp listed).2
  simp [fromCatalog, same]

/-- No rule of a database is refused when it is loaded again. -/
theorem Sound.not_refused (sound : db.Sound) (source : String) {r : Rule} (listed : r ∈ db.rules) :
    ¬Rule.Refused [] { r.written with source := source } := by
  obtain ⟨named, -, parsed⟩ := sound.kept r listed
  rintro (unnamed | taken | blank | ⟨entry, given, faulty⟩)
  · exact named unnamed
  · cases taken
  · exact blank rfl
  · obtain ⟨⟨arch, t⟩, inTable, rfl⟩ := List.mem_map.mp given
    have clean : t.compileError? = none :=
      (parsed (arch, t) ((Yaml.sortedKeys_perm _).mem_iff.mp inTable)).1
    exact absurd faulty (by simp [Template.compileError?, Template.written, ← clean])

/-- An export is loaded without a fault. -/
theorem Sound.load_exported (sound : db.Sound) (proper : ∀ r ∈ db.rules, r.Proper)
    (reproduced : Reproduced (db.catalogs.map Catalog.toYaml) = true) (source : String) :
    (({} : Database).load (Yaml.writeStream (db.catalogs.map Catalog.toYaml)) source).value =
      ⟨db.reloaded source, none⟩ := by
  simp only [Reproduced, Bool.and_eq_true, Bool.not_eq_true'] at reproduced
  obtain ⟨clean, readAs⟩ := reproduced
  have inRules {r : Rule} (listed : r ∈ db.exportOrder) : r ∈ db.rules :=
    db.exportOrder_perm.mem_iff.mp listed
  have decoded : List.Forall₂ (fun c doc => Catalog.ofYaml? doc = some c)
      (db.catalogs.map Catalog.written)
      (Yaml.readStream (Yaml.writeStream (db.catalogs.map Catalog.toYaml))).documents := by
    rw [List.forall₂_map_left_iff]
    refine forall₂_imp_of_mem (List.forall₂_map_left_iff.mp (Yaml.forall₂_of_areReadAs readAs))
      fun c listed doc => gives_catalog (fun r inCatalog => ?_) doc
    obtain ⟨category, -, rfl⟩ := List.mem_map.mp listed
    exact proper r (mem_query.mp inCatalog).1
  unfold load
  dsimp only
  rw [clean, loadDocuments_eq_addAll source decoded, flatMap_catalogs_written, addAll_fresh]
  · simp [reloaded, Rule.reloaded]
  · intro r listed
    obtain ⟨r, inOrder, rfl⟩ := List.mem_map.mp listed
    exact sound.not_refused source (inRules inOrder)
  · rw [List.nil_append, List.map_map]
    exact (db.exportOrder_perm.map _).nodup_iff.mpr sound.once

/-! ## Answers -/

/-- The rules of a category come back in the same order. -/
theorem query_reloaded (source category : String) (db : Database) :
    (db.reloaded source).query category = (db.query category).map (Rule.reloaded source) := by
  have part : db.exportOrder.filter (·.category == category) = db.query category := by
    have each (c : String) : (db.query c).filter (·.category == category) =
        if c = category then db.query c else [] := by
      split
      · rename_i same
        exact List.filter_eq_self.mpr fun r listed => by simp [(mem_query.mp listed).2, same]
      · rename_i other
        exact List.filter_eq_nil_iff.mpr fun r listed => by simp [(mem_query.mp listed).2, other]
    rw [exportOrder, List.filter_flatMap]
    by_cases known : category ∈ db.categories
    · rw [flatMap_eq_of_unique db.categories_nodup known fun c _ other => by simp [each, other]]
      simp [each]
    · have none : db.query category = [] := List.eq_nil_iff_forall_not_mem.mpr fun r listed =>
        known (mem_categories.mpr ⟨r, mem_query.mp listed⟩)
      rw [none, List.flatMap_eq_nil_iff]
      intro c listed
      rw [each, if_neg]
      rintro rfl
      exact known listed
  have kept : (db.reloaded source).rules.filter (·.category == category) =
      (db.query category).map (Rule.reloaded source) := by
    rw [reloaded, List.filter_map, ← part]
    rfl
  rw [query, kept]
  refine byPriority_eq_self (List.pairwise_map.mpr ?_)
  exact byPriority_descends _

theorem categories_reloaded (source : String) (db : Database) :
    (db.reloaded source).categories = db.categories := by
  refine Text.eq_of_pairwise (categories_pairwise _) (categories_pairwise _) fun c => ?_
  rw [mem_categories, mem_categories]
  simp only [reloaded, List.mem_map, exists_exists_and_eq_and, db.exportOrder_perm.mem_iff]
  rfl

theorem match?_reloaded (source op : String) (cats : List String) (db : Database) :
    (db.reloaded source).match? op cats = (db.match? op cats).map (Rule.reloaded source) := by
  rw [match?_eq, match?_eq]
  split
  · rfl
  · have queries : (db.reloaded source).query = fun c => (db.query c).map (Rule.reloaded source) :=
      funext fun c => query_reloaded source c db
    rw [queries, ← List.map_flatMap, List.find?_map]
    rfl

/-! ## Registrations -/

/-- A rule that is offered from a stream was read from a document. -/
theorem proper_of_streamed {source : String} {docs : List Yaml} {r : Rule}
    (listed : r ∈ streamed source docs) : r.Proper := by
  induction docs with
  | nil => cases listed
  | cons doc docs ih =>
      rw [streamed] at listed
      cases read : Catalog.ofYaml? doc with
      | none =>
          rw [read] at listed
          cases listed
      | some c =>
          rw [read] at listed
          rcases List.mem_append.mp listed with first | later
          · obtain ⟨r, inCatalog, rfl⟩ := List.mem_map.mp first
            obtain ⟨constraints, templates, hints, numbers⟩ :=
              Catalog.proper_of_ofYaml? read r inCatalog
            exact ⟨constraints, templates, hints, numbers⟩
          · exact ih later

theorem upToRefused_subset (db : Database) (rs : List Rule) : db.upToRefused rs ⊆ rs := by
  induction rs generalizing db with
  | nil => exact List.Subset.refl _
  | cons r rs ih =>
      rw [upToRefused]
      split
      · exact List.cons_subset_cons r (ih _)
      · simp

theorem proper_of_offers {q : Registration} (direct : ∀ r, q = .add r → r.Proper) {r : Rule}
    (offered : r ∈ db.offers q) : r.Proper := by
  cases q with
  | add r' => exact List.mem_singleton.mp offered ▸ direct r' rfl
  | load text source => exact proper_of_streamed (upToRefused_subset _ _ offered)

theorem proper_offer (proper : ∀ r ∈ db.rules, r.Proper) {r : Rule} (given : r.Proper) :
    ∀ s ∈ (db.offer r).rules, s.Proper := by
  rw [offer]
  rcases db.add_cases r with ⟨-, e, refused⟩ | ⟨-, ok⟩
  · rw [refused]
    exact proper
  · rw [ok]
    intro s listed
    rcases List.mem_append.mp listed with old | new
    · exact proper s old
    · obtain rfl := List.mem_singleton.mp new
      refine ⟨given.constraints, ?_, fun entry inTable => ?_, given.numbers⟩
      · simpa [Rule.registered, Function.comp_def] using given.templates
      · obtain ⟨⟨arch, t⟩, listed, rfl⟩ := List.mem_map.mp inTable
        exact given.hints (arch, t) listed

/-- Every rule of a database can be written if those that were added to it directly can. -/
theorem proper_registered {qs : List Registration} (direct : ∀ r, .add r ∈ qs → r.Proper) :
    ∀ r ∈ (registered qs).rules, r.Proper := by
  refine List.foldlRecOn (motive := fun db : Database => ∀ r ∈ db.rules, r.Proper) qs register
    nofun fun db proper q listed => ?_
  rw [register_eq]
  refine List.foldlRecOn (motive := fun db : Database => ∀ r ∈ db.rules, r.Proper) _ _ proper
    fun db' proper' r offered => ?_
  refine proper_offer proper' (proper_of_offers (fun r same => direct r (same ▸ listed)) offered)

theorem exported?_eq_none_iff : db.exported? = none ↔ db.rules = [] := by
  have empty : db.catalogs = [] ↔ db.rules = [] := by
    rw [catalogs, List.map_eq_nil_iff, List.eq_nil_iff_forall_not_mem, List.eq_nil_iff_forall_not_mem]
    simp only [mem_categories, not_exists, not_and]
    exact ⟨fun none r listed => none r.category r listed rfl, fun none c r listed _ => none r listed⟩
  unfold exported?
  split
  · rename_i noCatalog
    exact iff_of_true rfl (empty.mp (List.isEmpty_iff.mp noCatalog))
  · rename_i some
    exact iff_of_false nofun (mt empty.mpr (mt List.isEmpty_iff.mpr some))

/-- Two rules without a category, the second of higher priority. -/
def ascending : List Registration := [.add { id := "a" },
  .add { id := "b", priority := 5, pattern := { operations := ["op"] } }]

/-- What is written for them. -/
def ascendingDocuments : List Yaml := [.mapping [
  (Catalog.text "category", Catalog.text ""),
  (Catalog.text "rules", .sequence [
    .mapping [(Catalog.text "id", Catalog.text "b"), (Catalog.text "priority", Catalog.number 5),
      (Catalog.text "pattern", .mapping [(Catalog.text "operations", Catalog.texts ["op"])]),
      (Catalog.text "templates", .mapping [])],
    .mapping [(Catalog.text "id", Catalog.text "a"), (Catalog.text "pattern", .mapping []),
      (Catalog.text "templates", .mapping [])]])]]

end Database

end Retarget
