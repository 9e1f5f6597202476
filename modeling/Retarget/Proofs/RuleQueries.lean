/-
# Proofs.RuleQueries -- what a rule database answers after any registrations

Rules come one by one or from streams (`Registration`).  A stream is no more than the rules of its
catalogs, offered in order up to the first that is refused (`load_offers`), so a database is told by
the rules it was offered: it keeps those it accepted, in that order (`registered_rules`).

A query sorts what is kept by priority, and the sort is stable.  So the rules of a category stand by
descending priority and equals in the order of registration, and there is one such list
(`query_eq_iff`).  A match searches these lists one after the other (`match?_eq_some_iff`).
-/
import Mathlib.Algebra.Ring.Nat
import Retarget.Proofs.Grouping
import Retarget.Proofs.WordList
import Retarget.Rule.Catalog

namespace Retarget

set_option autoImplicit false
set_option linter.dupNamespace false

/-- A way to put rules into a database. -/
inductive Registration where
  | add (rule : Rule)
  | load (text source : String)

/-- The rule as a database keeps it, with its templates parsed. -/
def Rule.registered (r : Rule) : Rule :=
  { r with templates := r.templates.map fun (arch, t) => (arch, t.compiled) }

/-- A rule is refused if it has no identifier or one that is taken, names a target without a
template, or has a template that cannot be parsed. -/
def Rule.Refused (taken : List String) (r : Rule) : Prop :=
  r.id = "" ∨ r.id ∈ taken ∨ r.blanks ≠ [] ∨
    ∃ entry ∈ r.templates, entry.2.compileError?.isSome = true

namespace Database

/-! ## Registrations -/

/-- The database after a rule was offered to it. -/
def offer (db : Database) (r : Rule) : Database :=
  match db.add r with
  | .ok db => db
  | .error _ => db

def register (db : Database) : Registration → Database
  | .add r => db.offer r
  | .load text source => (db.load text source).value.database

/-- The database after registrations with an empty one. -/
def registered (rs : List Registration) : Database := rs.foldl register {}

/-- The rules of a stream, up to the first document that is no catalog. -/
def streamed (source : String) : List Yaml → List Rule
  | [] => []
  | doc :: docs =>
    match Catalog.ofYaml? doc with
    | none => []
    | some c => c.rules.map (fromCatalog c source) ++ streamed source docs

/-- The rules that are offered when the first that is refused is the last. -/
def upToRefused (db : Database) : List Rule → List Rule
  | [] => []
  | r :: rs =>
    match db.add r with
    | .ok db => r :: db.upToRefused rs
    | .error _ => [r]

/-- The rules a registration offers. -/
def offers (db : Database) : Registration → List Rule
  | .add r => [r]
  | .load text source => db.upToRefused (streamed source (Yaml.readStream text).documents)

/-- The rules that registrations offer one after the other. -/
def offered (db : Database) : List Registration → List Rule
  | [] => []
  | r :: rs => db.offers r ++ (db.register r).offered rs

/-- The rules that are accepted, as they are kept. -/
def accepted (db : Database) : List Rule → List Rule
  | [] => []
  | r :: rs =>
    match db.add r with
    | .ok db => r.registered :: db.accepted rs
    | .error _ => db.accepted rs

variable {db : Database} {r : Rule}

theorem templateError?_isSome_iff : (templateError? r).isSome = true ↔
    r.blanks ≠ [] ∨ ∃ entry ∈ r.templates, entry.2.compileError?.isSome = true := by
  unfold templateError?
  cases r.blanks with
  | nil => simp [List.findSome?_isSome_iff]
  | cons arch blanks => simp

/-- A rule is refused, or put last. -/
theorem add_cases (db : Database) (r : Rule) :
    (r.Refused (db.rules.map (·.id)) ∧ ∃ e, db.add r = .error e) ∨
      (¬r.Refused (db.rules.map (·.id)) ∧
        db.add r = .ok { db with rules := db.rules ++ [r.registered] }) := by
  have taken : (db.rule? r.id).isSome = true ↔ r.id ∈ db.rules.map (·.id) := by
    simp [rule?]
  unfold Rule.Refused
  rw [← taken, ← templateError?_isSome_iff, add]
  by_cases named : r.id = ""
  · simp [named]
  · cases found : (db.rule? r.id).isSome with
    | true => simp [named]
    | false => cases faulty : templateError? r <;> simp [named, Rule.registered]

theorem offer_of_error {e : RuleError} (refused : db.add r = .error e) : db.offer r = db := by
  rw [offer, refused]

theorem rules_offer (db : Database) (rs : List Rule) :
    (rs.foldl offer db).rules = db.rules ++ db.accepted rs := by
  induction rs generalizing db with
  | nil => simp [accepted]
  | cons r rs ih =>
      rw [List.foldl_cons, ih, accepted, offer]
      rcases db.add_cases r with ⟨-, e, refused⟩ | ⟨-, ok⟩
      · rw [refused]
      · rw [ok]
        simp

/-! ## Streams -/

/-- Rules are offered up to the first that is refused, and an error is told if there is one. -/
theorem addAll_spec (source : String) (db : Database) (rs : List Rule) :
    (addAll source db rs).database = (db.upToRefused rs).foldl offer db ∧
      ∀ more, db.upToRefused (rs ++ more) = if (addAll source db rs).error.isSome = true
        then db.upToRefused rs
        else db.upToRefused rs ++ (addAll source db rs).database.upToRefused more := by
  induction rs generalizing db with
  | nil => exact ⟨rfl, fun more => rfl⟩
  | cons r rs ih =>
      rcases db.add_cases r with ⟨-, e, refused⟩ | ⟨-, ok⟩
      · simp [addAll, upToRefused, refused, offer]
      · obtain ⟨database, append⟩ := ih { db with rules := db.rules ++ [r.registered] }
        refine ⟨?_, fun more => ?_⟩
        · simp [addAll, upToRefused, ok, offer, database]
        · simp only [addAll, List.cons_append, upToRefused, ok]
          rw [append more]
          split <;> rfl

theorem loadCatalog_value (db : Database) (source : String) (c : Catalog) :
    (db.loadCatalog source c).value = addAll source db (c.rules.map (fromCatalog c source)) := by
  rw [loadCatalog]
  cases (addAll source db (c.rules.map (fromCatalog c source))).error <;> rfl

theorem loadDocuments_database (source : String) (faulty : Bool) (db : Database) (docs : List Yaml) :
    (db.loadDocuments source faulty docs).value.database =
      (db.upToRefused (streamed source docs)).foldl offer db := by
  induction docs generalizing db with
  | nil => rfl
  | cons doc docs ih =>
      rw [loadDocuments, streamed]
      cases Catalog.ofYaml? doc with
      | none => rfl
      | some c =>
          obtain ⟨database, append⟩ :=
            addAll_spec source db (c.rules.map (fromCatalog c source))
          have value := db.loadCatalog_value source c
          simp only [bind, Logged.bind, value, append]
          cases (addAll source db (c.rules.map (fromCatalog c source))).error with
          | some e => simpa [pure] using database
          | none => simp [ih, database]

/-- Loading a stream is offering its rules. -/
theorem load_offers (db : Database) (text source : String) :
    (db.load text source).value.database = (db.offers (.load text source)).foldl offer db :=
  loadDocuments_database source _ db _

theorem register_eq (db : Database) (q : Registration) :
    db.register q = (db.offers q).foldl offer db := by
  cases q with
  | add r => rfl
  | load text source => exact load_offers db text source

/-- A database keeps the rules it accepted, in the order in which they were offered. -/
theorem registered_rules (qs : List Registration) :
    (registered qs).rules = ({} : Database).accepted (({} : Database).offered qs) := by
  have run (db : Database) : qs.foldl register db = (db.offered qs).foldl offer db := by
    induction qs generalizing db with
    | nil => rfl
    | cons q qs ih => rw [List.foldl_cons, ih, offered, List.foldl_append, ← register_eq]
  rw [registered, run, rules_offer, List.nil_append]

/-! ## Order -/

/-- One rule goes before another: it has the higher priority, or the same and it is kept before. -/
def Precedes (kept : List Rule) (a b : Rule) : Prop :=
  b.priority < a.priority ∨ a.priority = b.priority ∧ [a, b].Sublist kept

instance (kept : List Rule) (a b : Rule) : Decidable (Precedes kept a b) :=
  inferInstanceAs (Decidable (_ ∨ _ ∧ _))

section Order

variable {α : Type} {l : List α} {a b : α}

theorem pair_sublist_or (inA : a ∈ l) (inB : b ∈ l) (differ : a ≠ b) :
    [a, b].Sublist l ∨ [b, a].Sublist l := by
  induction l with
  | nil => cases inA
  | cons x l ih =>
      rcases List.mem_cons.mp inA with rfl | restA
      · have restB := (List.mem_cons.mp inB).resolve_left differ.symm
        exact .inl ((List.singleton_sublist.mpr restB).cons_cons a)
      · rcases List.mem_cons.mp inB with rfl | restB
        · exact .inr ((List.singleton_sublist.mpr restA).cons_cons b)
        · exact (ih restA restB).imp (·.cons x) (·.cons x)

theorem not_pair_sublist (once : l.Nodup) (pair : [a, b].Sublist l) : ¬[b, a].Sublist l := by
  induction l with
  | nil => cases pair
  | cons x l ih =>
      obtain ⟨fresh, rest⟩ := List.nodup_cons.mp once
      intro swapped
      rcases List.sublist_cons_iff.mp pair with within | ⟨_, split, inB⟩
      · rcases List.sublist_cons_iff.mp swapped with back | ⟨_, split, -⟩
        · exact ih rest within back
        · exact fresh (within.subset (by simp [(List.cons.inj split).1]))
      · obtain ⟨rfl, rfl⟩ := List.cons.inj split
        rcases List.sublist_cons_iff.mp swapped with back | ⟨_, split, -⟩
        · exact fresh (back.subset (by simp))
        · exact fresh ((List.cons.inj split).1 ▸ List.singleton_sublist.mp inB)

end Order

/-- Of rules that are kept once, no two go before each other. -/
theorem Precedes.antisymm {kept : List Rule} {a b : Rule} (once : kept.Nodup)
    (first : Precedes kept a b) : ¬Precedes kept b a := by
  rcases first with higher | ⟨equal, pair⟩
  · rintro (lower | ⟨same, -⟩) <;> omega
  · rintro (lower | ⟨-, swapped⟩)
    · exact absurd lower (by omega)
    · exact not_pair_sublist once pair swapped

theorem byPriority_perm (rules : List Rule) : (byPriority rules).Perm rules :=
  List.mergeSort_perm rules _

theorem priority_trans (a b c : Rule) (ab : decide (b.priority ≤ a.priority) = true)
    (bc : decide (c.priority ≤ b.priority) = true) : decide (c.priority ≤ a.priority) = true := by
  simp only [decide_eq_true_eq] at *
  omega

theorem priority_total (a b : Rule) :
    (decide (b.priority ≤ a.priority) || decide (a.priority ≤ b.priority)) = true := by
  simp only [Bool.or_eq_true, decide_eq_true_eq]
  omega

theorem byPriority_descends (rules : List Rule) :
    (byPriority rules).Pairwise fun a b => b.priority ≤ a.priority :=
  (List.pairwise_mergeSort priority_trans priority_total rules).imp of_decide_eq_true

/-- Rules that descend stay as they are. -/
theorem byPriority_eq_self {rules : List Rule}
    (descend : rules.Pairwise fun a b => b.priority ≤ a.priority) : byPriority rules = rules :=
  List.mergeSort_of_pairwise (descend.imp decide_eq_true)

/-- Sorting by priority keeps the order of equals. -/
theorem byPriority_pairwise {kept rules : List Rule} (once : kept.Nodup)
    (part : rules.Sublist kept) : (byPriority rules).Pairwise (Precedes kept) := by
  have onceSorted : (byPriority rules).Nodup :=
    (byPriority_perm rules).nodup_iff.mpr (once.sublist part)
  rw [List.pairwise_iff_forall_sublist]
  intro a b pair
  have ordered : b.priority ≤ a.priority :=
    List.pairwise_iff_forall_sublist.mp (byPriority_descends rules) pair
  rcases Int.lt_or_eq_of_le ordered with lower | same
  · exact .inl lower
  have inRules {x : Rule} (listed : x ∈ [a, b]) : x ∈ rules :=
    (byPriority_perm rules).mem_iff.mp (pair.subset listed)
  have differ : a ≠ b := by
    rintro rfl
    exact absurd (onceSorted.sublist pair) (by simp)
  rcases pair_sublist_or (inRules (by simp)) (inRules (by simp)) differ with before | after
  · exact .inr ⟨same.symm, before.trans part⟩
  · have swapped := List.pair_sublist_mergeSort priority_trans priority_total
      (decide_eq_true (Int.le_of_eq same.symm)) after
    exact absurd swapped (not_pair_sublist onceSorted pair)

/-! ## Queries -/

/-- What a database keeps: rules with distinct identifiers, none of them empty, whose templates are
all there and parsed. -/
structure Sound (db : Database) : Prop where
  once : (db.rules.map (·.id)).Nodup
  kept : ∀ r ∈ db.rules, r.id ≠ "" ∧ r.blanks = [] ∧
    ∀ entry ∈ r.templates, entry.2.compileError? = none ∧ entry.2.compiled = entry.2

theorem Sound.nodup (sound : db.Sound) : db.rules.Nodup := .of_map _ sound.once

theorem Sound.offer (sound : db.Sound) (r : Rule) : (db.offer r).Sound := by
  rw [Database.offer]
  rcases db.add_cases r with ⟨-, e, refused⟩ | ⟨accepted, ok⟩
  · rw [refused]
    exact sound
  · simp only [Rule.Refused, not_or, ne_eq, not_not, not_exists, not_and] at accepted
    obtain ⟨named, fresh, full, parsed⟩ := accepted
    rw [ok]
    refine ⟨?_, fun x listed => ?_⟩
    · rw [List.map_append, List.nodup_append]
      refine ⟨sound.once, by simp, ?_⟩
      rintro x old y new same
      rw [List.map_singleton, List.mem_singleton] at new
      exact fresh (show r.registered.id ∈ _ from new ▸ same ▸ old)
    · rcases List.mem_append.mp listed with old | new
      · exact sound.kept x old
      · obtain rfl := List.mem_singleton.mp new
        refine ⟨named, full, fun entry given => ?_⟩
        obtain ⟨⟨arch, t⟩, listed, rfl⟩ := List.mem_map.mp given
        have clean : t.compileError? = none := by simpa using parsed (arch, t) listed
        exact ⟨clean, rfl⟩

theorem sound_registered (qs : List Registration) : (registered qs).Sound := by
  apply List.foldlRecOn (motive := Sound)
  · exact ⟨.nil, nofun⟩
  · intro db sound q _
    rw [register_eq]
    exact List.foldlRecOn (motive := Sound) _ _ sound fun db sound r _ => sound.offer r

/-- A query gives the one list of the rules of its category that is in order. -/
theorem Sound.query_eq_iff (sound : db.Sound) (category : String) (l : List Rule) :
    db.query category = l ↔
      l.Perm (db.rules.filter (·.category == category)) ∧ l.Pairwise (Precedes db.rules) := by
  have ordered := byPriority_pairwise sound.nodup
    (List.filter_sublist (p := (·.category == category)) (l := db.rules))
  constructor
  · rintro rfl
    exact ⟨byPriority_perm _, ordered⟩
  · rintro ⟨perm, inOrder⟩
    refine List.Perm.eq_of_pairwise ?_ ordered inOrder ((byPriority_perm _).trans perm.symm)
    intro a b _ _ first last
    exact absurd last (first.antisymm sound.nodup)

/-- A match is the first rule for the operation among those of the categories. -/
theorem match?_eq (op : String) (cats : List String) : db.match? op cats =
    if op = "" then none else (cats.flatMap db.query).find? (·.matchesOperation op) := by
  simp only [match?, beq_iff_eq, List.find?_flatMap]

theorem match?_eq_some_iff {op : String} {cats : List String} {r : Rule} :
    db.match? op cats = some r ↔ op ≠ "" ∧ ∃ before after,
      cats.flatMap db.query = before ++ r :: after ∧ op ∈ r.pattern.operations ∧
        ∀ s ∈ before, op ∉ s.pattern.operations := by
  rw [match?_eq]
  split
  · rename_i empty
    simp [empty]
  · rename_i named
    rw [List.find?_eq_some_iff_append]
    simp only [Rule.matchesOperation, List.contains_iff_mem, Bool.not_eq_true',
      Bool.eq_false_iff, ne_eq]
    constructor
    · rintro ⟨found, before, after, split, others⟩
      exact ⟨named, before, after, split, found, others⟩
    · rintro ⟨-, before, after, split, found, others⟩
      exact ⟨found, before, after, split, others⟩

theorem match?_eq_none_iff {op : String} {cats : List String} : db.match? op cats = none ↔
    op = "" ∨ ∀ r ∈ cats.flatMap db.query, op ∉ r.pattern.operations := by
  rw [match?_eq]
  split
  · rename_i empty
    simp [empty]
  · rename_i named
    rw [List.find?_eq_none]
    simp only [Rule.matchesOperation, List.contains_iff_mem, named, false_or]

theorem mem_categories {category : String} :
    category ∈ db.categories ↔ ∃ r ∈ db.rules, r.category = category := by
  rw [categories, Text.mem_distinct, List.mem_map]

theorem categories_nodup (db : Database) : db.categories.Nodup := Text.distinct_nodup _

theorem categories_pairwise (db : Database) : db.categories.Pairwise (· < ·) :=
  Text.distinct_pairwise _

/-- The rules fall into those of each category. -/
theorem rules_perm (db : Database) :
    db.rules.Perm (db.categories.flatMap fun c => db.rules.filter (·.category == c)) :=
  perm_flatMap_filter Rule.category db.categories_nodup db.rules fun r listed =>
    mem_categories.mpr ⟨r, listed, rfl⟩

theorem size_eq_sum (db : Database) : db.size = (db.statistics.map (·.2)).sum := by
  have each (c : String) : (db.query c).length = (db.rules.filter (·.category == c)).length :=
    (byPriority_perm _).length_eq
  rw [size, db.rules_perm.length_eq, List.length_flatMap, statistics, List.map_map]
  simp only [Function.comp_def, each]

/-- A rule for one operation. -/
def plainRule (id : String) (priority : Int) : Rule :=
  { id := id, category := "c", priority := priority, pattern := { operations := ["op"] } }

/-- Two rules of one priority, the first of them from a stream, between others; an identifier comes
twice, and a template is not closed. -/
def contested : List Registration := [.add (plainRule "low" 0), .add (plainRule "high" 10),
  .load "category: c\nrules: [\x7bid: a, priority: 5, pattern: \x7boperations: [op]\x7d\x7d]" "s",
  .add (plainRule "high" 20), .add (plainRule "b" 5),
  .add { plainRule "open" 20 with templates := [("SVE", { code := "f(\x7b\x7bx" })] }]

end Database

end Retarget
