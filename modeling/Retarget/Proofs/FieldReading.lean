/-
# Proofs.FieldReading -- fields are read from the document they were written to

A document that is written may be read with other quotes or with none, as long as its texts are texts
and its numbers stand as they are (`Yaml.isReadAs`).  That is enough: whatever is read for a record
gives each field what was written, and leaves out the fields that were left out
(`fields?_of_isReadAs`); texts, numbers of 64 bits and lists come back as they are, tables in the
order of their keys (`Gives`).

In return, what any document gives for a table lists a key once (`table?_nodup`), and what it gives
for a number has 64 bits (`integerField?_fits`).
-/
import Mathlib.Data.List.Forall2
import Retarget.Proofs.Grouping
import Retarget.Proofs.Numeral
import Retarget.Rule.Catalog

namespace Retarget

open Retarget.Text (minInt64 maxInt64)
open Retarget.Yaml (sortedKeys)

set_option autoImplicit false
set_option linter.dupNamespace false

section Lists

variable {α β : Type}

/-- What stands beside a member of the second list. -/
theorem exists_of_mem_forall₂ {R : α → β → Prop} {l : List α} {l' : List β}
    (related : List.Forall₂ R l l') {b : β} (listed : b ∈ l') : ∃ a ∈ l, R a b := by
  induction related with
  | nil => cases listed
  | @cons a b' l l' first _ ih =>
      rcases List.mem_cons.mp listed with rfl | later
      · exact ⟨a, List.mem_cons_self, first⟩
      · obtain ⟨x, member, relates⟩ := ih later
        exact ⟨x, List.mem_cons_of_mem a member, relates⟩

theorem forall₂_imp_of_mem {R S : α → β → Prop} {l : List α} {l' : List β}
    (related : List.Forall₂ R l l') (each : ∀ a ∈ l, ∀ b, R a b → S a b) : List.Forall₂ S l l' := by
  induction related with
  | nil => exact .nil
  | cons first _ ih =>
      exact .cons (each _ List.mem_cons_self _ first)
        (ih fun a listed => each a (List.mem_cons_of_mem _ listed))

theorem map_eq_of_forall₂ {γ : Type} {R : α → β → Prop} {f : α → γ} {g : β → γ} {l : List α}
    {l' : List β} (related : List.Forall₂ R l l') (same : ∀ a b, R a b → f a = g b) :
    l.map f = l'.map g := by
  induction related with
  | nil => rfl
  | cons first _ ih => rw [List.map_cons, List.map_cons, same _ _ first, ih]

theorem forall₂_of_mapM {read : α → Option β} {l : List α} {l' : List β}
    (values : l.mapM read = some l') : List.Forall₂ (fun a b => read a = some b) l l' := by
  induction l generalizing l' with
  | nil =>
      cases values
      exact .nil
  | cons a l ih =>
      simp only [List.mapM_cons, Option.bind_eq_bind, Option.bind_eq_some_iff, Option.pure_def,
        Option.some.injEq] at values
      obtain ⟨b, first, rest, later, rfl⟩ := values
      exact .cons first (ih later)

/-- Where each item of a list gives the value of the item beside it, the list gives all values. -/
theorem mapM_eq_some_of_forall₂ {γ : Type} {R : α → β → Prop} {read : β → Option γ} {value : α → γ}
    {l : List α} {l' : List β} (related : List.Forall₂ R l l')
    (each : ∀ a ∈ l, ∀ b, R a b → read b = some (value a)) : l'.mapM read = some (l.map value) := by
  induction related with
  | nil => rfl
  | @cons a b l l' first _ ih =>
      rw [List.mapM_cons, each a List.mem_cons_self b first,
        ih fun a listed => each a (List.mem_cons_of_mem _ listed)]
      rfl

theorem eraseDups_of_nodup [BEq α] [LawfulBEq α] {l : List α} (once : l.Nodup) :
    l.eraseDups = l := by
  induction l with
  | nil => rfl
  | cons a l ih =>
      obtain ⟨fresh, rest⟩ := List.nodup_cons.mp once
      have others : l.filter (fun b => !b == a) = l := by
        rw [List.filter_eq_self]
        rintro b listed
        simp only [Bool.not_eq_true', beq_eq_false_iff_ne]
        rintro rfl
        exact fresh listed
      rw [List.eraseDups_cons, others, ih rest]

end Lists

/-! ## Nodes -/

namespace Yaml

mutual

/-- Whether a node may have been read for a written one. -/
def isReadAs : Yaml → Yaml → Bool
  | .scalar text .text, .scalar text' form =>
    text == text' && (form == .text || form == .plain && senseOf text == .text)
  | .scalar text .plain, .scalar text' form => text == text' && form == .plain
  | .sequence items, .sequence items' => areReadAs items items'
  | .mapping entries, .mapping entries' => entriesReadAs entries entries'
  | _, _ => false

def areReadAs : List Yaml → List Yaml → Bool
  | [], [] => true
  | item :: items, item' :: items' => isReadAs item item' && areReadAs items items'
  | _, _ => false

def entriesReadAs : List (Yaml × Yaml) → List (Yaml × Yaml) → Bool
  | [], [] => true
  | (key, value) :: entries, (key', value') :: entries' =>
    isReadAs key key' && isReadAs value value' && entriesReadAs entries entries'
  | _, _ => false

end

/-- A scalar that stands for its characters. -/
def IsText (s : String) (n : Yaml) : Prop :=
  ∃ form : Form, n = .scalar s form ∧ (form = .text ∨ form = .plain ∧ senseOf s = .text)

variable {s : String} {n : Yaml}

theorem isText_of_isReadAs (read : (Catalog.text s).isReadAs n = true) : IsText s n := by
  cases n with
  | scalar text form =>
      simp only [Catalog.text, isReadAs, Bool.and_eq_true, Bool.or_eq_true, beq_iff_eq] at read
      obtain ⟨rfl, shown⟩ := read
      exact ⟨form, rfl, shown⟩
  | sequence items => cases read
  | mapping entries => cases read
  | mention name target => cases read

theorem eq_number_of_isReadAs {k : Int} (read : (Catalog.number k).isReadAs n = true) :
    n = Catalog.number k := by
  cases n with
  | scalar text form =>
      simp only [Catalog.number, isReadAs, Bool.and_eq_true, beq_iff_eq] at read
      rw [Catalog.number, read.1, read.2]
  | sequence items => cases read
  | mapping entries => cases read
  | mention name target => cases read

theorem forall₂_of_areReadAs {items items' : List Yaml} (read : areReadAs items items' = true) :
    List.Forall₂ (fun item item' => item.isReadAs item' = true) items items' := by
  induction items generalizing items' with
  | nil =>
      cases items' with
      | nil => exact .nil
      | cons item' items' => cases read
  | cons item items ih =>
      cases items' with
      | nil => cases read
      | cons item' items' =>
          simp only [areReadAs, Bool.and_eq_true] at read
          exact .cons read.1 (ih read.2)

theorem exists_items_of_isReadAs {items : List Yaml}
    (read : (Yaml.sequence items).isReadAs n = true) : ∃ items', n = .sequence items' ∧
      List.Forall₂ (fun item item' => item.isReadAs item' = true) items items' := by
  cases n with
  | sequence items' => exact ⟨items', rfl, forall₂_of_areReadAs read⟩
  | scalar text form => cases read
  | mapping entries => cases read
  | mention name target => cases read

theorem forall₂_of_entriesReadAs {entries entries' : List (Yaml × Yaml)}
    (read : entriesReadAs entries entries' = true) :
    List.Forall₂ (fun e e' => e.1.isReadAs e'.1 = true ∧ e.2.isReadAs e'.2 = true)
      entries entries' := by
  induction entries generalizing entries' with
  | nil =>
      cases entries' with
      | nil => exact .nil
      | cons e' entries' => cases read
  | cons e entries ih =>
      cases entries' with
      | nil => cases read
      | cons e' entries' =>
          simp only [entriesReadAs, Bool.and_eq_true] at read
          exact .cons read.1 (ih read.2)

theorem exists_entries_of_isReadAs {entries : List (Yaml × Yaml)}
    (read : (Yaml.mapping entries).isReadAs n = true) : ∃ entries', n = .mapping entries' ∧
      List.Forall₂ (fun e e' => e.1.isReadAs e'.1 = true ∧ e.2.isReadAs e'.2 = true)
        entries entries' := by
  cases n with
  | mapping entries' => exact ⟨entries', rfl, forall₂_of_entriesReadAs read⟩
  | scalar text form => cases read
  | sequence items => cases read
  | mention name target => cases read

namespace IsText

theorem text?_eq (shown : IsText s n) : n.text? = some (some s) := by
  obtain ⟨form, rfl, rfl | ⟨rfl, sense⟩⟩ := shown
  · rfl
  · simp [text?, resolved?, scalarText?, sense]

theorem isMergeKey_eq (shown : IsText s n) : isMergeKey n = false := by
  obtain ⟨form, rfl, rfl | ⟨rfl, sense⟩⟩ := shown
  · simp [isMergeKey]
  · have other : s ≠ "<<" := by
      rintro rfl
      exact absurd sense (by decide)
    simp [isMergeKey, other]

theorem sameKey_eq {s' : String} {n' : Yaml} (shown : IsText s n) (shown' : IsText s' n') :
    sameKey n n' = (s == s') := by
  obtain ⟨form, rfl, -⟩ := shown
  obtain ⟨form', rfl, -⟩ := shown'
  rfl

end IsText

/-! ## Tables -/

section Tables

variable {α : Type} (write : α → Yaml)

/-- A table as entries, its values written with `write`. -/
def tableEntries (table : List (String × α)) : List (Yaml × Yaml) :=
  table.map fun e => (Catalog.text e.1, write e.2)

/-- What is read for the entries of a table: the same keys, with what is read for their values. -/
def TableReadAs (table : List (String × α)) (table' : List (String × Yaml)) : Prop :=
  List.Forall₂ (fun e e' => e.1 = e'.1 ∧ (write e.2).isReadAs e'.2 = true) table table'

variable {write} {table : List (String × α)} {table' : List (String × Yaml)}

theorem TableReadAs.keys_eq (read : TableReadAs write table table') :
    table'.map (·.1) = table.map (·.1) :=
  (map_eq_of_forall₂ read fun _ _ same => same.1).symm

theorem TableReadAs.lookup (read : TableReadAs write table table') (key : String) :
    Option.Rel (fun v v' => (write v).isReadAs v' = true) (table.lookup key)
      (table'.lookup key) := by
  induction read with
  | nil => exact .none
  | @cons e e' table table' first _ ih =>
      obtain ⟨k, v⟩ := e
      obtain ⟨k', v'⟩ := e'
      obtain ⟨rfl, value⟩ := first
      rw [List.lookup_cons, List.lookup_cons]
      cases key == k with
      | true => exact .some value
      | false => exact ih

theorem keyed?_cons {value : Yaml} (shown : IsText s n) (entries : List (Yaml × Yaml)) :
    keyed? ((n, value) :: entries) = (keyed? entries).map ((s, value) :: ·) := by
  unfold keyed?
  rw [List.filter_cons_of_pos (by simp [shown.isMergeKey_eq]), List.mapM_cons]
  simp only [shown.text?_eq, Option.bind_eq_bind, Option.pure_def, Option.bind_some,
    Option.map_some, Option.bind_assoc, Option.map_bind, Function.comp_def,
    List.filterMap_cons, id_eq]

/-- Entries with distinct keys are read one by one. -/
theorem entries_of_isReadAs (once : (table.map (·.1)).Nodup) {entries : List (Yaml × Yaml)}
    (read : List.Forall₂ (fun e e' => e.1.isReadAs e'.1 = true ∧ e.2.isReadAs e'.2 = true)
      (tableEntries write table) entries) :
    keysDiffer entries = true ∧ (∀ e ∈ entries, isMergeKey e.1 = false) ∧
      ∃ table', keyed? entries = some table' ∧ TableReadAs write table table' := by
  have pairs := List.forall₂_map_left_iff.mp read
  clear read
  induction pairs with
  | nil => exact ⟨rfl, nofun, [], rfl, .nil⟩
  | @cons e e' table entries first rest ih =>
      obtain ⟨fresh, once⟩ := List.nodup_cons.mp once
      obtain ⟨differ, noMerge, table', keyed, later⟩ := ih once
      obtain ⟨n, value⟩ := e'
      have shown : IsText e.1 n := isText_of_isReadAs first.1
      have others : ∀ e' ∈ entries, sameKey n e'.1 = false := by
        intro e' listed
        obtain ⟨x, inTable, read⟩ := exists_of_mem_forall₂ rest listed
        rw [shown.sameKey_eq (isText_of_isReadAs read.1), beq_eq_false_iff_ne]
        exact fun same => fresh (List.mem_map.mpr ⟨x, inTable, same.symm⟩)
      refine ⟨?_, ?_, (e.1, value) :: table', ?_, .cons ⟨rfl, first.2⟩ later⟩
      · simp only [keysDiffer, differ, Bool.and_true, Bool.not_eq_true', List.any_eq_false]
        exact fun e' listed => by simp [others e' listed]
      · exact List.forall_mem_cons.mpr ⟨shown.isMergeKey_eq, noMerge⟩
      · rw [keyed?_cons shown, keyed]
        rfl

theorem entries?_of_isReadAs (once : (table.map (·.1)).Nodup)
    (read : (Yaml.mapping (tableEntries write table)).isReadAs n = true) :
    ∃ table', n.entries? = some { own := table' } ∧ TableReadAs write table table' := by
  obtain ⟨entries, rfl, pairs⟩ := exists_entries_of_isReadAs read
  obtain ⟨differ, noMerge, table', keyed, readAs⟩ := entries_of_isReadAs once pairs
  have noSource : entries.find? (fun e => isMergeKey e.1) = none :=
    List.find?_eq_none.mpr fun e listed => by simp [noMerge e listed]
  refine ⟨table', ?_, readAs⟩
  simp [entries?, resolved?, differ, keyed, noSource]

theorem foldl_put {β : Type} (entries table : List (String × β))
    (once : ((table ++ entries).map (·.1)).Nodup) :
    entries.foldl (fun t e => put t e.1 e.2) table = table ++ entries := by
  induction entries generalizing table with
  | nil => simp
  | cons e entries ih =>
      have fresh : table.filter (·.1 != e.1) = table := by
        rw [List.filter_eq_self]
        intro x listed
        rw [bne_iff_ne]
        intro same
        rw [List.map_append, List.nodup_append] at once
        exact once.2.2 x.1 (List.mem_map_of_mem listed) e.1 (by simp) same
      rw [List.foldl_cons, put, fresh, ih, List.append_assoc]
      · rfl
      · simpa using once

/-- The tables of a document are read as tables. -/
theorem table?_of_isReadAs (once : (table.map (·.1)).Nodup)
    (read : (Yaml.mapping (tableEntries write table)).isReadAs n = true) :
    ∃ table', n.table? = some table' ∧ TableReadAs write table table' := by
  obtain ⟨table', entries, readAs⟩ := entries?_of_isReadAs once read
  have filled := foldl_put table' [] (by simpa [readAs.keys_eq] using once)
  refine ⟨table', ?_, readAs⟩
  simp only [table?, entries]
  simpa using filled

end Tables

/-! ## Records -/

variable {fields : List (String × Option Yaml)}

/-- The fields that are not left out. -/
def heldFields (fields : List (String × Option Yaml)) : List (String × Yaml) :=
  fields.filterMap fun e => e.2.map (e.1, ·)

theorem record_eq (fields : List (String × Option Yaml)) :
    Catalog.record fields = .mapping (tableEntries id (heldFields fields)) := by
  simp only [Catalog.record, tableEntries, heldFields, List.map_filterMap, Option.map_map]
  rfl

theorem heldFields_keys (fields : List (String × Option Yaml)) :
    ((heldFields fields).map (·.1)).Sublist (fields.map (·.1)) := by
  induction fields with
  | nil => exact .refl _
  | cons e fields ih =>
      obtain ⟨key, value⟩ := e
      cases value with
      | none => exact ih.cons key
      | some v => exact ih.cons_cons key

/-- Where each field is listed once, looking it up gives what it holds. -/
theorem lookup_heldFields (once : (fields.map (·.1)).Nodup) {key : String} {value : Option Yaml}
    (listed : (key, value) ∈ fields) : (heldFields fields).lookup key = value := by
  cases value with
  | some v =>
      refine (lookup_eq_some_iff_mem (once.sublist (heldFields_keys fields))).mpr ?_
      exact List.mem_filterMap.mpr ⟨(key, some v), listed, rfl⟩
  | none =>
      rw [List.lookup_eq_none_iff]
      rintro ⟨k, v⟩ given
      obtain ⟨⟨k', v'⟩, listed', held⟩ := List.mem_filterMap.mp given
      obtain ⟨v'', rfl, held⟩ := Option.map_eq_some_iff.mp held
      obtain ⟨rfl, rfl⟩ := Prod.mk.inj held
      rw [bne_iff_ne]
      rintro rfl
      cases List.inj_on_of_nodup_map once listed listed' rfl

/-- Whatever is read for a record, its fields are known, and each is read for what it holds. -/
theorem fields?_of_isReadAs (known : List String) (once : (fields.map (·.1)).Nodup)
    (all : ∀ e ∈ fields, e.1 ∈ known) (read : (Catalog.record fields).isReadAs n = true) :
    ∃ fs, n.fields? known = some fs ∧ ∀ key value, (key, value) ∈ fields →
      Option.Rel (fun v v' => v.isReadAs v' = true) value (fs.lookup key) := by
  have part := heldFields_keys fields
  rw [record_eq] at read
  obtain ⟨fs, own, readAs⟩ := entries?_of_isReadAs (once.sublist part) read
  have distinct : (fs.map (·.1)).Nodup := readAs.keys_eq ▸ once.sublist part
  have within : ∀ e ∈ fs, e.1 ∈ known := by
    intro e listed
    have key : e.1 ∈ fields.map (·.1) :=
      part.subset (readAs.keys_eq ▸ List.mem_map_of_mem (f := (·.1)) listed)
    obtain ⟨x, inFields, same⟩ := List.mem_map.mp key
    exact same ▸ all x inFields
  refine ⟨fs, ?_, fun key value listed => lookup_heldFields once listed ▸ readAs.lookup key⟩
  simp only [fields?, own, List.append_nil, eraseDups_of_nodup distinct, Option.bind_eq_bind,
    Option.bind_some]
  rw [if_pos]
  simpa using within

/-- Whatever is read for the node, `read` gives the value. -/
def Gives {α : Type} (read : Yaml → Option α) (node : Yaml) (value : α) : Prop :=
  ∀ n, node.isReadAs n = true → read n = some value

/-- A field gives the value; one that is left out gives its default. -/
inductive FieldGives {α : Type} (read : Yaml → Option α) (default : α) : Option Yaml → α → Prop
  | held {node : Yaml} {value : α} (gives : Gives read node value) :
      FieldGives read default (some node) value
  | left : FieldGives read default none default

theorem field_eq {α : Type} {read : Yaml → Option α} {default value : α} {held : Option Yaml}
    {fs : List (String × Yaml)} {key : String} (gives : FieldGives read default held value)
    (found : Option.Rel (fun v v' => v.isReadAs v' = true) held (fs.lookup key)) :
    field fs key read default = some value := by
  unfold field
  generalize fs.lookup key = given at found
  cases gives with
  | held gives =>
      cases found with
      | some readAs => exact gives _ readAs
  | left =>
      cases found with
      | none => rfl

/-! ## Values -/

theorem gives_text (s : String) :
    Gives (fun n => n.text?.map (·.getD "")) (Catalog.text s) s := fun n read => by
  simp [(isText_of_isReadAs read).text?_eq]

theorem gives_optText (s : String) :
    FieldGives (fun n => n.text?.map (·.getD "")) "" (Catalog.optText s) s := by
  unfold Catalog.optText
  split
  · rename_i empty
    obtain rfl := beq_iff_eq.mp empty
    exact .left
  · exact .held (gives_text s)

theorem gives_optNumber {k : Int} (fits : minInt64 ≤ k ∧ k ≤ maxInt64) :
    FieldGives integerField? 0 (Catalog.optNumber k) k := by
  unfold Catalog.optNumber
  split
  · rename_i zero
    obtain rfl := beq_iff_eq.mp zero
    exact .left
  · refine .held fun n read => ?_
    have sense : scalarSense? (toString k) .plain = some (.integer k) :=
      congrArg some (senseOf_toString fits.1 fits.2)
    rw [eq_number_of_isReadAs read]
    simp only [integerField?, Catalog.number, resolved?, sense, fits, decide_true, Bool.and_self,
      if_true]

theorem gives_texts (l : List String) : Gives texts? (Catalog.texts l) l := by
  intro n read
  obtain ⟨items, rfl, pairs⟩ := exists_items_of_isReadAs read
  have each : items.mapM text? = some (l.map some) :=
    mapM_eq_some_of_forall₂ (List.forall₂_map_left_iff.mp pairs) fun s _ item read =>
      (isText_of_isReadAs read).text?_eq
  simp [texts?, items?, resolved?, each, List.filterMap_map]

theorem gives_optTexts (l : List String) : FieldGives texts? [] (Catalog.optTexts l) l := by
  unfold Catalog.optTexts
  split
  · rename_i empty
    obtain rfl := List.isEmpty_iff.mp empty
    exact .left
  · exact .held (gives_texts l)

theorem sortedKeys_perm {α : Type} (table : List (String × α)) : (sortedKeys table).Perm table :=
  List.mergeSort_perm table _

theorem sortedKeys_nodup {α : Type} {table : List (String × α)} (once : (table.map (·.1)).Nodup) :
    ((sortedKeys table).map (·.1)).Nodup :=
  ((sortedKeys_perm table).map (·.1)).nodup_iff.mpr once

/-- A table is read in the order of its keys. -/
theorem gives_optMap {table : List (String × String)} (once : (table.map (·.1)).Nodup) :
    FieldGives textMap? [] (Catalog.optMap table) (sortedKeys table) := by
  unfold Catalog.optMap
  split
  · rename_i empty
    rw [List.isEmpty_iff.mp empty, List.eq_nil_of_length_eq_zero (sortedKeys_perm []).length_eq]
    exact .left
  · refine .held fun n read => ?_
    have entries : (Yaml.mapping (tableEntries Catalog.text (sortedKeys table))).isReadAs n = true :=
      read
    obtain ⟨table', tables, readAs⟩ := table?_of_isReadAs (sortedKeys_nodup once) entries
    simp only [textMap?, tables, Option.bind_eq_bind, Option.bind_some]
    refine Eq.trans (b := some ((sortedKeys table).map id)) (mapM_eq_some_of_forall₂ readAs ?_)
      (congrArg some (List.map_id _))
    rintro ⟨key, value⟩ - ⟨key', value'⟩ ⟨rfl, value⟩
    simp [(isText_of_isReadAs value).text?_eq]

/-! ## What any document gives -/

section

variable {α : Type}

theorem put_nodup {table : List (String × α)} (once : (table.map (·.1)).Nodup) (key : String)
    (value : α) : ((put table key value).map (·.1)).Nodup := by
  rw [put, List.map_append, List.nodup_append]
  refine ⟨once.sublist (List.filter_sublist.map _), by simp, ?_⟩
  rintro x kept y new rfl
  obtain ⟨e, listed, rfl⟩ := List.mem_map.mp kept
  have other := (List.mem_filter.mp listed).2
  rw [bne_iff_ne] at other
  exact other (by simpa using new)

/-- A table lists a key once. -/
theorem table?_nodup {table : List (String × Yaml)} (read : n.table? = some table) :
    (table.map (·.1)).Nodup := by
  obtain ⟨e, -, filled⟩ := Option.bind_eq_some_iff.mp read
  rw [← Option.some.inj filled]
  -- the entries of its own are put in first, and then those of its source that are not there yet
  refine List.foldlRecOn (motive := fun t : List (String × Yaml) => (t.map Prod.fst).Nodup) _ _
    ?_ fun t once e _ => ?_
  · refine List.foldlRecOn (motive := fun t : List (String × Yaml) => (t.map Prod.fst).Nodup) _ _
      ?_ fun t once e _ => ?_
    · exact List.nodup_nil
    · exact put_nodup once e.1 e.2
  · dsimp only
    split
    · exact once
    · exact put_nodup once e.1 e.2

/-- Reading the values of a table leaves its keys. -/
theorem keys_eq_of_mapM {β : Type} {read : String × α → Option (String × β)}
    (keeps : ∀ e e', read e = some e' → e.1 = e'.1) {table : List (String × α)}
    {table' : List (String × β)} (values : table.mapM read = some table') :
    table.map (·.1) = table'.map (·.1) :=
  map_eq_of_forall₂ (forall₂_of_mapM values) keeps

theorem textMap?_nodup {table : List (String × String)} (read : n.textMap? = some table) :
    (table.map (·.1)).Nodup := by
  obtain ⟨named, tables, values⟩ := Option.bind_eq_some_iff.mp read
  refine keys_eq_of_mapM (fun e e' value => ?_) values ▸ table?_nodup tables
  obtain ⟨text, -, same⟩ := Option.bind_eq_some_iff.mp value
  rw [← Option.some.inj same]

/-- A number has 64 bits. -/
theorem integerField?_fits {k : Int} (read : n.integerField? = some k) :
    minInt64 ≤ k ∧ k ≤ maxInt64 := by
  have cut {whole : Int} (value : cutInteger? whole = some k) : minInt64 ≤ k ∧ k ≤ maxInt64 := by
    unfold cutInteger? at value
    split at value
    · cases value
    · have same := Option.some.inj value
      split at same
      · rename_i within
        simpa [← same] using within
      · rw [← same]
        decide
  unfold integerField? at read
  split at read
  · split at read
    · rw [← Option.some.inj read]
      decide
    · split at read
      · rename_i fits
        rw [← Option.some.inj read]
        simpa using fits
      · cases read
    · exact cut read
    · rw [← Option.some.inj read]
      decide
    · cases read
  · cases read

theorem field_cases {fs : List (String × Yaml)} {key : String} {read : Yaml → Option α}
    {default value : α} (given : field fs key read default = some value) :
    (∃ n, read n = some value) ∨ value = default := by
  unfold field at given
  split at given
  · exact .inl ⟨_, given⟩
  · exact .inr (Option.some.inj given).symm

theorem field_nodup {fs : List (String × Yaml)} {key : String} {table : List (String × String)}
    (given : field fs key textMap? [] = some table) : (table.map (·.1)).Nodup := by
  obtain ⟨n, read⟩ | rfl := field_cases given
  · exact textMap?_nodup read
  · exact .nil

theorem field_fits {fs : List (String × Yaml)} {key : String} {k : Int}
    (given : field fs key integerField? 0 = some k) : minInt64 ≤ k ∧ k ≤ maxInt64 := by
  obtain ⟨n, read⟩ | rfl := field_cases given
  · exact integerField?_fits read
  · decide

end

end Yaml

end Retarget
