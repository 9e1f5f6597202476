/-
# Rule.Catalog -- rules in files

A catalog is a category and its rules; a file is a stream of catalogs. Rules without a category
take that of their catalog. Reading refuses unknown and repeated fields and values of the wrong
shape; a field left empty keeps its default.
-/
import Retarget.Log
import Retarget.Rule.Database
import Retarget.Workspace
import Retarget.Yaml.Document
import Retarget.Yaml.Value
import Retarget.Yaml.Writer

namespace Retarget

open Retarget.Yaml (sortedKeys)

structure Catalog where
  category : String := ""
  rules : List Rule := []
deriving Repr, DecidableEq, Inhabited

/-! ## Reading -/

namespace Template

def ofYaml? (n : Yaml) : Option Template := do
  let fs ← n.fields? ["code", "headers", "auxiliary", "hints"]
  return {
    code := ← Yaml.textField fs "code"
    headers := ← Yaml.field fs "headers" Yaml.texts? []
    auxiliary := ← Yaml.field fs "auxiliary" Yaml.texts? []
    hints := ← Yaml.field fs "hints" Yaml.textMap? [] }

end Template

namespace Pattern

def ofYaml? (n : Yaml) : Option Pattern := do
  let fs ← n.fields? ["id", "description", "operations", "node_types", "constraints"]
  return {
    id := ← Yaml.textField fs "id"
    description := ← Yaml.textField fs "description"
    operations := ← Yaml.field fs "operations" Yaml.texts? []
    nodeTypes := ← Yaml.field fs "node_types" Yaml.texts? []
    constraints := ← Yaml.field fs "constraints" Yaml.textMap? [] }

end Pattern

namespace Rule

def fieldNames : List String :=
  ["id", "name", "category", "priority", "pattern", "templates", "speedup", "size_impact"]

def ofYaml? (n : Yaml) : Option Rule := do
  let fs ← n.fields? fieldNames
  let templates ← Yaml.field fs "templates" Yaml.table? []
  let given := templates.filter fun (_, t) => !t.isNull
  return {
    id := ← Yaml.textField fs "id"
    name := ← Yaml.textField fs "name"
    category := ← Yaml.textField fs "category"
    priority := ← Yaml.field fs "priority" Yaml.integerField? 0
    pattern := ← Yaml.field fs "pattern" Pattern.ofYaml? {}
    templates := ← given.mapM fun (arch, t) => do return (arch, ← Template.ofYaml? t)
    blanks := (templates.filter fun (_, t) => t.isNull).map (·.1)
    speedup := ← Yaml.field fs "speedup" Yaml.integerField? 0
    sizeImpact := ← Yaml.field fs "size_impact" Yaml.integerField? 0 }

end Rule

namespace Catalog

def ofYaml? (n : Yaml) : Option Catalog := do
  let fs ← n.fields? ["category", "rules"]
  return {
    category := ← Yaml.textField fs "category"
    rules := ← Yaml.field fs "rules" (fun n => do (← n.items?).mapM Rule.ofYaml?) [] }

/-! ## Writing -/

def text (s : String) : Yaml := .scalar s .text

def number (n : Int) : Yaml := .scalar (toString n) .plain

def texts (l : List String) : Yaml := .sequence (l.map text)

def textMap (l : List (String × String)) : Yaml :=
  .mapping ((sortedKeys l).map fun (k, v) => (text k, text v))

/-- Keys and values in order, without the values left out. -/
def record (fields : List (String × Option Yaml)) : Yaml :=
  .mapping (fields.filterMap fun (key, value) => value.map (text key, ·))

def optText (s : String) : Option Yaml := if s == "" then none else some (text s)

def optNumber (n : Int) : Option Yaml := if n == 0 then none else some (number n)

def optTexts (l : List String) : Option Yaml := if l.isEmpty then none else some (texts l)

def optMap (l : List (String × String)) : Option Yaml :=
  if l.isEmpty then none else some (textMap l)

def templateYaml (t : Template) : Yaml :=
  record [("code", some (text t.code)), ("headers", optTexts t.headers),
    ("auxiliary", optTexts t.auxiliary), ("hints", optMap t.hints)]

def patternYaml (p : Pattern) : Yaml :=
  record [("id", optText p.id), ("description", optText p.description),
    ("operations", optTexts p.operations), ("node_types", optTexts p.nodeTypes),
    ("constraints", optMap p.constraints)]

def ruleYaml (r : Rule) : Yaml :=
  record [("id", some (text r.id)), ("name", optText r.name), ("category", optText r.category),
    ("priority", optNumber r.priority), ("pattern", some (patternYaml r.pattern)),
    ("templates", some (.mapping ((sortedKeys r.templates).map fun (arch, t) =>
      (text arch, templateYaml t)))),
    ("speedup", optNumber r.speedup), ("size_impact", optNumber r.sizeImpact)]

def toYaml (c : Catalog) : Yaml :=
  record [("category", some (text c.category)), ("rules", some (.sequence (c.rules.map ruleYaml)))]

end Catalog

/-! ## Loading and exporting -/

/-- Why a catalog file is not loaded to its end. -/
inductive LoadError where
  | malformed (source : String)
  | rejected (source : String) (cause : RuleError)
  | unreadable (source : String) (cause : FileError)
deriving Repr, DecidableEq, Inhabited

def LoadError.message : LoadError → String
  | malformed source => "parse " ++ source
  | rejected source cause => source ++ ": " ++ cause.message
  | unreadable _ cause => "load rules: " ++ cause.message

/-- A database and what stopped the loading; the rules before the fault are in it. -/
structure Loaded where
  database : Database
  error : Option LoadError := none
deriving Inhabited

namespace Database

/-- The rule as it is registered from a catalog. -/
def fromCatalog (c : Catalog) (source : String) (r : Rule) : Rule :=
  { r with category := if r.category == "" then c.category else r.category, source := source }

def addAll (source : String) (db : Database) : List Rule → Loaded
  | [] => ⟨db, none⟩
  | r :: rs =>
    match db.add r with
    | .ok db => addAll source db rs
    | .error e => ⟨db, some (.rejected source e)⟩

def loadCatalog (db : Database) (source : String) (c : Catalog) : Logged Loaded :=
  let loaded := addAll source db (c.rules.map (fromCatalog c source))
  match loaded.error with
  | some _ => ⟨loaded, []⟩
  | none => ⟨loaded, [.debug ("rules: loaded " ++ toString c.rules.length ++ " " ++ c.category ++
      " rules from " ++ source)]⟩

/-- Load catalogs in order up to the first fault. -/
def loadCatalogs (source : String) (db : Database) : List Catalog → Logged Loaded
  | [] => pure ⟨db, none⟩
  | c :: cs => do
    let loaded ← db.loadCatalog source c
    match loaded.error with
    | some _ => pure loaded
    | none => loadCatalogs source loaded.database cs

/-- Load the documents of a stream in order up to the first fault. -/
def loadDocuments (source : String) (faulty : Bool) (db : Database) : List Yaml → Logged Loaded
  | [] => pure ⟨db, if faulty then some (.malformed source) else none⟩
  | doc :: docs =>
    match Catalog.ofYaml? doc with
    | none => pure ⟨db, some (.malformed source)⟩
    | some c => do
      let loaded ← db.loadCatalog source c
      match loaded.error with
      | some _ => pure loaded
      | none => loadDocuments source faulty loaded.database docs

/-- Load the text of a catalog file. -/
def load (db : Database) (text source : String) : Logged Loaded :=
  let stream := Yaml.readStream text
  db.loadDocuments source stream.faulty stream.documents

/-- One catalog for each category, the rules in priority order. -/
def catalogs (db : Database) : List Catalog := db.categories.map fun c => ⟨c, db.query c⟩

/-- The stream of all catalogs. A stream needs a document, so an empty database has none. -/
def exported? (db : Database) : Option String :=
  if db.catalogs.isEmpty then none else some (Yaml.writeStream (db.catalogs.map Catalog.toYaml))

end Database

end Retarget
