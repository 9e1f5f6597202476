/-
# Yaml.Value -- values of a known shape

A reader that knows which shape it wants asks a node for it: a text, an integer, the items of a
sequence, the entries of a mapping by the text of their keys. A node of another shape is
refused. A scalar that stands for nothing fits every shape and leaves the value as it was.

The key `<<` takes over the entries of another mapping, or of several. An entry of the mapping
itself wins over one that is taken over, and an earlier one over a later.
-/
import Retarget.Yaml.Scalar

namespace Retarget.Yaml

open Retarget.Text (maxInt64 minInt64)

/-! ## Scalars -/

namespace Sense

/-- The tag of the values with this sense. -/
def tag : Sense → String
  | null => "!!null"
  | truth => "!!bool"
  | integer _ => "!!int"
  | decimal _ | infinite _ | notANumber => "!!float"
  | time => "!!timestamp"
  | merge => "!!merge"
  | text => "!!str"

end Sense

/-- The sense of a scalar under a tag, which must be that of its sense; a number without a
fraction may be tagged as one with a fraction, and only a tag for times asks for a time. -/
def taggedSense? (text tag : String) : Option Sense :=
  let sense : Sense := match senseOf text with
    | .time => if tag == Sense.time.tag then .time else numberSense text.toList
    | sense => sense
  match sense with
  | .integer n =>
    if tag == "!!float" && n ≤ maxInt64 then some (.decimal n)
    else if tag == sense.tag then some sense else none
  | _ => if tag == sense.tag then some sense else none

def base64Value? (c : Char) : Option Nat :=
  if 'A' ≤ c && c ≤ 'Z' then some (c.toNat - 'A'.toNat)
  else if 'a' ≤ c && c ≤ 'z' then some (c.toNat - 'a'.toNat + 26)
  else if '0' ≤ c && c ≤ '9' then some (c.toNat - '0'.toNat + 52)
  else if c == '+' then some 62
  else if c == '/' then some 63
  else none

/-- The bytes that groups of four characters stand for; only the last may be padded. -/
def base64Bytes? : List Char → Option (List UInt8)
  | [] => some []
  | a :: b :: c :: d :: rest => do
    let x ← base64Value? a
    let y ← base64Value? b
    let first := (x * 4 + y / 16).toUInt8
    if c == '=' && d == '=' && rest.isEmpty then return [first]
    let z ← base64Value? c
    let second := (y % 16 * 16 + z / 4).toUInt8
    if d == '=' && rest.isEmpty then return [first, second]
    let w ← base64Value? d
    return first :: second :: (z % 4 * 64 + w).toUInt8 :: (← base64Bytes? rest)
  | _ => none

/-- What a scalar gives as a text; nothing when it stands for nothing. -/
def scalarText? (text : String) : Form → Option (Option String)
  | .text => some (some text)
  | .plain => some (if senseOf text == .null then none else some text)
  | .tagged tag =>
    if tag == Sense.text.tag then some (some text)
    else if tag == "!!binary" then
      ((base64Bytes? (text.toList.filter fun c => c != '\n' && c != '\r')).bind fun bytes =>
        String.fromUTF8? ⟨bytes.toArray⟩).map some
    else (taggedSense? text tag).map fun sense => if sense == .null then none else some text

def scalarSense? (text : String) : Form → Option Sense
  | .text => some .text
  | .plain => some (senseOf text)
  | .tagged tag =>
    if tag == Sense.text.tag || tag == "!!binary" then some .text else taggedSense? text tag

def isNull (n : Yaml) : Bool :=
  match n.resolved? with
  | some (.scalar text form) => scalarSense? text form == some .null
  | _ => false

/-- The text of a scalar as it was written; nothing when it stands for nothing. The outer
result is nothing for a collection. -/
def text? (n : Yaml) : Option (Option String) :=
  match n.resolved? with
  | some (.scalar text form) => scalarText? text form
  | _ => none

/-- A number with a fraction as an integer of 64 bits. One below them gives the least, and so
does the one just above them. -/
def cutInteger? (whole : Int) : Option Int :=
  if maxInt64 + 1 < whole then none
  else some (if minInt64 ≤ whole && whole ≤ maxInt64 then whole else minInt64)

def integerField? (n : Yaml) : Option Int :=
  match n.resolved? with
  | some (.scalar text form) =>
    match scalarSense? text form with
    | some .null => some 0
    | some (.integer n) => if minInt64 ≤ n && n ≤ maxInt64 then some n else none
    | some (.decimal n) => cutInteger? n
    | some (.infinite true) => some minInt64
    | _ => none
  | _ => none

/-! ## Sequences -/

/-- The items of a sequence; there are none when nothing is given. -/
def items? (n : Yaml) : Option (List Yaml) :=
  match n.resolved? with
  | some (.sequence items) => some items
  | _ => if n.isNull then some [] else none

/-- The texts of a sequence, without the items that stand for nothing. -/
def texts? (n : Yaml) : Option (List String) := do
  let items ← n.items?
  return (← items.mapM text?).filterMap id

/-! ## Mappings -/

/-- Keys are the same when they are of one kind and written with the same characters. -/
def sameKey : Yaml → Yaml → Bool
  | .scalar a _, .scalar b _ => a == b
  | .sequence _, .sequence _ => true
  | .mapping _, .mapping _ => true
  | .mention a _, .mention b _ => a == b
  | _, _ => false

def keysDiffer : List (Yaml × Yaml) → Bool
  | [] => true
  | (key, _) :: rest => !rest.any (fun e => sameKey key e.1) && keysDiffer rest

def isMergeKey : Yaml → Bool
  | .scalar text form => text == "<<" && (form == .plain || form == .tagged Sense.merge.tag)
  | _ => false

/-- The entries of a mapping that have a key, by its text. -/
def keyed? (entries : List (Yaml × Yaml)) : Option (List (String × Yaml)) := do
  let named ← (entries.filter fun e => !isMergeKey e.1).mapM fun (key, value) => do
    return (← key.text?).map (·, value)
  return named.filterMap id

/-- The keys of a mapping that keep out entries taken over: those that stand for their own
characters. -/
def ownKeys (entries : List (Yaml × Yaml)) : List String :=
  entries.filterMap fun (key, _) =>
    match key.resolved? with
    | some (.scalar text form) =>
      match scalarSense? text form with
      | some .text | some .merge => some text
      | _ => none
    | _ => none

/-- The mappings that a merge key names: one, or a sequence of them. -/
def merged? : Yaml → Option (List Yaml)
  | .mapping entries => some [.mapping entries]
  | .mention _ (some (.mapping entries)) => some [.mapping entries]
  | .sequence items => items.mapM fun item =>
    match item.resolved? with
    | some (.mapping entries) => some (.mapping entries)
    | _ => none
  | _ => none

/-- The entries taken over from the mapping `n`, but for those whose key is in `taken`; the keys
are added to it. The bound is on how deep mappings take over others. -/
def takeOver : Nat → List String → Yaml → Option (List (String × Yaml) × List String)
  | 0, _, _ => none
  | depth + 1, taken, n =>
    match n with
    | .mapping entries =>
      if !keysDiffer entries then none
      else do
        let own := (← keyed? entries).filter fun e => !taken.contains e.1
        let taken := taken ++ own.map (·.1)
        match entries.reverse.find? fun e => isMergeKey e.1 with
        | none => return (own, taken)
        | some (_, source) =>
          (← merged? source).foldlM (fun (found, taken) m => do
            let (more, taken) ← takeOver depth taken m
            return (found ++ more, taken)) (own, taken)
    | _ => none

/-- The entries of a mapping itself, and those it takes over. -/
structure Entries where
  own : List (String × Yaml) := []
  taken : List (String × Yaml) := []

/-- How deep mappings may take over others. -/
def mergeDepth : Nat := 100

/-- The entries of a mapping, none of which may be repeated; there are none when nothing is
given. -/
def entries? (n : Yaml) : Option Entries :=
  match n.resolved? with
  | some (.mapping entries) =>
    if !keysDiffer entries then none
    else do
      let own ← keyed? entries
      match entries.find? fun e => isMergeKey e.1 with
      | none => return { own := own }
      | some (_, source) =>
        let (taken, _) ← (← merged? source).foldlM (fun (found, keys) m => do
          let (more, keys) ← takeOver mergeDepth keys m
          return (found ++ more, keys)) ([], ownKeys entries)
        return ⟨own, taken⟩
  | _ => if n.isNull then some {} else none

/-- Put an entry into a table, in place of one with the same key. -/
def put {α : Type} (table : List (String × α)) (key : String) (value : α) : List (String × α) :=
  table.filter (·.1 != key) ++ [(key, value)]

/-- The entries by key. A later one replaces an earlier, unless it is taken over and stands for
nothing. -/
def table? (n : Yaml) : Option (List (String × Yaml)) := do
  let e ← n.entries?
  let own := e.own.foldl (fun t (key, value) => put t key value) []
  return e.taken.foldl (fun t (key, value) =>
    if value.isNull && (t.lookup key).isSome then t else put t key value) own

def textMap? (n : Yaml) : Option (List (String × String)) := do
  (← n.table?).mapM fun (key, value) => do return (key, (← value.text?).getD "")

/-- The entries of a mapping whose keys are all known and all different. -/
def fields? (known : List String) (n : Yaml) : Option (List (String × Yaml)) := do
  let e ← n.entries?
  let all := e.own ++ e.taken
  if (all.map (·.1)).eraseDups.length == all.length && all.all fun (key, _) => known.contains key
  then some all else none

/-- Read one field; one that is not there gives the default. -/
def field {α : Type} (entries : List (String × Yaml)) (key : String) (read : Yaml → Option α)
    (default : α) : Option α :=
  match entries.lookup key with
  | some n => read n
  | none => some default

def textField (entries : List (String × Yaml)) (key : String) : Option String :=
  field entries key (fun n => n.text?.map (·.getD "")) ""

end Retarget.Yaml
