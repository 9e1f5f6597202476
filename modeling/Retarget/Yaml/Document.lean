/-
# Yaml.Document -- documents from tokens

The first document of a stream may start without a mark; every further one needs it. Documents
are read in order, so those before a fault are kept. Anchors hold for the rest of the stream,
handles of tags for one document.

The grammar is recursive in the nesting of nodes and in the length of collections; its functions
take a bound on both together, which the number of tokens gives.
-/
import Retarget.Text.Basic
import Retarget.Yaml.Basic
import Retarget.Yaml.Token

namespace Retarget.Yaml

/-- What is still to be read, and the names met so far. An anchor has no node while its node is
being read. -/
structure Reading where
  tokens : List Token
  anchors : List (String × Option Yaml) := []
  handles : List (String × String) := []
deriving Inhabited

abbrev Read := StateT Reading Option

namespace Read

def refuse {α : Type} : Read α := fun _ => none

def peek : Read Token := do
  match (← get).tokens with
  | t :: _ => return t
  | [] => refuse

def skip : Read Unit := modify fun r => { r with tokens := r.tokens.tail }

/-! ## What may stand before a node -/

/-- An anchor and a tag. -/
structure Properties where
  anchor : Option String := none
  tag : Option String := none

/-- The handles every document knows. -/
def knownHandles : List (String × String) := [("!", "!"), ("!!", "tag:yaml.org,2002:")]

def shortTag (tag : String) : String :=
  let long := "tag:yaml.org,2002:"
  if Text.startsWith tag long then "!!" ++ Text.dropStart tag long else tag

/-- A tag with its handle replaced; nothing for the one that says nothing. -/
def expandTag (handle rest : String) : Read (Option String) := do
  if handle == "" then return if rest == "!" then none else some (shortTag rest)
  match (← get).handles.lookup handle with
  | none => refuse
  | some start => return some (shortTag (start ++ rest))

/-- An anchor and a tag in either order, each at most once. -/
def properties : Read Properties := do
  match ← peek with
  | .anchor name =>
    skip
    match ← peek with
    | .tag handle rest => skip; return ⟨some name, ← expandTag handle rest⟩
    | _ => return ⟨some name, none⟩
  | .tag handle rest =>
    skip
    match ← peek with
    | .anchor name => skip; return ⟨some name, ← expandTag handle rest⟩
    | _ => return ⟨none, ← expandTag handle rest⟩
  | _ => return {}

/-- Read a node under its anchor, which the node itself may mention. -/
def anchored (p : Properties) (read : Read Yaml) : Read Yaml := do
  match p.anchor with
  | none => read
  | some name =>
    let slot := (← get).anchors.length
    modify fun r => { r with anchors := r.anchors ++ [(name, none)] }
    let node ← read
    modify fun r => { r with anchors := r.anchors.set slot (name, some node) }
    return node

/-- The node an alias names, the last one if there are several. -/
def mention (name : String) : Read Yaml := do
  match (← get).anchors.reverse.lookup name with
  | none => refuse
  | some target => return .mention name target

def scalar (p : Properties) (text : String) (plain : Bool) : Read Yaml :=
  anchored p <| return .scalar text <| match p.tag with
    | some tag => .tagged tag
    | none => if plain then .plain else .text

/-! ## Nodes -/

mutual

/-- A node. Block structure starts only where `block` holds, and a sequence without indentation
of its own only where `indentless` does. -/
def node : Nat → Bool → Bool → Read Yaml
  | 0, _, _ => refuse
  | n + 1, block, indentless => do
    match ← peek with
    | .mention name => skip; mention name
    | _ =>
      let start := (← get).tokens.length
      let p ← properties
      let given := (← get).tokens.length != start
      match ← peek with
      | .scalar text plain => skip; scalar p text plain
      | .flowSequence => skip; anchored p (return .sequence (← flowItems n true))
      | .flowMapping => skip; anchored p (return .mapping (← flowEntries n true))
      | t =>
        if indentless && t == .blockEntry then
          anchored p (return .sequence (← indentlessItems n))
        else if block && t == .blockSequence then
          skip
          anchored p (return .sequence (← blockItems n))
        else if block && t == .blockMapping then
          skip
          anchored p (return .mapping (← blockEntries n))
        else if given then scalar p "" true
        else refuse

/-- A node, unless one of the tokens in `stops` shows that it was left out. -/
def nodeUnless : Nat → List Token → Bool → Bool → Read Yaml
  | 0, _, _, _ => refuse
  | n + 1, stops, block, indentless => do
    if stops.contains (← peek) then return absent else node n block indentless

/-- A value after a colon, which may be missing together with its colon. -/
def valueUnless : Nat → List Token → Bool → Bool → Read Yaml
  | 0, _, _, _ => refuse
  | n + 1, stops, block, indentless => do
    if (← peek) == .value then
      skip
      nodeUnless n stops block indentless
    else return absent

def blockItems : Nat → Read (List Yaml)
  | 0 => refuse
  | n + 1 => do
    match ← peek with
    | .blockEntry =>
      skip
      let item ← nodeUnless n [.blockEntry, .blockEnd] true false
      return item :: (← blockItems n)
    | .blockEnd => skip; return []
    | _ => refuse

def indentlessItems : Nat → Read (List Yaml)
  | 0 => refuse
  | n + 1 => do
    match ← peek with
    | .blockEntry =>
      skip
      let item ← nodeUnless n [.blockEntry, .key, .value, .blockEnd] true false
      return item :: (← indentlessItems n)
    | _ => return []

def blockEntries : Nat → Read (List (Yaml × Yaml))
  | 0 => refuse
  | n + 1 => do
    match ← peek with
    | .key =>
      skip
      let stops := [Token.key, .value, .blockEnd]
      let key ← nodeUnless n stops true true
      let value ← valueUnless n stops true true
      return (key, value) :: (← blockEntries n)
    | .blockEnd => skip; return []
    | _ => refuse

/-- The items up to a closing bracket; all but the first come after a comma. -/
def flowItems : Nat → Bool → Read (List Yaml)
  | 0, _ => refuse
  | n + 1, first => do
    if (← peek) == .flowSequenceEnd then
      skip
      return []
    if !first then
      if (← peek) == .flowEntry then skip else refuse
    match ← peek with
    | .flowSequenceEnd => skip; return []
    | .key =>
      skip
      let pair ← flowPair n
      return .mapping [pair] :: (← flowItems n false)
    | _ =>
      let item ← node n false false
      return item :: (← flowItems n false)

/-- A key and a value that are an item by themselves. Where the key is left out, the token in
its place is passed over. -/
def flowPair : Nat → Read (Yaml × Yaml)
  | 0 => refuse
  | n + 1 => do
    let stops := [Token.flowEntry, .flowSequenceEnd]
    let key ← if (.value :: stops).contains (← peek) then do
        skip
        pure absent
      else node n false false
    let value ← valueUnless n stops false false
    return (key, value)

/-- The entries up to a closing brace; all but the first come after a comma. -/
def flowEntries : Nat → Bool → Read (List (Yaml × Yaml))
  | 0, _ => refuse
  | n + 1, first => do
    if (← peek) == .flowMappingEnd then
      skip
      return []
    if !first then
      if (← peek) == .flowEntry then skip else refuse
    match ← peek with
    | .flowMappingEnd => skip; return []
    | .key =>
      skip
      let stops := [Token.flowEntry, .flowMappingEnd]
      let key ← nodeUnless n (.value :: stops) false false
      let value ← valueUnless n stops false false
      return (key, value) :: (← flowEntries n false)
    | _ =>
      let key ← node n false false
      return (key, absent) :: (← flowEntries n false)

end

/-! ## Documents -/

/-- The directives before a document. Only one version is known, and it may be named once; a
handle may not be given twice. -/
def directives : Nat → Bool → Read Unit
  | 0, _ => refuse
  | n + 1, versioned => do
    match ← peek with
    | .version major minor =>
      if versioned || major != 1 || minor != 1 then refuse
      skip
      directives n true
    | .handle name start =>
      if ((← get).handles.lookup name).isSome then refuse
      modify fun r => { r with handles := r.handles ++ [(name, start)] }
      skip
      directives n versioned
    | _ => modify fun r => { r with handles := r.handles ++ knownHandles }

/-- Pass the marks that end a document. -/
def pastEnds : Nat → Read Unit
  | 0 => return
  | n + 1 => do
    if (← peek) == .documentEnd then
      skip
      pastEnds n

/-- The content of a document, which may be left out after a mark. -/
def content (bound : Nat) (marked : Bool) : Read Yaml := do
  match ← peek with
  | .version _ _ | .handle _ _ | .documentStart | .documentEnd | .streamEnd =>
    if marked then return absent else refuse
  | _ => node bound true false

/-- The next document; nothing at the end of the stream. -/
def document (first : Bool) : Read (Option Yaml) := do
  let bound := 4 * (← get).tokens.length + 16
  if !first then pastEnds bound
  modify fun r => { r with handles := [] }
  let t ← peek
  if t == .streamEnd then return none
  let marked := match t with
    | .version _ _ | .handle _ _ | .documentStart => true
    | _ => !first
  directives bound false
  if marked then
    if (← peek) == .documentStart then skip else refuse
  let root ← content bound marked
  if (← peek) == .documentEnd then skip
  return some root

end Read

/-- The documents of a stream up to the first fault, and whether there was one. -/
structure Stream where
  documents : List Yaml
  faulty : Bool
deriving Inhabited

def documentsFrom : Nat → Bool → Reading → Stream
  | 0, _, _ => ⟨[], true⟩
  | n + 1, first, r =>
    match (Read.document first).run r with
    | none => ⟨[], true⟩
    | some (none, _) => ⟨[], false⟩
    | some (some root, r) =>
      let more := documentsFrom n false r
      ⟨root :: more.documents, more.faulty⟩

def readStream (text : String) : Stream :=
  let tokens := tokenize text
  documentsFrom (tokens.length + 1) true { tokens := tokens }

end Retarget.Yaml
