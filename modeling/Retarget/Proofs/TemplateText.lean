/-
# Proofs.TemplateText -- a template is its segments written one after the other

A mark is one character doubled, and the reader looks for the next one: a pair of opening braces
outside a hole, a pair of closing braces within.  Up to that pair it only collects characters, even
where it takes two at a time (`parseChars_run`), so reading is cutting the text at the first pair
(`exists_first_pair`), again and again.

Two statements follow.  Segments that cannot be misread are read back as they are, and what is read
from any text are such segments (`parse_spelling_iff`).  And the segments of a text, written one after
the other, are the text without the blanks just inside its marks (`tightens_iff`), where `Tightens`
is told by the text alone.  Rendering puts a value in the place of every hole that has one and tells
the names of the others (`render_spec`).
-/
import Mathlib.Data.List.Infix
import Mathlib.Data.List.TakeWhile
import Retarget.Proofs.WordList
import Retarget.Rule.Template

namespace Retarget

open Retarget.Text (sorted addNew isBlank trim trimChars dropEndWhile)

set_option autoImplicit false
set_option linter.dupNamespace false

/-! ## Pairs of one character -/

/-- Part of a text in which the character is not doubled. -/
def Single (m : Char) (cs : List Char) : Prop := ¬[m, m] <:+: cs

theorem single_nil (m : Char) : Single m [] := by
  simp [Single]

theorem single_cons_iff {m c : Char} {cs : List Char} :
    Single m (c :: cs) ↔ ¬[m, m] <+: c :: cs ∧ Single m cs := by
  simp [Single, List.infix_cons_iff]

/-- A character that is not doubled before its next one is neither doubled nor last. -/
theorem single_snoc_iff {m : Char} {cs : List Char} :
    Single m (cs ++ [m]) ↔ Single m cs ∧ cs.getLast? ≠ some m := by
  induction cs with
  | nil => simp [single_cons_iff, single_nil]
  | cons c cs ih =>
      rw [List.cons_append, single_cons_iff, single_cons_iff, ih]
      cases cs with
      | nil => by_cases same : c = m <;> simp [same, eq_comm, single_nil]
      | cons d ds => simp [List.getLast?_cons_cons, and_assoc]

/-- A text has no pair, or a first one. -/
theorem exists_first_pair (m : Char) (cs : List Char) : Single m cs ∨
    ∃ before rest, cs = before ++ m :: m :: rest ∧ Single m (before ++ [m]) := by
  induction cs with
  | nil => exact .inl (single_nil m)
  | cons c cs ih =>
      by_cases here : [m, m] <+: c :: cs
      · obtain ⟨rest, split⟩ := here
        exact .inr ⟨[], rest, split.symm, by simp [single_cons_iff, single_nil]⟩
      · rcases ih with none | ⟨before, rest, rfl, first⟩
        · exact .inl (single_cons_iff.mpr ⟨here, none⟩)
        · refine .inr ⟨c :: before, rest, rfl, single_cons_iff.mpr ⟨fun front => here ?_, first⟩⟩
          refine front.trans ⟨m :: rest, by simp⟩

theorem single_of_not_mem {m : Char} {cs : List Char} (absent : m ∉ cs) : Single m (cs ++ [m]) := by
  refine single_snoc_iff.mpr ⟨fun pair => absent (pair.subset (by simp)), fun last => absent ?_⟩
  exact List.mem_of_getLast? last

/-! ## Blanks -/

/-- A text is what trimming leaves between blanks. -/
theorem exists_trimmed (cs : List Char) : ∃ left right, cs = left ++ trimChars cs ++ right ∧
    (∀ c ∈ left, isBlank c = true) ∧ ∀ c ∈ right, isBlank c = true := by
  refine ⟨cs.takeWhile isBlank, ((cs.dropWhile isBlank).reverse.takeWhile isBlank).reverse, ?_,
    fun c => List.mem_takeWhile_imp, fun c listed => ?_⟩
  · rw [trimChars, dropEndWhile, List.append_assoc, ← List.reverse_append,
      List.takeWhile_append_dropWhile, List.reverse_reverse, List.takeWhile_append_dropWhile]
  · exact List.mem_takeWhile_imp (List.mem_reverse.mp listed)

theorem trimChars_between {left name right : List Char} (blankLeft : ∀ c ∈ left, isBlank c = true)
    (blankRight : ∀ c ∈ right, isBlank c = true) (solid : ∀ c ∈ name, isBlank c = false)
    (some : name ≠ []) : trimChars (left ++ name ++ right) = name := by
  have skip {l : List Char} (blank : ∀ c ∈ l, isBlank c = true) {c : Char} {cs : List Char}
      (stop : isBlank c = false) : (l ++ c :: cs).dropWhile isBlank = c :: cs := by
    rw [List.dropWhile_append, List.dropWhile_eq_nil_iff.mpr blank]
    simp [stop]
  obtain ⟨c, cs, rfl⟩ := List.exists_cons_of_ne_nil some
  obtain ⟨front, d, last⟩ := List.eq_nil_or_concat' (c :: cs) |>.resolve_left (List.cons_ne_nil c cs)
  have blankBack : ∀ c ∈ right.reverse, isBlank c = true := fun c listed =>
    blankRight c (List.mem_reverse.mp listed)
  rw [trimChars, dropEndWhile, List.append_assoc, List.cons_append,
    skip blankLeft (solid c List.mem_cons_self), ← List.cons_append, List.reverse_append, last,
    List.reverse_append, List.reverse_singleton, List.singleton_append,
    skip blankBack (solid d (by simp [last])), List.reverse_cons, List.reverse_reverse]

/-! ## Reading -/

namespace Template

theorem isHoleChar_iff (c : Char) : isHoleChar c = true ↔ c.isAlphanum = true ∨ c = '_' := by
  have letters : c.isAlpha = (c.isUpper || c.isLower) := rfl
  have upper : c.isUpper = decide ('A' ≤ c ∧ c ≤ 'Z') := rfl
  have lower : c.isLower = (decide ('a' ≤ c) && decide (c ≤ 'z')) := rfl
  simp only [isHoleChar, Char.isAlphanum, letters, upper, lower, Char.isDigit,
    Bool.or_eq_true, Bool.and_eq_true, beq_iff_eq, decide_eq_true_eq, Char.le_def, ge_iff_le]
  grind

theorem isBlank_of_isHoleChar {c : Char} (held : isHoleChar c = true) : isBlank c = false := by
  have bounds : c.toNat = 95 ∨ (97 ≤ c.toNat ∧ c.toNat ≤ 122) ∨ (65 ≤ c.toNat ∧ c.toNat ≤ 90) ∨
      (48 ≤ c.toNat ∧ c.toNat ≤ 57) := by
    simp only [isHoleChar, Bool.or_eq_true, Bool.and_eq_true, beq_iff_eq, decide_eq_true_eq,
      Char.le_def, UInt32.le_iff_toNat_le] at held
    rcases held with ((rfl | lower) | upper) | digit
    · exact .inl rfl
    · exact .inr (.inl lower)
    · exact .inr (.inr (.inl upper))
    · exact .inr (.inr (.inr digit))
  simp only [isBlank, Bool.or_eq_false_iff, Bool.and_eq_false_iff, decide_eq_false_iff_not,
    beq_eq_false_iff_ne]
  omega

theorem isHoleName_iff {name : String} : isHoleName name = true ↔
    name ≠ "" ∧ ∀ c ∈ name.toList, c.isAlphanum = true ∨ c = '_' := by
  simp [isHoleName, isHoleChar_iff]

/-- The character whose pair ends the part that is being read. -/
def edge (inHole : Bool) : Char := if inHole then '\x7d' else '\x7b'

variable {code : String} {inHole : Bool} {cs : List Char}

theorem parseChars_general (read : List Char) {c : Char} (opens : ¬['\x7b', '\x7b'] <+: c :: cs)
    (closes : ¬['\x7d', '\x7d'] <+: c :: cs) :
    parseChars code inHole read (c :: cs) = parseChars code inHole (read ++ [c]) cs := by
  rw [parseChars.eq_def]
  split
  · rename_i same
    cases same
  · rename_i rest same
    exact absurd ⟨rest, same.symm⟩ opens
  · rename_i rest same
    exact absurd ⟨rest, same.symm⟩ closes
  · rename_i same
    obtain ⟨rfl, rfl⟩ := List.cons.inj same
    rfl

/-- A character that does not start the pair looked for is collected, also where the reader takes it
with the next. -/
theorem parseChars_step (read : List Char) {c : Char}
    (apart : ¬[edge inHole, edge inHole] <+: c :: cs) :
    parseChars code inHole read (c :: cs) = parseChars code inHole (read ++ [c]) cs := by
  induction size : cs.length using Nat.strongRecOn generalizing read c cs with
  | ind n ih =>
      subst size
      by_cases taken : [edge !inHole, edge !inHole] <+: c :: cs
      · obtain ⟨rest, split⟩ := taken
        simp only [List.cons_append, List.nil_append, List.cons.injEq] at split
        obtain ⟨rfl, rfl⟩ := split
        have next := ih rest.length (by simp) (read ++ [edge !inHole]) (c := edge !inHole)
          (by cases inHole <;> simp [edge]) rfl
        rw [next, List.append_assoc]
        cases inHole <;> rfl
      · cases inHole with
        | false => exact parseChars_general read apart taken
        | true => exact parseChars_general read taken apart

/-- What comes before the first pair is collected. -/
theorem parseChars_run (read : List Char) {part : List Char}
    (first : Single (edge inHole) (part ++ [edge inHole])) :
    parseChars code inHole read (part ++ edge inHole :: edge inHole :: cs) =
      parseChars code inHole (read ++ part) (edge inHole :: edge inHole :: cs) := by
  induction part generalizing read with
  | nil => simp
  | cons c part ih =>
      obtain ⟨apart, rest⟩ := single_cons_iff.mp first
      have front : ¬[edge inHole, edge inHole] <+:
          c :: (part ++ edge inHole :: edge inHole :: cs) := fun pair =>
        apart (List.prefix_of_prefix_length_le pair ⟨edge inHole :: cs, by simp⟩ (by simp))
      rw [List.cons_append, parseChars_step read front, ih _ rest, List.append_assoc]
      rfl

/-- A text without a pair is collected to its end. -/
theorem parseChars_end (read : List Char) {part : List Char} (single : Single (edge inHole) part) :
    parseChars code inHole read part = parseChars code inHole (read ++ part) [] := by
  induction part generalizing read with
  | nil => simp
  | cons c part ih =>
      obtain ⟨apart, rest⟩ := single_cons_iff.mp single
      rw [parseChars_step read apart, ih _ rest, List.append_assoc]
      rfl

theorem parseChars_plain (single : Single '\x7b' cs) :
    parseChars code false [] cs = ⟨literalOf cs, none⟩ :=
  parseChars_end [] single

theorem parseChars_opened :
    parseChars code false [] ('\x7b' :: '\x7b' :: cs) = parseChars code true [] cs := rfl

theorem parseChars_open {before : List Char} (first : Single '\x7b' (before ++ ['\x7b'])) :
    parseChars code false [] (before ++ '\x7b' :: '\x7b' :: cs) =
      (parseChars code true [] cs).prepend (literalOf before) :=
  parseChars_run [] first

/-- What comes before a hole does not change how it is read. -/
theorem parseChars_after {before : List Char} (first : Single '\x7b' (before ++ ['\x7b'])) :
    parseChars code false [] (before ++ '\x7b' :: '\x7b' :: cs) =
      (parseChars code false [] ('\x7b' :: '\x7b' :: cs)).prepend (literalOf before) :=
  parseChars_open first

theorem parseChars_unclosed (single : Single '\x7d' cs) :
    (parseChars code true [] cs).error ≠ none := by
  have unterminated : parseChars code true [] cs = ⟨[], some (.unterminated code)⟩ :=
    parseChars_end [] single
  simp [unterminated]

theorem parseChars_close {inner : List Char} (first : Single '\x7d' (inner ++ ['\x7d'])) :
    parseChars code true [] (inner ++ '\x7d' :: '\x7d' :: cs) =
      if isHoleName (trim (String.ofList inner)) = true then
        (parseChars code false [] cs).prepend [.hole (trim (String.ofList inner))]
      else ⟨[], some (.badName (trim (String.ofList inner)) code)⟩ := by
  have collected : parseChars code true [] (inner ++ '\x7d' :: '\x7d' :: cs) =
      parseChars code true inner ('\x7d' :: '\x7d' :: cs) := parseChars_run [] first
  rw [collected, parseChars, if_pos rfl]

/-- A name between blanks and the pair that closes a hole is read as the name. -/
theorem parseChars_hole {left name right : List Char} (blankLeft : ∀ c ∈ left, isBlank c = true)
    (blankRight : ∀ c ∈ right, isBlank c = true)
    (named : isHoleName (String.ofList name) = true) :
    parseChars code true [] (left ++ name ++ right ++ '\x7d' :: '\x7d' :: cs) =
      (parseChars code false [] cs).prepend [.hole (String.ofList name)] := by
  have held : name ≠ [] ∧ ∀ c ∈ name, isHoleChar c = true := by
    simpa [isHoleName] using named
  have trimmed : trim (String.ofList (left ++ name ++ right)) = String.ofList name := by
    rw [trim, String.toList_ofList, trimChars_between blankLeft blankRight
      (fun c listed => isBlank_of_isHoleChar (held.2 c listed)) held.1]
  have absent : '\x7d' ∉ left ++ name ++ right := by
    intro listed
    simp only [List.mem_append] at listed
    rcases listed with (inLeft | inName) | inRight
    · exact absurd (blankLeft _ inLeft) (by decide)
    · exact absurd (held.2 _ inName) (by decide)
    · exact absurd (blankRight _ inRight) (by decide)
  rw [parseChars_close (single_of_not_mem absent), trimmed, if_pos named]

end Template

/-! ## Writing -/

/-- How a segment is written. -/
def Segment.spelling : Segment → String
  | .literal text => text
  | .hole name => "\x7b\x7b" ++ name ++ "\x7d\x7d"

/-- Segments written one after the other. -/
def spelling (segments : List Segment) : String := String.join (segments.map Segment.spelling)

/-- Whether two segments can stand side by side: not two literals, and no brace before a mark. -/
def Segment.Meets : Segment → Segment → Prop
  | .literal _, .literal _ => False
  | .literal text, .hole _ => text.toList.getLast? ≠ some '\x7b'
  | .hole _, _ => True

/-- Segments that cannot be misread. -/
structure Canonical (segments : List Segment) : Prop where
  literals : ∀ text, .literal text ∈ segments → text ≠ "" ∧ Single '\x7b' text.toList
  holes : ∀ name, .hole name ∈ segments →
    name ≠ "" ∧ ∀ c ∈ name.toList, c.isAlphanum = true ∨ c = '_'
  meet : segments.IsChain Segment.Meets

/-- `Tightens code out`: every mark in `code` that opens a hole is followed by a name between blanks and
by the mark that closes it, and `out` is `code` without these blanks. -/
inductive Tightens : List Char → List Char → Prop
  | plain {code : List Char} (single : Single '\x7b' code) : Tightens code code
  | hole {before left name right rest out : List Char} (first : Single '\x7b' (before ++ ['\x7b']))
      (blankLeft : ∀ c ∈ left, isBlank c = true) (some : name ≠ [])
      (named : ∀ c ∈ name, c.isAlphanum = true ∨ c = '_')
      (blankRight : ∀ c ∈ right, isBlank c = true) (tightens : Tightens rest out) :
      Tightens
        (before ++ '\x7b' :: '\x7b' :: (left ++ name ++ right ++ '\x7d' :: '\x7d' :: rest))
        (before ++ '\x7b' :: '\x7b' :: (name ++ '\x7d' :: '\x7d' :: out))

variable {segments : List Segment}

theorem toList_spelling_cons (s : Segment) (segments : List Segment) :
    (spelling (s :: segments)).toList = s.spelling.toList ++ (spelling segments).toList := by
  rw [spelling, List.map_cons, String.join_cons, String.toList_append, spelling]

theorem toList_spelling_hole (name : String) (segments : List Segment) :
    (spelling (.hole name :: segments)).toList =
      '\x7b' :: '\x7b' :: (name.toList ++ '\x7d' :: '\x7d' :: (spelling segments).toList) := by
  rw [toList_spelling_cons]
  simp [Segment.spelling]

theorem toList_spelling_literalOf (text : List Char) (segments : List Segment) :
    (spelling (Template.literalOf text ++ segments)).toList = text ++ (spelling segments).toList := by
  unfold Template.literalOf
  cases text with
  | nil => rfl
  | cons c cs =>
      rw [List.isEmpty_cons, if_neg Bool.false_ne_true, List.singleton_append, toList_spelling_cons,
        Segment.spelling, String.toList_ofList]

namespace Canonical

theorem nil : Canonical [] := ⟨nofun, nofun, .nil⟩

theorem tail {s : Segment} (canonical : Canonical (s :: segments)) : Canonical segments where
  literals text listed := canonical.literals text (List.mem_cons_of_mem s listed)
  holes name listed := canonical.holes name (List.mem_cons_of_mem s listed)
  meet := by
    cases segments with
    | nil => exact .nil
    | cons t segments => exact (List.isChain_cons_cons.mp canonical.meet).2

theorem hole {name : String} (some : name ≠ "")
    (named : ∀ c ∈ name.toList, c.isAlphanum = true ∨ c = '_') (canonical : Canonical segments) :
    Canonical (.hole name :: segments) where
  literals text listed := canonical.literals text (by simpa using listed)
  holes other listed := by
    rcases List.mem_cons.mp listed with same | later
    · cases same
      exact ⟨some, named⟩
    · exact canonical.holes other later
  meet := by
    cases segments with
    | nil => exact .singleton _
    | cons s segments => exact List.isChain_cons_cons.mpr ⟨trivial, canonical.meet⟩

theorem literal {text : String} (some : text ≠ "") (single : Single '\x7b' text.toList)
    (meets : ∀ s ∈ segments.head?, Segment.Meets (.literal text) s) (canonical : Canonical segments) :
    Canonical (.literal text :: segments) where
  literals other listed := by
    rcases List.mem_cons.mp listed with same | later
    · cases same
      exact ⟨some, single⟩
    · exact canonical.literals other later
  holes name listed := canonical.holes name (by simpa using listed)
  meet := by
    cases segments with
    | nil => exact .singleton _
    | cons s segments => exact List.isChain_cons_cons.mpr ⟨meets s rfl, canonical.meet⟩

end Canonical

namespace Template

variable {code : String}

/-- Segments that cannot be misread are read as they are. -/
theorem parseChars_spelling (canonical : Canonical segments) :
    parseChars code false [] (spelling segments).toList = ⟨segments, none⟩ := by
  induction segments with
  | nil => rfl
  | cons s segments ih =>
      cases s with
      | hole name =>
          have named : isHoleName (String.ofList name.toList) = true := by
            rw [String.ofList_toList]
            exact isHoleName_iff.mpr (canonical.holes name List.mem_cons_self)
          have read : parseChars code true []
              (name.toList ++ '\x7d' :: '\x7d' :: (spelling segments).toList) =
                (parseChars code false [] (spelling segments).toList).prepend [.hole name] := by
            have between := @parseChars_hole code (spelling segments).toList [] name.toList []
              nofun nofun named
            rwa [List.nil_append, List.append_nil, String.ofList_toList] at between
          rw [toList_spelling_hole, parseChars_opened, read, ih canonical.tail]
          rfl
      | literal text =>
          obtain ⟨some, single⟩ := canonical.literals text List.mem_cons_self
          have whole : literalOf text.toList = [.literal text] := by
            simp [literalOf, some]
          cases segments with
          | nil =>
              have plain : (spelling [.literal text]).toList = text.toList := by
                rw [toList_spelling_cons]
                exact List.append_nil _
              rw [plain, parseChars_plain single, whole]
          | cons s segments =>
              have meets := (List.isChain_cons_cons.mp canonical.meet).1
              cases s with
              | literal other => exact absurd meets id
              | hole name =>
                  have rest := ih canonical.tail
                  rw [toList_spelling_hole] at rest
                  rw [toList_spelling_cons, toList_spelling_hole, Segment.spelling,
                    parseChars_after (single_snoc_iff.mpr ⟨single, meets⟩), rest, whole]
                  rfl

/-- A text whose holes can be read is tightened to the segments that are read. -/
theorem parseChars_of_tightens (code : String) {cs out : List Char} (tightens : Tightens cs out) :
    (parseChars code false [] cs).error = none ∧
      out = (spelling (parseChars code false [] cs).segments).toList ∧
      Canonical (parseChars code false [] cs).segments := by
  induction tightens with
  | @plain cs single =>
      rw [parseChars_plain single]
      refine ⟨rfl, ?_, ?_⟩
      · have written := toList_spelling_literalOf cs []
        rw [List.append_nil] at written
        rw [written]
        exact (List.append_nil cs).symm
      · unfold literalOf
        split
        · exact .nil
        · rename_i some
          refine .literal ?_ (by rwa [String.toList_ofList]) nofun .nil
          simpa [String.ofList_eq_empty_iff] using some
  | @hole before left name right rest out first blankLeft some named blankRight tightens ih =>
      obtain ⟨error, written, canonical⟩ := ih
      have nameRead : isHoleName (String.ofList name) = true := by
        rw [isHoleName_iff, String.toList_ofList]
        exact ⟨by simpa using some, named⟩
      rw [parseChars_open first, parseChars_hole blankLeft blankRight nameRead]
      refine ⟨error, ?_, ?_⟩
      · simp only [Parsed.prepend]
        rw [toList_spelling_literalOf, List.singleton_append, toList_spelling_hole,
          String.toList_ofList, ← written]
      · have headed : Canonical (.hole (String.ofList name) :: (parseChars code false [] rest).segments) :=
          canonical.hole (isHoleName_iff.mp nameRead).1 (isHoleName_iff.mp nameRead).2
        obtain ⟨single, last⟩ := single_snoc_iff.mp first
        simp only [Parsed.prepend, List.singleton_append]
        unfold literalOf
        split
        · exact headed
        · rename_i some
          refine .literal ?_ (by rwa [String.toList_ofList]) (fun s head => ?_) headed
          · simpa [String.ofList_eq_empty_iff] using some
          · obtain rfl := Option.some.inj head
            rwa [Segment.Meets, String.toList_ofList]

/-- A text that can be read is tightened. -/
theorem tightens_of_parseChars {cs : List Char} (ok : (parseChars code false [] cs).error = none) :
    ∃ out, Tightens cs out := by
  induction size : cs.length using Nat.strongRecOn generalizing cs with
  | ind n ih =>
      subst size
      rcases exists_first_pair '\x7b' cs with single | ⟨before, inside, rfl, first⟩
      · exact ⟨cs, .plain single⟩
      rw [parseChars_open first] at ok
      rcases exists_first_pair '\x7d' inside with single | ⟨inner, rest, rfl, closes⟩
      · exact absurd ok (parseChars_unclosed single)
      simp only [Parsed.prepend, parseChars_close closes] at ok
      split at ok
      · rename_i named
        obtain ⟨out, tightens⟩ := ih rest.length (by simp; omega) ok rfl
        obtain ⟨left, right, split, blankLeft, blankRight⟩ := exists_trimmed inner
        rw [trim, String.toList_ofList, isHoleName_iff, String.toList_ofList] at named
        rw [split]
        exact ⟨_, .hole first blankLeft (by simpa using named.1) named.2 blankRight tightens⟩
      · cases ok

end Template

/-- Segments that cannot be misread are read back as they are, and no others are. -/
theorem parse_spelling_iff (segments : List Segment) :
    Template.parse (spelling segments) = ⟨segments, none⟩ ↔ Canonical segments := by
  constructor
  · intro read
    have read : Template.parseChars (spelling segments) false [] (spelling segments).toList =
        ⟨segments, none⟩ := read
    obtain ⟨out, tightens⟩ := Template.tightens_of_parseChars (congrArg Template.Parsed.error read)
    have canonical := (Template.parseChars_of_tightens (spelling segments) tightens).2.2
    rwa [read] at canonical
  · exact Template.parseChars_spelling

/-- A text can be tightened if it can be read, and then to its segments. -/
theorem tightens_iff (code out : String) : Tightens code.toList out.toList ↔
    (Template.parse code).error = none ∧ out = spelling (Template.parse code).segments := by
  constructor
  · intro tightens
    obtain ⟨error, written, -⟩ := Template.parseChars_of_tightens code tightens
    exact ⟨error, String.toList_inj.mp written⟩
  · rintro ⟨error, rfl⟩
    obtain ⟨out, tightens⟩ := Template.tightens_of_parseChars error
    obtain ⟨-, written, -⟩ := Template.parseChars_of_tightens code tightens
    rwa [written] at tightens

/-! ## Rendering -/

/-- A segment with the value of its hole, or as it is written where the name has none. -/
def Segment.filled (value : String → Option String) : Segment → String
  | .literal text => text
  | .hole name => (value name).getD (Segment.hole name).spelling

namespace Template

variable {t : Template} {b : Bindings}

/-- The code can be read, and it has not been read or it has been read as it is. -/
def IsRead (t : Template) : Prop :=
  (parse t.code).error = none ∧ (t.segments = [] ∨ t.segments = (parse t.code).segments)

theorem mem_missing {name : String} : name ∈ missing b segments ↔
    Segment.hole name ∈ segments ∧ b.lookup name = none := by
  unfold missing
  rw [Text.mem_distinct, List.mem_filterMap]
  constructor
  · rintro ⟨s, member, found⟩
    cases s with
    | literal text => cases found
    | hole other =>
        simp only [Option.isNone_iff_eq_none, Option.ite_none_right_eq_some,
          Option.some.injEq] at found
        exact found.2 ▸ ⟨member, found.1⟩
  · rintro ⟨member, unbound⟩
    exact ⟨.hole name, member, by simp [unbound]⟩

theorem missing_pairwise (b : Bindings) (segments : List Segment) :
    (missing b segments).Pairwise (· < ·) :=
  Text.distinct_pairwise _

theorem renderSegment_eq (b : Bindings) : renderSegment b = Segment.filled (b.lookup ·) := by
  funext s
  cases s <;> rfl

/-- Every hole that has a value is filled with it; the others are left and told in order. -/
theorem render_spec (read : t.IsRead) (b : Bindings) : ∃ names : List String,
    names.Pairwise (· < ·) ∧
    (∀ name, name ∈ names ↔
      .hole name ∈ (parse t.code).segments ∧ b.lookup name = none) ∧
    t.render b = (String.join ((parse t.code).segments.map (Segment.filled (b.lookup ·))),
      if names = [] then none else some (.unresolved names)) := by
  obtain ⟨error, kept⟩ := read
  have unread : t.compileError? = none := error
  have segments : t.prepared.segments = (parse t.code).segments := by
    unfold prepared
    rcases kept with empty | same
    · rw [empty]
      rfl
    · split
      · rfl
      · exact same
  refine ⟨missing b (parse t.code).segments, missing_pairwise b _, fun name => mem_missing, ?_⟩
  simp [render, unread, segments, renderSegments, renderSegment_eq]

end Template

/-- Segments that cannot be misread, and no others, are what reading their text gives; a text can be
read if it can be tightened, and then its segments, one after the other, are the tightened text; and
a template that was read is rendered with every value as it is, and the sorted names of the holes
without one are its only fault. -/
theorem template_faithful :
    (∀ segments, Template.parse (spelling segments) = ⟨segments, none⟩ ↔ Canonical segments) ∧
    (∀ code out : String, Tightens code.toList out.toList ↔
      (Template.parse code).error = none ∧ out = spelling (Template.parse code).segments) ∧
    ∀ t : Template, t.IsRead → ∀ b : Bindings, ∃ names : List String,
      names.Pairwise (· < ·) ∧
      (∀ name, name ∈ names ↔
        .hole name ∈ (Template.parse t.code).segments ∧ b.lookup name = none) ∧
      t.render b = (String.join ((Template.parse t.code).segments.map (Segment.filled (b.lookup ·))),
        if names = [] then none else some (.unresolved names)) :=
  ⟨parse_spelling_iff, tightens_iff, fun _ => Template.render_spec⟩

/-- A brace that closes nothing, two holes side by side, one of them twice, and a value that looks
like a hole. -/
theorem template_faithful_verbatim :
    let code := "\x7d\x7d f(\x7b\x7b a\x7d\x7d\x7b\x7bc \x7d\x7d, \x7b\x7bb\x7d\x7d) \x7b\x7bb\x7d\x7d"
    let t : Template := { code := code }
    Tightens code.toList
        "\x7d\x7d f(\x7b\x7ba\x7d\x7d\x7b\x7bc\x7d\x7d, \x7b\x7bb\x7d\x7d) \x7b\x7bb\x7d\x7d".toList ∧
      t.IsRead ∧
      t.render [("a", "\x7b\x7bc\x7d\x7d")] =
        ("\x7d\x7d f(\x7b\x7bc\x7d\x7d\x7b\x7bc\x7d\x7d, \x7b\x7bb\x7d\x7d) \x7b\x7bb\x7d\x7d",
          some (.unresolved ["b", "c"])) := by
  intro code t
  obtain ⟨-, tightens, rendered⟩ := template_faithful
  have segments : Template.parse code = ⟨[.literal "\x7d\x7d f(", .hole "a", .hole "c", .literal ", ",
      .hole "b", .literal ") ", .hole "b"], none⟩ := by decide
  have read : t.IsRead := ⟨congrArg Template.Parsed.error segments, .inl rfl⟩
  refine ⟨(tightens _ _).mpr ⟨read.1, by rw [segments]; decide⟩, read, ?_⟩
  obtain ⟨names, increase, which, result⟩ := rendered t read [("a", "\x7b\x7bc\x7d\x7d")]
  have given : names = ["b", "c"] := by
    refine Text.eq_of_pairwise increase (by decide) fun name => ?_
    rw [which, segments]
    simp only [List.mem_cons, List.not_mem_nil, reduceCtorEq, Segment.hole.injEq, false_or, or_false,
      List.lookup_cons, List.lookup_nil]
    by_cases bound : name = "a"
    · simp [bound]
    · simp [bound, beq_eq_false_iff_ne.mpr bound, Or.comm]
  rw [result, given, segments]
  decide

end Retarget
