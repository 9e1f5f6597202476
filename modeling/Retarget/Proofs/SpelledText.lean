/-
# Proofs.SpelledText -- a file of kernels read from the characters of its text

A text is kept as bytes, and every step of reading a file asks it for its characters anew: to look
for the package clause, to find the lines, to cut the lexemes.  Here the steps are told of the
characters themselves.  A text whose characters are known is then read without looking at its bytes
(`parseKernels_spelled`), and for a text that is put together from literals they are known by
`toList_join` and `String.toList_ofList`.
-/
import Retarget.Kernel.Unit

namespace Retarget

set_option autoImplicit false

namespace Text

theorem toList_join {s t : String} {cs ds : List Char} (left : s.toList = cs)
    (right : t.toList = ds) : (s ++ t).toList = cs ++ ds := by
  rw [String.toList_append, left, right]

theorem startsWith_trim {s start : String} {cs ds : List Char} (text : s.toList = cs)
    (first : start.toList = ds) : startsWith (trim s) start = ds.isPrefixOf (trimChars cs) := by
  rw [startsWith, trim, String.toList_ofList, text, first]

theorem toList_trimEnd (set : List Char) {s : String} {cs : List Char} (text : s.toList = cs) :
    (trimEnd set s).toList = dropEndWhile set.contains cs := by
  rw [trimEnd, String.toList_ofList, text]

end Text

namespace Source

/-- The bytes at which lines start. -/
def LineTable.startsIn (cs : List Char) : List Nat :=
  (cs.foldl (fun (offset, starts) c =>
    let offset := offset + c.utf8Size
    (offset, if c == '\n' then offset :: starts else starts)) (0, [0])).2.reverse

/-- The table of a text with these characters. -/
def LineTable.within? (cs : List Char) (comments : List Comment) : Option LineTable := do
  let starts := startsIn cs
  let claims ← comments.mapM fun c => c.claim (starts.contains c.start)
  return ⟨starts, (claims.filterMap id).filter fun c => c.offset < (String.ofList cs).utf8ByteSize⟩

/-- The lexemes of a file with these characters, and where its lines are. -/
def lexemesOf (text : List Char) : Option (List Lexeme × LineTable) := do
  let (offset, cs) := match text with
    | c :: cs => if c.toNat == 0xfeff then (3, cs) else (0, c :: cs)
    | [] => (0, [])
  if cs.any isRefused then none
  let pieces ← lexFrom (cs.length + 1) offset false cs
  let lines ← LineTable.within? text (pieces.filterMap Sum.getRight?)
  return (pieces.filterMap Sum.getLeft?, lines)

/-- A file with these characters, or `none` if it is not well formed. -/
def readFile (text : List Char) : Option SourceFile := do
  let (lexemes, lines) ← lexemesOf text
  let start : ParseState :=
    { rest := lexemes, finish := (String.ofList text).utf8ByteSize, nextId := 0, level := 0 }
  let (decls, _) ← (Parse.file (Parse.grammar (4 * lexemes.length + 16))).run start
  return ⟨decls, lines⟩

theorem lex_ofList (cs : List Char) : lex (String.ofList cs) = lexemesOf cs := by
  simp only [lex, LineTable.of?, LineTable.startsOf, String.toList_ofList]
  rfl

theorem parseFile_ofList (cs : List Char) : parseFile (String.ofList cs) = readFile cs := by
  rw [parseFile, readFile, lex_ofList]

end Source

namespace SourceUnit

/-- A unit from a file with these characters that has its own package clause. -/
def readUnit (file : String) (text : List Char) : Except UnitError SourceUnit :=
  (Source.readFile text).elim (.error (.malformed file)) fun parsed => .ok (unitOf file parsed)

/-- The first word of a package clause. -/
def packageWord : List Char := ['p', 'a', 'c', 'k', 'a', 'g', 'e', ' ']

/-- The package clause of a file that has none. -/
def packageLine : List Char :=
  packageWord ++ ['k', 'e', 'r', 'n', 'e', 'l', 's', '\n', '\n']

/-- A unit from kernel text with these characters. -/
def readKernels (file : String) (text : List Char) : Except UnitError SourceUnit :=
  if packageWord.isPrefixOf (Text.trimChars text) then readUnit file text
  else readUnit file (packageLine ++ text)

variable {text : String} {cs : List Char}

theorem parse_spelled (file : String) (spelled : text.toList = cs) :
    parse file text = readUnit file cs := by
  obtain rfl : String.ofList cs = text := spelled ▸ String.ofList_toList
  rw [parse, readUnit, Source.parseFile_ofList]
  cases Source.readFile cs <;> rfl

theorem parseKernels_spelled (file : String) (spelled : text.toList = cs) :
    parseKernels file text = readKernels file cs := by
  have word : "package ".toList = packageWord := String.toList_ofList
  have line : ("package kernels\n\n" ++ text).toList = packageLine ++ cs :=
    Text.toList_join String.toList_ofList spelled
  rw [parseKernels, readKernels, Text.startsWith_trim spelled word, parse_spelled file spelled,
    parse_spelled file line]

end SourceUnit

end Retarget
