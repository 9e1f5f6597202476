/-
# Text.Basic -- searching, splitting and trimming text

Every operation works on the list of characters, so that each is a plain recursion with the
list as its view. White space is the Unicode property White_Space.
-/

namespace Retarget.Text

/-- The characters with the property White_Space. -/
def isBlank (c : Char) : Bool :=
  let n := c.toNat
  (9 ≤ n && n ≤ 13) || n == 0x20 || n == 0x85 || n == 0xa0 || n == 0x1680 ||
    (0x2000 ≤ n && n ≤ 0x200a) || n == 0x2028 || n == 0x2029 || n == 0x202f || n == 0x205f ||
    n == 0x3000

/-! ## Trimming -/

def dropEndWhile (p : Char → Bool) (cs : List Char) : List Char :=
  (cs.reverse.dropWhile p).reverse

def trimChars (cs : List Char) : List Char :=
  dropEndWhile isBlank (cs.dropWhile isBlank)

def trim (s : String) : String := String.ofList (trimChars s.toList)

/-- Drop the characters of `set` from the end. -/
def trimEnd (set : List Char) (s : String) : String :=
  String.ofList (dropEndWhile set.contains s.toList)

/-! ## Beginnings, ends and occurrences -/

def startsWith (s start : String) : Bool := start.toList.isPrefixOf s.toList

def endsWith (s tail : String) : Bool := tail.toList.isSuffixOf s.toList

/-- `s` without the beginning `start`, or `s` itself when it begins otherwise. -/
def dropStart (s start : String) : String :=
  if startsWith s start then String.ofList (s.toList.drop start.toList.length) else s

/-- `s` without the end `tail`, or `s` itself when it ends otherwise. -/
def dropEnd (s tail : String) : String :=
  if endsWith s tail then
    String.ofList (s.toList.take (s.toList.length - tail.toList.length))
  else s

def occursIn (part : List Char) : List Char → Bool
  | [] => part.isEmpty
  | c :: cs => part.isPrefixOf (c :: cs) || occursIn part cs

def contains (s part : String) : Bool := occursIn part.toList s.toList

/-! ## Splitting and joining -/

/-- Cut `cs` at every occurrence of the character `sep`; there is one piece more than
separators. -/
def splitChars (sep : Char) : List Char → List (List Char)
  | [] => [[]]
  | c :: cs =>
    if c == sep then [] :: splitChars sep cs
    else match splitChars sep cs with
      | [] => [[c]]
      | piece :: pieces => (c :: piece) :: pieces

def splitAt (sep : Char) (s : String) : List String :=
  (splitChars sep s.toList).map String.ofList

def join (sep : String) (parts : List String) : String := String.intercalate sep parts

/-- Every occurrence of `old`, found from the left and never overlapping, becomes `new`. The
number `skip` counts the characters of a found occurrence still to be passed over. -/
def replaceChars (old new : List Char) : Nat → List Char → List Char
  | _, [] => []
  | skip + 1, _ :: cs => replaceChars old new skip cs
  | 0, c :: cs =>
    if old.isPrefixOf (c :: cs) then new ++ replaceChars old new (old.length - 1) cs
    else c :: replaceChars old new 0 cs

/-- Replace a non-empty text everywhere. -/
def replaceAll (old new s : String) : String :=
  if old.isEmpty then s else String.ofList (replaceChars old.toList new.toList 0 s.toList)

def repeated (s : String) (n : Nat) : String := String.join (List.replicate n s)

/-! ## Collections of words -/

/-- Append the words that are not in the list yet. -/
def addNew (words : List String) (more : List String) : List String :=
  more.foldl (fun acc w => if acc.contains w then acc else acc ++ [w]) words

/-- Order by code points, which is the order of the UTF-8 bytes. -/
def sorted (words : List String) : List String :=
  words.mergeSort fun a b => !(b < a)

end Retarget.Text
