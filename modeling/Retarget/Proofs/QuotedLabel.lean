/-
# Proofs.QuotedLabel -- escaped text is one string between its quotes and can be read back

A string is read from left to right: a backslash takes the byte after it along, whatever it is, and
the first quote that is not taken along closes the string (`readString?`).  Escaping puts a
backslash before every quote, every backslash and every new line, the last of which becomes a
letter.  So reading comes to the closing quote and no earlier, and no new line is left to stop it
(`readQuoted?_escapeBytes`).  Each escape tells the byte it was made for, as a letter is never
escaped otherwise (`unescape_escapeBytes`).

A label is cut before it is escaped, so a cut never falls into an escape.  It may fall into a
character; that is why all of this is told of bytes, which may be no text.  On a text, escaping is
the same whether it is taken as bytes or as characters (`bytes_escape`).
-/
import Retarget.Dot

namespace Retarget

set_option autoImplicit false

/-! ## Texts and their bytes -/

namespace Text

theorem firstChar?_encode (c : Char) (rest : List UInt8) :
    firstChar? (String.utf8EncodeChar c ++ rest) = some c := by
  have short : (String.utf8EncodeChar c).length ≤ 4 := by
    rw [String.length_utf8EncodeChar]
    exact c.utf8Size_le_four
  rw [firstChar?, List.take_append, List.take_of_length_le short, List.toByteArray_append]
  exact ByteArray.utf8DecodeChar?_utf8EncodeChar_append

theorem readChars_skip (taken rest : List UInt8) :
    readChars taken.length (taken ++ rest) = readChars 0 rest := by
  induction taken with
  | nil => rfl
  | cons b taken ih => rwa [List.cons_append, List.length_cons, readChars]

theorem readChars_encode (c : Char) (rest : List UInt8) :
    readChars 0 (String.utf8EncodeChar c ++ rest) = c :: readChars 0 rest := by
  have first := firstChar?_encode c rest
  have size := String.length_utf8EncodeChar c
  cases encoded : String.utf8EncodeChar c with
  | nil =>
      rw [encoded, List.length_nil] at size
      exact absurd size.symm (Nat.ne_of_gt c.utf8Size_pos)
  | cons b taken =>
      rw [encoded, List.cons_append] at first
      rw [encoded, List.length_cons] at size
      simp only [List.cons_append, readChars, first, ← size, Nat.add_sub_cancel]
      exact congrArg (c :: ·) (readChars_skip taken rest)

theorem readChars_flatMap (cs : List Char) :
    readChars 0 (cs.flatMap String.utf8EncodeChar) = cs := by
  induction cs with
  | nil => rfl
  | cons c cs ih => rw [List.flatMap_cons, readChars_encode, ih]

/-- The bytes of a text are read as that text. -/
theorem ofBytes_bytes (s : String) : ofBytes (bytes s) = s := by
  rw [ofBytes, bytes, readChars_flatMap, String.ofList_toList]

end Text

namespace Dot

open Text (bytes ofBytes trimBytes shortenBytes)

/-! ## Reading strings and escapes -/

/-- Read up to the quote that closes a string: what stands before it and what comes after.  The
first byte may be `taken` along by a backslash.  Nothing is read when a new line or the end comes
before the quote. -/
def readQuoted? (taken : Bool) : List UInt8 → Option (List UInt8 × List UInt8)
  | [] => none
  | b :: bs =>
    if b == newline then none
    else if !taken && b == quote then some ([], bs)
    else (readQuoted? (!taken && b == backslash) bs).map fun (text, rest) => (b :: text, rest)

/-- Read a string that begins with its opening quote. -/
def readString? : List UInt8 → Option (List UInt8 × List UInt8)
  | [] => none
  | b :: bs => if b == quote then readQuoted? false bs else none

/-- Undo escapes: after a backslash the mark stands for a new line, and any other byte for itself. -/
def unescape : List UInt8 → List UInt8
  | [] => []
  | [b] => [b]
  | b :: c :: bs =>
    if b == backslash then (if c == newlineMark then newline else c) :: unescape bs
    else b :: unescape (c :: bs)

/-- How one byte is written. -/
theorem escapeBytes_cons (b : UInt8) (bs : List UInt8) :
    (b = newline ∧ escapeBytes (b :: bs) = backslash :: newlineMark :: escapeBytes bs) ∨
    (b ≠ newline ∧ b ≠ newlineMark ∧ escapeBytes (b :: bs) = backslash :: b :: escapeBytes bs) ∨
    (b ≠ newline ∧ b ≠ quote ∧ b ≠ backslash ∧ escapeBytes (b :: bs) = b :: escapeBytes bs) := by
  rw [escapeBytes]
  by_cases line : b = newline
  · exact .inl ⟨line, if_pos (beq_iff_eq.mpr line)⟩
  rw [if_neg (by simpa using line)]
  by_cases reserved : isReserved b = true
  · refine .inr (.inl ⟨line, ?_, if_pos reserved⟩)
    rintro rfl
    exact absurd reserved (by decide)
  · refine .inr (.inr ⟨line, ?_, ?_, if_neg reserved⟩)
    · rintro rfl
      exact reserved (by decide)
    · rintro rfl
      exact reserved (by decide)

theorem unescape_escapeBytes (s : List UInt8) : unescape (escapeBytes s) = s := by
  induction s with
  | nil => rfl
  | cons b bs ih =>
      rcases escapeBytes_cons b bs with ⟨rfl, written⟩ | ⟨-, other, written⟩ | ⟨-, -, plain, written⟩
      · rw [written, unescape, ih]
        rfl
      · rw [written, unescape, ih]
        simp [other]
      · rw [written]
        cases rest : escapeBytes bs with
        | nil =>
            rw [rest] at ih
            rw [unescape, ← ih]
            rfl
        | cons c cs => rw [unescape, if_neg (by simpa using plain), ← rest, ih]

/-- Escaped text is read up to the quote after it. -/
theorem readQuoted?_escapeBytes (s rest : List UInt8) :
    readQuoted? false (escapeBytes s ++ quote :: rest) = some (escapeBytes s, rest) := by
  have marks : backslash ≠ quote ∧ backslash ≠ newline ∧ newlineMark ≠ newline ∧ quote ≠ newline := by
    decide
  induction s with
  | nil => simp [escapeBytes, readQuoted?, marks]
  | cons b bs ih =>
      rcases escapeBytes_cons b bs with ⟨-, written⟩ | ⟨line, -, written⟩ | ⟨line, closing, plain, written⟩
      · simp [written, readQuoted?, marks, ih]
      · simp [written, readQuoted?, marks, line, ih]
      · simp [written, readQuoted?, line, closing, beq_false_of_ne plain, ih]

theorem readString?_escapeBytes (s rest : List UInt8) :
    readString? (quote :: (escapeBytes s ++ quote :: rest)) = some (escapeBytes s, rest) := by
  rw [readString?, if_pos (beq_self_eq_true quote), readQuoted?_escapeBytes]

theorem newline_not_mem_escapeBytes (s : List UInt8) : newline ∉ escapeBytes s := by
  have marks : newline ≠ backslash ∧ newline ≠ newlineMark := by decide
  induction s with
  | nil => exact List.not_mem_nil
  | cons b bs ih =>
      rcases escapeBytes_cons b bs with ⟨-, written⟩ | ⟨line, -, written⟩ | ⟨line, -, -, written⟩
      · simp [written, marks, ih]
      · simp [written, marks, Ne.symm line, ih]
      · simp [written, Ne.symm line, ih]

/-! ## Labels -/

theorem length_labelText (s : List UInt8) : (labelText s).length ≤ maxLabel := by
  have dots : (bytes "...").length = 3 := by decide
  rw [labelText, shortenBytes]
  split
  · rw [List.length_append, List.length_take, dots, maxLabel]
    omega
  · exact Nat.le_of_not_lt ‹_›

/-- A label says the line in full, or a beginning of it with dots after it. -/
theorem labelText_cases (s : List UInt8) :
    let line := trimBytes (s.takeWhile (· != newline))
    labelText s = line ∨ ∃ kept, kept <+: line ∧ kept.length = maxLabel - 3 ∧
      labelText s = kept ++ bytes "..." := by
  intro line
  rw [labelText, shortenBytes]
  split
  · rename_i long
    exact .inr ⟨_, List.take_prefix _ _,
      List.length_take_of_le (Nat.le_trans (Nat.sub_le _ _) (Nat.le_of_lt long)), rfl⟩
  · exact .inl rfl

/-! ## Escaped texts -/

theorem escapeBytes_append (s t : List UInt8) :
    escapeBytes (s ++ t) = escapeBytes s ++ escapeBytes t := by
  induction s with
  | nil => rfl
  | cons b s ih =>
      simp only [List.cons_append, escapeBytes, ih]
      split
      · rfl
      · split <;> rfl

theorem escapeBytes_eq_self {s : List UInt8} (high : ∀ b ∈ s, 128 ≤ b) : escapeBytes s = s := by
  induction s with
  | nil => rfl
  | cons b s ih =>
      obtain ⟨here, later⟩ := List.forall_mem_cons.mp high
      have line : b ≠ newline := by
        rintro rfl
        exact absurd here (by decide)
      have plain : isReserved b = false := by
        rw [isReserved, ← Bool.not_eq_true, List.contains_iff_mem]
        intro reserved
        have low : (['\\', '"', '<', '>', '\x7b', '\x7d', '|'].map Char.toUInt8).all (· < 128) := by
          decide
        have below : b < 128 := by simpa using List.all_eq_true.mp low b reserved
        exact absurd below (UInt8.not_lt.mpr here)
      rw [escapeBytes, if_neg (by simpa using line), plain, ih later]
      rfl

/-- A character has one byte, or several that are all above those that are reserved. -/
theorem encode_cases (c : Char) : (∃ b : UInt8, String.utf8EncodeChar c = [b]) ∨
    ∀ b ∈ String.utf8EncodeChar c, 128 ≤ b := by
  have high (n : Nat) (above : 128 ≤ n % 256) : 128 ≤ UInt8.ofNat n := by
    rwa [UInt8.le_iff_toNat_le, UInt8.toNat_ofNat']
  by_cases one : c.val.toNat ≤ 127
  · exact .inl ⟨_, if_pos one⟩
  refine .inr fun b member => ?_
  rw [String.utf8EncodeChar, if_neg one] at member
  split at member
  · simp only [List.mem_cons, List.not_mem_nil, or_false] at member
    rcases member with rfl | rfl <;> exact high _ (by omega)
  split at member
  · simp only [List.mem_cons, List.not_mem_nil, or_false] at member
    rcases member with rfl | rfl | rfl <;> exact high _ (by omega)
  · simp only [List.mem_cons, List.not_mem_nil, or_false] at member
    rcases member with rfl | rfl | rfl | rfl <;> exact high _ (by omega)

theorem exists_encoded (c : Char) :
    ∃ cs : List Char, escapeBytes (String.utf8EncodeChar c) = cs.flatMap String.utf8EncodeChar := by
  have marks : String.utf8EncodeChar '\\' = [backslash] ∧ String.utf8EncodeChar 'n' = [newlineMark] := by
    decide
  rcases encode_cases c with ⟨b, single⟩ | high
  · rcases escapeBytes_cons b [] with ⟨-, written⟩ | ⟨-, -, written⟩ | ⟨-, -, -, written⟩
    · exact ⟨['\\', 'n'], by simp [single, written, marks, escapeBytes]⟩
    · exact ⟨['\\', c], by simp [single, written, marks, escapeBytes]⟩
    · exact ⟨[c], by simp [single, written, escapeBytes]⟩
  · exact ⟨[c], by rw [escapeBytes_eq_self high, List.flatMap_singleton]⟩

/-- Escaping a text escapes its bytes. -/
theorem bytes_escape (t : String) : bytes (escape t) = escapeBytes (bytes t) := by
  obtain ⟨cs, encoded⟩ : ∃ cs : List Char,
      escapeBytes (bytes t) = cs.flatMap String.utf8EncodeChar := by
    rw [bytes]
    induction t.toList with
    | nil => exact ⟨[], rfl⟩
    | cons c rest ih =>
        obtain ⟨first, here⟩ := exists_encoded c
        obtain ⟨more, later⟩ := ih
        exact ⟨first ++ more, by rw [List.flatMap_cons, escapeBytes_append, here, later, List.flatMap_append]⟩
  rw [escape, encoded, ofBytes, Text.readChars_flatMap, bytes, String.toList_ofList]

/-- Any bytes: their escapes can be undone; escaped, or made a label of, they are exactly what is
read between two quotes, with no new line in it; and a label is the whole of what is escaped of it,
at most fifty bytes that are the first line or a beginning of it.  The bytes of an escaped text are
the escaped bytes of the text. -/
theorem quoted_reads_back (s : List UInt8) :
    unescape (escapeBytes s) = s ∧
      (∀ rest, readString? (quote :: (escapeBytes s ++ quote :: rest)) = some (escapeBytes s, rest)) ∧
      newline ∉ escapeBytes s ∧
      (∀ rest, readString? (quote :: (labelBytes s ++ quote :: rest)) = some (labelBytes s, rest)) ∧
      newline ∉ labelBytes s ∧
      (unescape (labelBytes s) = labelText s ∧ (labelText s).length ≤ 50 ∧
        let line := trimBytes (s.takeWhile (· != newline))
        (labelText s = line ∨ ∃ kept, kept <+: line ∧ kept.length = 47 ∧
          labelText s = kept ++ bytes "...")) ∧
      ∀ t : String, bytes (escape t) = escapeBytes (bytes t) :=
  ⟨unescape_escapeBytes s, readString?_escapeBytes s, newline_not_mem_escapeBytes s,
    readString?_escapeBytes (labelText s), newline_not_mem_escapeBytes (labelText s),
    ⟨unescape_escapeBytes (labelText s), length_labelText s, labelText_cases s⟩, bytes_escape⟩

/-- Blanks go and marks are escaped; a cut may leave part of a character. -/
example : labelBytes (bytes " \x7ba\\\x7d\n" ++ [0xe2, 0x82]) = bytes "\\\x7ba\\\\\\\x7d" ∧
    labelBytes (List.replicate 46 0x22 ++ bytes "€€") =
      (List.replicate 46 [backslash, quote]).flatten ++ [0xe2] ++ bytes "..." := by
  decide +kernel

end Dot

end Retarget
