/-
# Text.Bytes -- lengths and cuts counted in UTF-8 bytes

Labels and stored texts have a budget of bytes. A cut may fall inside a character; what is
left of that character is then no text, and each such byte is shown as U+FFFD.

A text may also be taken as its bytes, any of which may be part of no character. Blanks at either
end are then found by the characters they are the bytes of.
-/
import Retarget.Text.Basic

namespace Retarget.Text

def byteLength (s : String) : Nat := s.utf8ByteSize

/-- The mark that stands for a byte which is no text. -/
def replacement : Char := Char.ofNat 0xfffd

/-- The first `budget` bytes of `cs`. -/
def takeByteChars : Nat → List Char → List Char
  | _, [] => []
  | budget, c :: cs =>
    if c.utf8Size ≤ budget then c :: takeByteChars (budget - c.utf8Size) cs
    else List.replicate budget replacement

def takeBytes (budget : Nat) (s : String) : String :=
  String.ofList (takeByteChars budget s.toList)

/-- Keep a text of at most `limit` bytes; a longer one is cut to three bytes less and ends in
three dots. -/
def shorten (limit : Nat) (s : String) : String :=
  if limit < byteLength s then takeBytes (limit - 3) s ++ "..." else s

/-! ## Texts as bytes -/

def bytes (s : String) : List UInt8 := s.toList.flatMap String.utf8EncodeChar

/-- The character that some bytes begin with. -/
def firstChar? (bs : List UInt8) : Option Char := (bs.take 4).toByteArray.utf8DecodeChar? 0

/-- The characters of some bytes, the first `skip` of which belong to a character read already. -/
def readChars : Nat → List UInt8 → List Char
  | _, [] => []
  | skip + 1, _ :: bs => readChars skip bs
  | 0, b :: bs =>
    match firstChar? (b :: bs) with
    | some c => c :: readChars (c.utf8Size - 1) bs
    | none => replacement :: readChars 0 bs

def ofBytes (bs : List UInt8) : String := String.ofList (readChars 0 bs)

/-- Drop blanks from the front; the first `skip` bytes belong to a blank. -/
def dropBlanks : Nat → List UInt8 → List UInt8
  | _, [] => []
  | skip + 1, _ :: bs => dropBlanks skip bs
  | 0, b :: bs =>
    match firstChar? (b :: bs) with
    | some c => if isBlank c then dropBlanks (c.utf8Size - 1) bs else b :: bs
    | none => b :: bs

/-- Drop blanks from the end. -/
def dropEndBlanks : List UInt8 → List UInt8
  | [] => []
  | b :: bs => if (dropBlanks 0 (b :: bs)).isEmpty then [] else b :: dropEndBlanks bs

def trimBytes (bs : List UInt8) : List UInt8 := dropEndBlanks (dropBlanks 0 bs)

/-- Keep at most `limit` bytes; of more, three less are kept and three dots put after them. -/
def shortenBytes (limit : Nat) (bs : List UInt8) : List UInt8 :=
  if limit < bs.length then bs.take (limit - 3) ++ bytes "..." else bs

end Retarget.Text
