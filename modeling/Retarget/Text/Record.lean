/-
# Text.Record -- one record of comma-separated fields

A field may be written between quotes; it may then hold commas and line breaks, and a quote
inside it is written twice. A quote anywhere else is a fault. Empty lines before the record
are passed over, and what follows its line is not read.
-/
import Retarget.Text.Basic

namespace Retarget.Text.Record

/-- Line ends of two characters count as one; a return character at the very end is dropped. -/
def plainLineEnds : List Char → List Char
  | [] => []
  | ['\r'] => []
  | '\r' :: '\n' :: cs => '\n' :: plainLineEnds cs
  | c :: cs => c :: plainLineEnds cs

/-- Where the reader stands in a field. -/
inductive Place where
  /-- Before its first character. -/
  | start
  | plain
  | quoted
  /-- After a quote that may end the field. -/
  | afterQuote

/-- Read from `place`, with the fields and the characters of the present one so far, both in
reverse. -/
def readFrom (fields : List String) (field : List Char) : Place → List Char → Option (List String)
  | .quoted, [] => none
  | _, [] => some ((String.ofList field.reverse :: fields).reverse)
  | .start, c :: cs =>
    if c == '"' then readFrom fields [] .quoted cs
    else if c == ',' then readFrom ("" :: fields) [] .start cs
    else if c == '\n' then some (("" :: fields).reverse)
    else readFrom fields [c] .plain cs
  | .plain, c :: cs =>
    if c == '"' then none
    else if c == ',' then readFrom (String.ofList field.reverse :: fields) [] .start cs
    else if c == '\n' then some ((String.ofList field.reverse :: fields).reverse)
    else readFrom fields (c :: field) .plain cs
  | .quoted, c :: cs =>
    if c == '"' then readFrom fields field .afterQuote cs
    else readFrom fields (c :: field) .quoted cs
  | .afterQuote, c :: cs =>
    if c == '"' then readFrom fields ('"' :: field) .quoted cs
    else if c == ',' then readFrom (String.ofList field.reverse :: fields) [] .start cs
    else if c == '\n' then some ((String.ofList field.reverse :: fields).reverse)
    else none

/-- The fields of the first record; nothing if there is none or it is faulty. -/
def read? (s : String) : Option (List String) :=
  match (plainLineEnds s.toList).dropWhile (· == '\n') with
  | [] => none
  | cs => readFrom [] [] .start cs

end Retarget.Text.Record
