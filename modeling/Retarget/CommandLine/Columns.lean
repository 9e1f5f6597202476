/-
# CommandLine.Columns -- tabbed text with its cells under each other

A tab ends a cell, and what follows the last tab of a row belongs to no column. Cells that
stand in the same column of consecutive rows form a block; each is padded to the widest of its
block and two blanks more. A form feed ends a row and every block with it.
-/
import Retarget.Text.Basic

namespace Retarget.Columns

open Retarget.Text (splitAt join repeated)

/-- The blanks between two columns. -/
def gap : Nat := 2

def padded (width : Nat) (cell : String) : String := cell ++ repeated " " (width - cell.length)

/-- The cell of a row in column `j`. -/
def cell? (j : Nat) (row : List String) : Option String := row.dropLast[j]?

/-- For every row the width of the block that its cell in column `j` stands in. -/
def columnWidths (rows : List (List String)) (j : Nat) : List Nat :=
  let cells := rows.map (cell? j)
  (cells.splitBy fun a b => a.isSome && b.isSome).flatMap fun block =>
    let widths := block.map fun c => (c.map fun s => s.length + gap).getD 0
    block.map fun _ => widths.foldl max 0

/-- A row with its cells padded to the given widths. -/
def rowText (widths : List Nat) (row : List String) : String :=
  String.join (List.zipWith padded widths row.dropLast) ++ (row.getLast?).getD ""

def alignRows (rows : List (List String)) : List String :=
  let count := (rows.map List.length).foldl max 0
  let columns := (List.range count).map (columnWidths rows)
  rows.zipIdx.map fun (row, i) => rowText (columns.map fun ws => (ws[i]?).getD 0) row

/-- The rows of a text between two form feeds. A vertical tab ends a cell like any other. -/
def rowsOf (page : String) : List (List String) :=
  (splitAt '\n' page).map fun row =>
    splitAt '\t' (row.map fun c => if c.toNat == 0x0b then '\t' else c)

def align (text : String) : String :=
  join "\n" ((splitAt (Char.ofNat 0x0c) text).map fun page => join "\n" (alignRows (rowsOf page)))

end Retarget.Columns
