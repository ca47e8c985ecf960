import Converge.Text.Width

/-!
# Grids

Tables for a terminal: a header and rows of cells, with lines around every row. Every column is as
wide as its widest cell, and every row as high as its highest; texts stand left and at the top.

Main statement: `Grid.width_padRight` says that a cell comes out at the width of its column.
-/

namespace Converge

/-- A table for a terminal. Every row has as many cells as the header. -/
structure Grid where
  header : List String
  rows : List (List String)
deriving DecidableEq, Repr

namespace Grid

/-- The lines of a cell. -/
def lines (cell : String) : List String := cell.splitOn "\n"

/-- The columns that a cell takes. -/
def cellWidth (cell : String) : Nat := ((lines cell).map Text.width).foldl max 0

/-- The width of every column. -/
def widths (grid : Grid) : List Nat :=
  (grid.header :: grid.rows).foldl
    (fun widths row => List.zipWith max widths (row.map cellWidth)) (grid.header.map fun _ => 0)

/-- A number of blanks. -/
def blanks (n : Nat) : String := String.ofList (List.replicate n ' ')

/-- A text with blanks after it, up to a given width. -/
def padRight (width : Nat) (text : String) : String := text ++ blanks (width - Text.width text)

/-- The line between rows. -/
def rule (widths : List Nat) : String :=
  "+" ++ String.join (widths.map fun width => String.ofList (List.replicate (width + 2) '-') ++ "+")

/-- One line of a row. -/
def rowLine (widths : List Nat) (texts : List String) : String :=
  "|" ++ String.join ((List.zipWith padRight widths texts).map fun text => " " ++ text ++ " |")

/-- The lines of a row. -/
def rowLines (widths : List Nat) (row : List String) : List String :=
  let cells := row.map lines
  let height := (cells.map List.length).foldl max 0
  (List.range height).map fun i => rowLine widths (cells.map (·.getD i ""))

/-- The grid, line by line. -/
def render (grid : Grid) : String :=
  let widths := grid.widths
  let body := (grid.header :: grid.rows).flatMap fun row => rowLines widths row ++ [rule widths]
  String.intercalate "\n" (rule widths :: body)

theorem width_blanks (n : Nat) : Text.width (blanks n) = n := by
  have charsWidth_replicate : Text.charsWidth (List.replicate n ' ') = n := by
    induction n with
    | zero => rfl
    | succ n ih =>
      rw [List.replicate_succ, Text.charsWidth, ih]
      exact Nat.add_comm 1 n
  simp only [blanks, Text.width, String.toList_ofList, charsWidth_replicate]

theorem width_padRight {width : Nat} {text : String} (h : Text.width text ≤ width) :
    Text.width (padRight width text) = width := by
  rw [padRight, Text.width_append, width_blanks]
  omega

end Grid

end Converge
