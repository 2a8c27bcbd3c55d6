import FormalLanguage.Text.Width

/-! Tables drawn in a box with rounded corners.

The first row is the header. A column is as wide as its widest line, a cell has a
space on either side and starts at the left, and a cell of several lines makes its
row that many lines high.

The escape sequences in a cell are counted as columns of it (see `Text.Width`), where
a drawing that knows them would measure the cell without them. The two are the same
for cells without control characters. -/
namespace FormalLanguage.Text.Grid

abbrev Cell := List Char

def Cell.lines (cell : Cell) : List (List Char) := cell.splitOn '\n'

def Cell.width (cell : Cell) : Nat := (cell.lines.map Text.width).foldl max 0

def columnWidths (header : List Cell) (rows : List (List Cell)) : List Nat :=
  rows.foldl (fun widths row => List.zipWith max widths (row.map Cell.width))
    (header.map Cell.width)

/-! ### Lines of the drawing -/

def padded (columns : Nat) (s : List Char) : List Char :=
  s ++ List.replicate (columns - width s) ' '

/-- One line of a row: a bar, and after each column's text another. -/
def textLine (widths : List Nat) (parts : List (List Char)) : List Char :=
  '│' :: (List.zipWith (fun w part => ' ' :: padded w part ++ [' ', '│']) widths parts).flatten

/-- The lines of a row. A cell with fewer lines than its neighbours is blank below them. -/
def rowLines (widths : List Nat) (row : List Cell) : List (List Char) :=
  let height := (row.map fun cell => cell.lines.length).foldl max 0
  (List.range height).map fun i => textLine widths (row.map fun cell => cell.lines[i]?.getD [])

def ruleLine (widths : List Nat) (left cross right : Char) : List Char :=
  left :: List.intercalate [cross] (widths.map fun w => List.replicate (w + 2) '─') ++ [right]

def lines (header : List Cell) (rows : List (List Cell)) : List (List Char) :=
  let widths := columnWidths header rows
  ruleLine widths '╭' '┬' '╮' :: rowLines widths header ++
    ruleLine widths '├' '┼' '┤' :: rows.flatMap (rowLines widths) ++
    [ruleLine widths '╰' '┴' '╯']

/-- The lines joined by line feeds, with none at the end. -/
def render (header : List Cell) (rows : List (List Cell)) : List Char :=
  List.intercalate ['\n'] (lines header rows)

end FormalLanguage.Text.Grid
