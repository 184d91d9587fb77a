import ClrNames.Text.Width

/-!
# Tables without borders

Cells are padded to the width of their column, two spaces stand between columns
and no line ends in blanks. A cell of several lines makes its row as tall.
-/

set_option autoImplicit false

namespace ClrNames.CommandLine

inductive Align where
  | left
  | right
  deriving DecidableEq, Repr

def isBlank (c : Char) : Bool :=
  (0x09 ≤ c.toNat && c.toNat ≤ 0x0d) || (0x2000 ≤ c.toNat && c.toNat ≤ 0x200a) ||
    [0x20, 0x85, 0xa0, 0x1680, 0x2028, 0x2029, 0x202f, 0x205f, 0x3000].contains c.toNat

def trimEnd (cs : List Char) : List Char := (cs.reverse.dropWhile isBlank).reverse

def pad (align : Align) (width : Nat) (cs : List Char) : List Char :=
  match align with
  | .left => cs ++ List.replicate (width - Text.width cs) ' '
  | .right => List.replicate (width - Text.width cs) ' ' ++ cs

abbrev Cell := List (List Char)

def Cell.ofText (text : String) : Cell := text.toList.splitOn '\n'

def Cell.width (cell : Cell) : Nat := (cell.map Text.width).foldl max 0

def columnWidths (columns : Nat) (rows : List (List Cell)) : List Nat :=
  (List.range columns).map fun i =>
    (rows.map fun row => (row.getD i []).width).foldl max 0

def rowLine (aligns : List Align) (widths : List Nat) (row : List Cell) (line : Nat) : String :=
  String.ofList <| trimEnd <| [' ', ' '].intercalate <|
    List.zipWith (fun (format : Align × Nat) (cell : Cell) =>
      pad format.1 format.2 (cell.getD line [])) (aligns.zip widths) row

def rowLines (aligns : List Align) (widths : List Nat) (row : List Cell) : List String :=
  (List.range ((row.map List.length).foldl max 0)).map (rowLine aligns widths row)

def tableLines (aligns : List Align) (rows : List (List String)) : List String :=
  let cells := rows.map fun row => row.map Cell.ofText
  cells.flatMap (rowLines aligns (columnWidths aligns.length cells))

end ClrNames.CommandLine
