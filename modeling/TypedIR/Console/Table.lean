import TypedIR.Text.Cluster
import TypedIR.Console.Paint

/-
  Tables: a header and rows, in columns as wide as their widest cell.

  Only the columns of the header have a width. A cell that is not the last of
  its line is filled up to the width of its column, so it needs one: a line that
  goes on past a column without a width cannot be printed.
-/

namespace TypedIR.Console

open Text

def columnWidths (header : List String) (rows : List (List String)) : List Nat :=
  header.zipIdx.map fun (h, i) =>
    rows.foldl (fun w row => max w (columns (row.getD i ""))) (columns h)

def dropEndSpaces (s : String) : String :=
  String.ofList (s.toList.reverse.dropWhile (· == ' ')).reverse

def lineCells (widths : List Nat) (paintCell : String → String) : Nat → List String →
    Option (List String)
  | _, [] => some []
  | _, [last] => some [paintCell last]
  | i, cell :: rest => do
    let w ← widths[i]?
    return paintCell (fillColumns w cell) :: (← lineCells widths paintCell (i + 1) rest)

def tableLine (widths : List Nat) (paintCell : String → String) (cells : List String) :
    Option String := do
  return dropEndSpaces ("  ".intercalate (← lineCells widths paintCell 0 cells)) ++ "\n"

def tableText? (color : Bool) (header : List String) (rows : List (List String)) : Option String := do
  let widths := columnWidths header rows
  let first ← tableLine widths (paint color [.bold]) header
  let lines ← rows.mapM (tableLine widths id)
  return first ++ String.join lines

end TypedIR.Console
