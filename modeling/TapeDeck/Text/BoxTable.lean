/-!
# Box tables

A table of text cells drawn with box-drawing lines: a heading row, a rule
under it, then the rows, all framed.  Every cell has one blank on each side,
and a column is as wide as its widest cell.  Cells are left aligned.  A
table without rows is its frame, heading and rule.

```
┌────────┬────┐
│ offset │ id │
├────────┼────┤
│ 0x0000 │    │
└────────┴────┘
```

Widths count characters, which is right for the cells this library draws:
none holds a character wider or narrower than one column.
-/

namespace TapeDeck.BoxTable

/-- Column widths: the widest cell of each column, headings included. -/
def widths (headings : List String) (rows : List (List String)) : List Nat :=
  headings.zipIdx.map fun (h, i) =>
    rows.foldl (fun w r => max w ((r.getD i "").length)) h.length

/-- A rule across the columns: left corner, lines, joins and right corner. -/
def rule (ws : List Nat) (left join right : String) : String :=
  left ++ join.intercalate (ws.map fun w => String.ofList (List.replicate (w + 2) '─')) ++ right

/-- A row of cells, each padded to its column. -/
def line (ws : List Nat) (cells : List String) : String :=
  "│" ++ "│".intercalate (ws.zipIdx.map fun (w, i) =>
    let c := cells.getD i ""
    " " ++ c ++ String.ofList (List.replicate (w - c.length) ' ') ++ " ") ++ "│"

/-- The whole table, its lines joined by line breaks, without a final one. -/
def render (headings : List String) (rows : List (List String)) : String :=
  let ws := widths headings rows
  "\n".intercalate ([rule ws "┌" "┬" "┐", line ws headings, rule ws "├" "┼" "┤"] ++
    rows.map (line ws) ++ [rule ws "└" "┴" "┘"])

end TapeDeck.BoxTable
