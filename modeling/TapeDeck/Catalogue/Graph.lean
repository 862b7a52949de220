import TapeDeck.Catalogue
import TapeDeck.Message.Directive

/-!
# Catalogue graphs

A catalogue can be written as a graph in the `dot` language, one record node
per structure: the catalogue, the list of its entries, each entry and each
entry's timing.  Numbers, truth values and texts stand inside the record of
the structure that holds them; a nested structure or list is a node of its
own, linked from the field that holds it.

Nodes are numbered from 1 in the order they are met, a structure before what
it holds.  A node is written after the nodes it holds, and its links after
it.  Texts are shown quoted, with the quotes and escapes quoted once more for
the `dot` label they stand in.
-/

namespace TapeDeck

namespace CatalogueGraph

/-- A field of a record: its name and either the text shown inside the
record or the number of the node it links to. -/
inductive Field where
  | shown (name text : String)
  | linked (name : String) (node : Nat)

/-- The `dot` text of a record field at a position. -/
def Field.cell (i : Nat) : Field → String
  | .shown name text => "|\x7b<f" ++ toString i ++ "> " ++ name ++ " | " ++ text ++ "\x7d "
  | .linked name _ => "|<f" ++ toString i ++ "> " ++ name

/-- The link line of a record field at a position, if it links. -/
def Field.link (node i : Nat) : Field → Option String
  | .shown _ _ => none
  | .linked _ target =>
    some ("  " ++ toString node ++ ":f" ++ toString i ++ " -> " ++ toString target ++ ":name;\n")

/-- The label line of a node. -/
def nodeLine (node : Nat) (type cells : String) : String :=
  "  " ++ toString node ++ " [label=\"<name> " ++ type ++ " " ++ cells ++ "\"];\n"

/-- A record node: its label line, then its links. -/
def record (node : Nat) (type : String) (fields : List Field) : String :=
  let indexed := fields.zipIdx
  nodeLine node type (String.join (indexed.map fun (f, i) => f.cell i)) ++
    String.join (indexed.filterMap fun (f, i) => f.link node i)

/-- A text as a quoted literal, quoted again for a label. -/
def quoted (s : String) : String :=
  let twice := Message.quote (Message.quote s)
  String.ofList ((twice.toList.drop 1).dropLast)

/-- A number field. -/
def number (name : String) (n : Int) : Field := .shown name (toString n)

/-- A truth field. -/
def truth (name : String) (b : Bool) : Field := .shown name (if b then "true" else "false")

/-- The code of a category. -/
def categoryCode : Category → Nat
  | .audio => 0
  | .sequence => 1
  | .metadata => 2

/-- The code of a format. -/
def formatCode : Format → Nat
  | .tap => 0
  | .tzx => 1

/-- The node of a timing. -/
def timingNode (node : Nat) (t : Timing) : String :=
  record node "block.Timing"
    [number "Pilot" t.pilot.toNat, number "Sync1" t.sync1.toNat, number "Sync2" t.sync2.toNat,
     number "Zero" t.zero.toNat, number "One" t.one.toNat, number "PilotCount" t.pilotCount,
     number "SyncPhase" t.syncPhase, number "Pause" t.pause, number "LastBit" t.lastBit,
     number "Length" t.length, number "Category" (categoryCode t.category)]

/-- The nodes of an entry numbered `node`, its timing numbered next. -/
def entryNodes (node : Nat) (e : CatalogueEntry) : String :=
  timingNode (node + 1) e.timing ++
  record node "catalogue.Entry"
    [number "Offset" e.offset, number "ID" e.id.toNat, .shown "Name" (quoted e.name),
     number "HeaderSize" e.headerSize, .linked "Timing" (node + 1), truth "Audible" e.audible,
     number "Length" e.length, number "Repeat" e.repeats, .shown "Text" (quoted e.text),
     number "Ticks" (Int64.ofNat e.ticks).toInt, truth "Truncated" e.truncated]

/-- The node of the entry list, numbered `node`, its entries after it. -/
def entryListNodes (node : Nat) (es : List CatalogueEntry) : String :=
  let indexed := es.zipIdx
  String.join (indexed.map fun (e, i) => entryNodes (node + 1 + 2 * i) e) ++
  nodeLine node "[]catalogue.Entry" (String.join (indexed.map fun (_, i) =>
    "|<" ++ toString i ++ "> " ++ toString i)) ++
  String.join (indexed.map fun (_, i) =>
    "  " ++ toString node ++ ":" ++ toString i ++ " -> " ++ toString (node + 1 + 2 * i) ++ ":name;\n")

/-- The graph of a catalogue. -/
def render (c : Catalogue) : String :=
  let entries := if c.entries.isEmpty
    then nodeLine 2 "[]catalogue.Entry\\\x7b\\\x7d" "" else entryListNodes 2 c.entries
  "digraph structs \x7b\n  node [shape=Mrecord];\n" ++ entries ++
  record 1 "catalogue.Catalogue"
    [number "Format" (formatCode c.format), .shown "Version" (quoted c.version),
     number "Size" c.size, .linked "Entries" 2, truth "Truncated" c.truncated] ++ "\x7d\n"

end CatalogueGraph

end TapeDeck
