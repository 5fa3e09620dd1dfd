import StateTree.Diagram.Drawing

/-!
Drawings in the DOT language. A drawing is a sequence of pieces, some of them quoted.
-/

namespace StateTree.Dot

/-- Quoted pieces hold the text between the quotes, before any escape. -/
inductive Piece
  | plain (text : String)
  | quoted (text : String)
  deriving DecidableEq

/-- A quote inside a quoted text is escaped. -/
def quote (text : List Char) : List Char :=
  '"' :: text.flatMap (fun c => if c = '"' then ['\\', '"'] else [c]) ++ ['"']

def Piece.write : Piece → List Char
  | plain text => text.toList
  | quoted text => quote text.toList

/-- The indentation at a depth. -/
def pad (depth : Nat) : String := String.ofList (List.replicate (4 * depth) ' ')

def cluster (name : String) : Piece := .quoted ("cluster_" ++ name)

mutual

/-- A box with parts is a cluster, which holds a hidden point so that edges may end in it. -/
def boxPieces (depth : Nat) : Outline Box → List Piece
  | .node box [] =>
    [.plain (pad depth), .quoted box.name, .plain " [label=", .quoted box.label, .plain " style=",
      .quoted (if box.bold then "rounded,bold" else "rounded"), .plain "];\n"]
  | .node box (part :: parts) =>
    [.plain (pad depth), .plain "subgraph ", cluster box.name, .plain " \x7b\n",
      .plain (pad (depth + 1)), .plain "label=", .quoted box.label, .plain ";\n",
      .plain (pad (depth + 1)), .quoted box.name, .plain " [shape=point style=invis];\n"] ++
      (boxPieces (depth + 1) part ++ partPieces (depth + 1) parts) ++
      [.plain (pad depth), .plain "\x7d\n"]

def partPieces (depth : Nat) : List (Outline Box) → List Piece
  | [] => []
  | part :: parts => boxPieces depth part ++ partPieces depth parts

end

def edgePieces (e : Edge) : List Piece :=
  [.plain (pad 1), .quoted e.source, .plain " -> ", .quoted e.target, .plain " [label=",
    .quoted e.label] ++
    (if e.dashed then [.plain " style=dashed"] else []) ++
    (if e.sourceNested then [.plain " ltail=", cluster e.source] else []) ++
    (if e.targetNested then [.plain " lhead=", cluster e.target] else []) ++
    [.plain "];\n"]

def pieces (d : Drawing) : List Piece :=
  [.plain "digraph ", .quoted d.name, .plain " \x7b\n",
    .plain (pad 1), .plain "compound=true;\n",
    .plain (pad 1), .plain "node [shape=box];\n"] ++
    boxPieces 1 d.root ++ d.edges.flatMap edgePieces ++ [.plain "\x7d\n"]

def write (d : Drawing) : List Char := (pieces d).flatMap Piece.write

def render (d : Drawing) : String := String.ofList (write d)

end StateTree.Dot
