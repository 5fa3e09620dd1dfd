import Mathlib.Data.List.Basic
import StateTree.Proofs.Diagram.Quoting

/-!
Reading a drawing back from its text. Blanks outside of quotes say nothing; boxes go on to their
closing brace, and edges follow the box that holds all others.
-/

namespace StateTree

namespace Dot

/-- Blanks are no signs. -/
def Token.isSign : Token → Bool
  | bare c => c ≠ ' ' && c ≠ '\n'
  | quoted _ => true

def signs (ps : List Piece) : List Token := (ps.flatMap Piece.tokens).filter Token.isSign

/-- The signs of a text outside of quotes. -/
def spell (text : String) : List Token := (text.toList.map .bare).filter Token.isSign

def quoted? : List Token → Option (String × List Token)
  | .quoted text :: ts => some (String.ofList text, ts)
  | _ => none

def after? (text : String) (ts : List Token) : Option (List Token) := ts.dropPrefix? (spell text)

/-- Items up to the closing brace. -/
def until? (item? : List Token → Option (α × List Token)) :
    Nat → List Token → Option (List α × List Token)
  | 0, _ => none
  | n + 1, ts =>
    match after? "\x7d\n" ts with
    | some ts => some ([], ts)
    | none => do
      let (a, ts) ← item? ts
      let (as, ts) ← until? item? n ts
      return (a :: as, ts)

def leaf? (name : String) (ts : List Token) : Option (Outline Box × List Token) := do
  let ts ← after? " [label=" ts
  let (label, ts) ← quoted? ts
  let ts ← after? " style=" ts
  let (style, ts) ← quoted? ts
  let ts ← after? "];\n" ts
  return (.node ⟨name, label, style = "rounded,bold"⟩ [], ts)

/-- A box, with others in it if it is a cluster. A cluster does not tell whether it is bold. -/
def box? : Nat → List Token → Option (Outline Box × List Token)
  | 0, _ => none
  | n + 1, ts =>
    match quoted? ts with
    | some (name, ts) => leaf? name ts
    | none => do
      let ts ← after? "subgraph " ts
      let (border, ts) ← quoted? ts
      let ts ← after? " \x7b\n" ts
      let ts ← after? "label=" ts
      let (label, ts) ← quoted? ts
      let ts ← after? ";\n" ts
      let (name, ts) ← quoted? ts
      let ts ← after? " [shape=point style=invis];\n" ts
      if border ≠ "cluster_" ++ name then none
      let (parts, ts) ← until? (box? n) ts.length ts
      return (.node ⟨name, label, false⟩ parts, ts)

/-- An attribute that names the cluster of an end, if it is there. -/
def border? (text name : String) (ts : List Token) : Option (Bool × List Token) :=
  match after? text ts with
  | none => some (false, ts)
  | some ts => do
    let (border, ts) ← quoted? ts
    if border ≠ "cluster_" ++ name then none
    return (true, ts)

def edge? (ts : List Token) : Option (Edge × List Token) := do
  let (source, ts) ← quoted? ts
  let ts ← after? " -> " ts
  let (target, ts) ← quoted? ts
  let ts ← after? " [label=" ts
  let (label, ts) ← quoted? ts
  let (dashed, ts) :=
    match after? " style=dashed" ts with
    | some ts => (true, ts)
    | none => (false, ts)
  let (sourceNested, ts) ← border? " ltail=" source ts
  let (targetNested, ts) ← border? " lhead=" target ts
  let ts ← after? "];\n" ts
  return (⟨source, target, label, dashed, sourceNested, targetNested⟩, ts)

def drawing? (ts : List Token) : Option Drawing := do
  let ts ← after? "digraph " ts
  let (name, ts) ← quoted? ts
  let ts ← after? " \x7b\n" ts
  let ts ← after? "compound=true;\n" ts
  let ts ← after? "node [shape=box];\n" ts
  let (root, ts) ← box? ts.length ts
  let (edges, ts) ← until? edge? ts.length ts
  if ts.isEmpty then return ⟨name, root, edges⟩ else none

/-- The drawing that a text shows. -/
def read? (text : String) : Option Drawing := do
  let ts ← tokens? .outside text.toList
  drawing? (ts.filter Token.isSign)

@[simp]
theorem after_spell (text : String) (ts : List Token) : after? text (spell text ++ ts) = some ts :=
  List.dropPrefix?_append_of_beq ts (beq_self_eq_true _)

@[simp]
theorem signs_nil : signs [] = [] := rfl

@[simp]
theorem signs_append (ps qs : List Piece) : signs (ps ++ qs) = signs ps ++ signs qs := by
  rw [signs, List.flatMap_append, List.filter_append]
  rfl

theorem signs_flatMap (f : α → List Piece) (as : List α) :
    signs (as.flatMap f) = as.flatMap fun a => signs (f a) := by
  induction as with
  | nil => rfl
  | cons a as ih => rw [List.flatMap_cons, signs_append, ih, List.flatMap_cons]

@[simp]
theorem signs_plain (text : String) (ps : List Piece) :
    signs (.plain text :: ps) = spell text ++ signs ps := by
  rw [signs, List.flatMap_cons, List.filter_append]
  rfl

@[simp]
theorem signs_quoted (text : String) (ps : List Piece) :
    signs (.quoted text :: ps) = .quoted text.toList :: signs ps := rfl

@[simp]
theorem quoted_toList (text : String) (ts : List Token) :
    quoted? (.quoted text.toList :: ts) = some (text, ts) := by
  rw [quoted?, String.ofList_toList]

@[simp]
theorem spell_pad (depth : Nat) : spell (pad depth) = [] := by
  simp [spell, pad, Token.isSign]

/-- Items that can be told from the closing brace are read up to it. -/
theorem until_items {item? : List Token → Option (β × List Token)} {write : α → List Token}
    {view : α → β} (as : List α) (rest : List Token)
    (hread : ∀ a ∈ as, ∀ ts, item? (write a ++ ts) = some (view a, ts))
    (hopen : ∀ a ∈ as, ∀ ts, after? "\x7d\n" (write a ++ ts) = none) {n : Nat}
    (hn : (as.flatMap write).length < n) :
    until? item? n (as.flatMap write ++ (spell "\x7d\n" ++ rest)) = some (as.map view, rest) := by
  obtain ⟨n, rfl⟩ : ∃ k, n = k + 1 := ⟨n - 1, by omega⟩
  induction as generalizing n with
  | nil =>
    rw [List.flatMap_nil, List.nil_append, until?, after_spell]
    rfl
  | cons a as ih =>
    obtain ⟨hreada, hreadas⟩ := List.forall_mem_cons.mp hread
    obtain ⟨hopena, hopenas⟩ := List.forall_mem_cons.mp hopen
    have hlength : 0 < (write a).length := by
      apply List.length_pos_iff.mpr
      intro hnil
      have hclosed := hopena (spell "\x7d\n")
      rw [hnil, List.nil_append, ← List.append_nil (spell _), after_spell] at hclosed
      cases hclosed
    rw [List.flatMap_cons, List.length_append] at hn
    obtain ⟨n, rfl⟩ : ∃ k, n = k + 1 := ⟨n - 1, by omega⟩
    have hrest := ih hreadas hopenas n (by omega)
    rw [List.flatMap_cons, List.append_assoc, until?, hopena]
    simp [hreada, hrest]

mutual

/-- What a text shows of boxes. -/
def visible : Outline Box → Outline Box
  | .node box [] => .node box []
  | .node box (part :: parts) =>
    .node { box with bold := false } (visible part :: visibleParts parts)

def visibleParts : List (Outline Box) → List (Outline Box)
  | [] => []
  | part :: parts => visible part :: visibleParts parts

end

theorem visibleParts_eq (parts : List (Outline Box)) : visibleParts parts = parts.map visible := by
  induction parts with
  | nil => rfl
  | cons part parts ih => rw [visibleParts, ih, List.map_cons]

theorem partPieces_eq (depth : Nat) (parts : List (Outline Box)) :
    partPieces depth parts = parts.flatMap (boxPieces depth) := by
  induction parts with
  | nil => rfl
  | cons part parts ih => rw [partPieces, ih, List.flatMap_cons]

/-- A text is not found where another one stands that differs from it at some place. -/
theorem after_other {text other : String} (n : Nat) (ts : List Token)
    (h : n < (spell text).length ∧ n < (spell other).length ∧
      (spell text)[n]? ≠ (spell other)[n]?) :
    after? text (spell other ++ ts) = none := by
  obtain ⟨htext, hother, hne⟩ := h
  rw [Option.eq_none_iff_forall_ne_some]
  intro rest hfound
  obtain ⟨found, hsplit, hsame⟩ := List.dropPrefix?_eq_some_iff.mp hfound
  rw [eq_of_beq hsame] at hsplit
  have hplace := congrArg (fun l => l[n]?) hsplit
  simp only [List.getElem?_append_left hother, List.getElem?_append_left htext] at hplace
  exact hne hplace.symm

theorem quoted_subgraph (ts : List Token) : quoted? (spell "subgraph " ++ ts) = none := by
  have hspell : spell "subgraph " = .bare 's' :: spell "ubgraph " := by decide
  rw [hspell]
  rfl

theorem brace_quoted (text : List Char) (ts : List Token) :
    after? "\x7d\n" (.quoted text :: ts) = none := by
  have hspell : spell "\x7d\n" = [.bare '\x7d'] := by decide
  rw [after?, hspell]
  rfl

/-- A box is no closing brace. -/
theorem after_box (depth : Nat) (o : Outline Box) (ts : List Token) :
    after? "\x7d\n" (signs (boxPieces depth o) ++ ts) = none := by
  have hsub (ts : List Token) : after? "\x7d\n" (spell "subgraph " ++ ts) = none :=
    after_other 0 ts (by decide)
  cases o with
  | node box parts => cases parts <;> simp [boxPieces, brace_quoted, hsub]

theorem signs_cluster (depth : Nat) (box : Box) (part : Outline Box) (parts : List (Outline Box)) :
    signs (boxPieces depth (.node box (part :: parts))) =
      spell "subgraph " ++ .quoted ("cluster_" ++ box.name).toList :: (spell " \x7b\n" ++
        (spell "label=" ++ .quoted box.label.toList :: (spell ";\n" ++ .quoted box.name.toList ::
          (spell " [shape=point style=invis];\n" ++
            (signs (partPieces (depth + 1) (part :: parts)) ++ spell "\x7d\n"))))) := by
  simp [boxPieces, partPieces, cluster]

mutual

theorem box_read (o : Outline Box) (depth : Nat) (ts : List Token) {n : Nat}
    (hn : (signs (boxPieces depth o)).length ≤ n) :
    box? n (signs (boxPieces depth o) ++ ts) = some (visible o, ts) :=
  match o with
  | .node box [] => by
    obtain ⟨n, rfl⟩ : ∃ k, n = k + 1 := by
      simp [boxPieces] at hn
      exact ⟨n - 1, by omega⟩
    simp [boxPieces, box?, leaf?, visible]
  | .node box (part :: parts) => by
    have hparts : signs (partPieces (depth + 1) (part :: parts)) =
        (part :: parts).flatMap fun o => signs (boxPieces (depth + 1) o) := by
      rw [partPieces_eq, signs_flatMap]
    -- its parts have fewer signs than the cluster, so that one step less is enough for each
    rw [signs_cluster] at hn ⊢
    simp only [List.length_append, List.length_cons] at hn
    obtain ⟨n, rfl⟩ : ∃ k, n = k + 1 := ⟨n - 1, by omega⟩
    have hread := parts_read (part :: parts) (depth + 1) (n := n) (by omega)
    have hbrace : 0 < (spell "\x7d\n").length := by decide
    have hall : until? (box? n) ((signs (partPieces (depth + 1) (part :: parts))).length +
        ((spell "\x7d\n").length + ts.length))
        (signs (partPieces (depth + 1) (part :: parts)) ++ (spell "\x7d\n" ++ ts)) =
          some ((part :: parts).map visible, ts) := by
      rw [hparts] at hn ⊢
      exact until_items (part :: parts) ts hread (fun o _ => after_box (depth + 1) o) (by omega)
    simp [box?, quoted_subgraph, hall, visible, visibleParts_eq, -String.toList_append]

theorem parts_read (parts : List (Outline Box)) (depth : Nat) {n : Nat}
    (hn : (signs (partPieces depth parts)).length ≤ n) :
    ∀ part ∈ parts, ∀ ts, box? n (signs (boxPieces depth part) ++ ts) = some (visible part, ts) :=
  match parts with
  | [] => fun _ hm => absurd hm List.not_mem_nil
  | part :: parts => by
    rw [partPieces, signs_append, List.length_append] at hn
    have hpart := fun ts => box_read part depth ts (n := n) (by omega)
    have hparts := parts_read parts depth (n := n) (by omega)
    exact List.forall_mem_cons.mpr ⟨hpart, hparts⟩

end

theorem edge_read (e : Edge) (ts : List Token) :
    edge? (signs (edgePieces e) ++ ts) = some (e, ts) := by
  obtain ⟨source, target, label, dashed, sourceNested, targetNested⟩ := e
  -- an attribute that is left out is not found in what follows it
  have hdashed (other : String) (h : other ∈ [" ltail=", " lhead=", "];\n"]) (ts : List Token) :
      after? " style=dashed" (spell other ++ ts) = none := by
    refine after_other 0 ts ?_
    revert other
    decide
  have htail (other : String) (h : other ∈ [" lhead=", "];\n"]) (ts : List Token) :
      after? " ltail=" (spell other ++ ts) = none := by
    refine after_other 1 ts ?_
    revert other
    decide
  have hhead (ts : List Token) : after? " lhead=" (spell "];\n" ++ ts) = none :=
    after_other 0 ts (by decide)
  cases dashed <;> cases sourceNested <;> cases targetNested <;>
    simp [edgePieces, edge?, border?, cluster, hdashed, htail, hhead, -String.toList_append]

/-- An edge is no closing brace. -/
theorem after_edge (e : Edge) (ts : List Token) :
    after? "\x7d\n" (signs (edgePieces e) ++ ts) = none := by
  simp [edgePieces, brace_quoted]

def shown (d : Drawing) : Drawing := { d with root := visible d.root }

/-- What is read of a drawing is all of it, but for the marks of clusters that are bold. -/
theorem read_render {d : Drawing} (h : ∀ p ∈ pieces d, p.Whole) :
    read? (render d) = some (shown d) := by
  have htokens : tokens? .outside (render d).toList = some ((pieces d).flatMap Piece.tokens) := by
    rw [render, String.toList_ofList, write]
    exact (tokens_pieces _).mpr h
  have hsigns : signs (pieces d) = spell "digraph " ++ .quoted d.name.toList :: (spell " \x7b\n" ++
      (spell "compound=true;\n" ++ (spell "node [shape=box];\n" ++ (signs (boxPieces 1 d.root) ++
        (signs (d.edges.flatMap edgePieces) ++ spell "\x7d\n"))))) := by
    simp [pieces]
  have hroot (ts : List Token) : box? (signs (boxPieces 1 d.root) ++ ts).length
      (signs (boxPieces 1 d.root) ++ ts) = some (visible d.root, ts) :=
    box_read d.root 1 ts (by rw [List.length_append]; omega)
  have hedges : until? edge? (signs (d.edges.flatMap edgePieces) ++ spell "\x7d\n").length
      (signs (d.edges.flatMap edgePieces) ++ spell "\x7d\n") = some (d.edges, []) := by
    have hbrace : 0 < (spell "\x7d\n").length := by decide
    have hall := until_items d.edges [] (fun e _ => edge_read e) (fun e _ => after_edge e)
      (n := (signs (d.edges.flatMap edgePieces) ++ spell "\x7d\n").length)
    rw [← signs_flatMap, List.append_nil, List.map_id'] at hall
    exact hall (by rw [List.length_append]; omega)
  rw [read?, htokens, Option.bind_eq_bind, Option.bind_some, ← signs, hsigns, drawing?]
  simp only [after_spell, quoted_toList, hroot, hedges, Option.bind_eq_bind, Option.bind_some]
  rfl

end Dot

end StateTree
