import StateTree.Proofs.Diagram.Tokens
import StateTree.Proofs.Run
import StateTree.Proofs.Tree.Outline

/-!
Which drawings are read back as they were meant: those of which every text in quotes is sealed. For
the drawing of a tree it comes down to what the host supplies.
-/

namespace StateTree

namespace Dot

theorem quote_notMem_pad (depth : Nat) : '"' ∉ (pad depth).toList := by simp [pad]

/-- The mark in front of a name neither opens nor closes anything. -/
theorem sealed_cluster (name : String) : Sealed ("cluster_" ++ name) ↔ Sealed name := by
  rw [sealed_iff, sealed_iff, String.toList_append]
  rfl

theorem sealed_style (bold : Bool) : Sealed (if bold then "rounded,bold" else "rounded") := by
  cases bold <;> decide

def SealedBox (box : Box) : Prop := Sealed box.name ∧ Sealed box.label

def SealedEdge (e : Edge) : Prop := Sealed e.source ∧ Sealed e.target ∧ Sealed e.label

mutual

theorem boxPieces_whole (depth : Nat) (o : Outline Box) :
    (∀ p ∈ boxPieces depth o, p.Whole) ↔ ∀ box ∈ o.contents, SealedBox box :=
  match o with
  | .node box [] => by
    simp [boxPieces, Piece.Whole, quote_notMem_pad, sealed_style, Outline.contents,
      Outline.allContents, SealedBox]
  | .node box (part :: parts) => by
    have hpart := boxPieces_whole (depth + 1) part
    have hparts := partPieces_whole (depth + 1) parts
    simp only [boxPieces, Outline.contents, Outline.allContents, List.forall_mem_append,
      List.forall_mem_cons, hpart, hparts]
    simp [Piece.Whole, quote_notMem_pad, cluster, sealed_cluster, SealedBox]
    tauto

theorem partPieces_whole (depth : Nat) (parts : List (Outline Box)) :
    (∀ p ∈ partPieces depth parts, p.Whole) ↔
      ∀ box ∈ Outline.allContents parts, SealedBox box :=
  match parts with
  | [] => by simp [partPieces, Outline.allContents]
  | part :: parts => by
    simp only [partPieces, Outline.allContents, List.forall_mem_append, boxPieces_whole depth part,
      partPieces_whole depth parts]

end

theorem edgePieces_whole (e : Edge) : (∀ p ∈ edgePieces e, p.Whole) ↔ SealedEdge e := by
  obtain ⟨source, target, label, dashed, sourceNested, targetNested⟩ := e
  cases dashed <;> cases sourceNested <;> cases targetNested <;>
    simp [edgePieces, Piece.Whole, quote_notMem_pad, cluster, sealed_cluster, SealedEdge]
  all_goals tauto

theorem pieces_whole (d : Drawing) :
    (∀ p ∈ pieces d, p.Whole) ↔
      Sealed d.name ∧ (∀ box ∈ d.root.contents, SealedBox box) ∧ ∀ e ∈ d.edges, SealedEdge e := by
  simp only [pieces, List.forall_mem_append, List.forall_mem_flatMap, boxPieces_whole,
    edgePieces_whole]
  simp [Piece.Whole, quote_notMem_pad]
  tauto

end Dot

namespace Tree

variable {S O E : Type} [DecidableEq S] {t : Tree S O E}

theorem source_declared (ht : t.Sound) {s : State S O E} (hs : s ∈ t.states)
    {x : Transition S O E} (hx : x ∈ s.node.transitions) : x.source = s.id := by
  obtain ⟨i, hi, rfl⟩ := mem_states.mp hs
  exact (ht.transitions i hi x hx).1

theorem target_declared (ht : t.Sound) {s : State S O E} (hs : s ∈ t.states)
    {x : Transition S O E} (hx : x ∈ s.node.transitions) {id : S} (hid : x.target? = some id) :
    ∃ r ∈ t.states, r.id = id := by
  obtain ⟨i, hi, rfl⟩ := mem_states.mp hs
  cases hk : x.kind with
  | stays =>
    rw [Transition.target?, hk] at hid
    cases hid
  | moves target j =>
    rw [Transition.target?, hk] at hid
    cases hid
    obtain ⟨hj, he⟩ := (ht.place id j).mp ((ht.transitions i hi x hx).2 id j hk)
    exact ⟨⟨t, j⟩, mem_states.mpr ⟨j, hj, rfl⟩, he⟩

end Tree

namespace Drawing

variable {S O E : Type} [StateId S]

/-- The marks between name and description are sealed. -/
theorem sealed_boxLabel {s : State S O E} (h : Dot.Sealed s.name) :
    Dot.Sealed (boxLabel s) ↔ ∀ text ∈ s.node.description, Dot.Sealed text := by
  have hmark : Dot.Sealed (if s.node.history then " (H)" else "") := by
    cases s.node.history <;> decide
  have hbreak : Dot.Sealed "\\n" := by decide
  unfold boxLabel
  cases s.node.description with
  | none => simpa [Dot.sealed_append h] using hmark
  | some text =>
    simp [String.append_assoc, Dot.sealed_append h, Dot.sealed_append hmark,
      Dot.sealed_append hbreak]

variable [DecidableEq S] [EventKind E]

theorem sealed_edge (described : Bool) {t : Tree S O E} (ht : t.Sound)
    (hnames : ∀ s ∈ t.states, Dot.Sealed s.name) {s : State S O E} (hs : s ∈ t.states)
    {x : Transition S O E} (hx : x ∈ s.node.transitions) :
    Dot.SealedEdge (edge described t x) ↔ Dot.Sealed (edgeLabel described x) := by
  have hsource : Dot.Sealed (StateId.name x.source) := by
    rw [Tree.source_declared ht hs hx]
    exact hnames s hs
  have htarget : Dot.Sealed (StateId.name (x.target?.getD x.source)) := by
    cases hid : x.target? with
    | none => exact hsource
    | some id =>
      obtain ⟨r, hr, rfl⟩ := Tree.target_declared ht hs hx hid
      exact hnames r hr
  simp [Dot.SealedEdge, edge, hsource, htarget]

theorem pieces_ofTree_whole (described : Bool) (name : String) {t : Tree S O E} (ht : t.Sound) :
    (∀ p ∈ Dot.pieces (ofTree described name t), p.Whole) ↔
      Dot.Sealed name ∧ ∀ s ∈ t.states, Dot.Sealed s.name ∧
        (∀ text ∈ s.node.description, Dot.Sealed text) ∧
        ∀ x ∈ s.node.transitions, Dot.Sealed (edgeLabel described x) := by
  have hboxes : (∀ b ∈ (t.outline box).contents, Dot.SealedBox b) ↔
      ∀ s ∈ t.states, Dot.Sealed s.name ∧ ∀ text ∈ s.node.description, Dot.Sealed text := by
    simp only [Tree.mem_contents_outline ht.toLinked, forall_exists_index, and_imp,
      forall_apply_eq_imp_iff₂]
    refine forall₂_congr ?_
    intro s _
    exact and_congr_right sealed_boxLabel
  have hedges (hnames : ∀ s ∈ t.states, Dot.Sealed s.name) :
      (∀ e ∈ (ofTree described name t).edges, Dot.SealedEdge e) ↔
        ∀ s ∈ t.states, ∀ x ∈ s.node.transitions, Dot.Sealed (edgeLabel described x) := by
    simp only [ofTree, List.forall_mem_flatMap, List.forall_mem_map]
    exact forall₄_congr fun s hs x hx => sealed_edge described ht hnames hs hx
  rw [Dot.pieces_whole, ofTree, hboxes]
  refine and_congr_right fun _ => ?_
  constructor
  · rintro ⟨hstates, hall⟩ s hs
    have hlabels := (hedges fun s hs => (hstates s hs).1).mp hall
    exact ⟨(hstates s hs).1, (hstates s hs).2, hlabels s hs⟩
  · intro hall
    have hlabels := (hedges fun s hs => (hall s hs).1).mpr fun s hs => (hall s hs).2.2
    exact ⟨fun s hs => ⟨(hall s hs).1, (hall s hs).2.1⟩, hlabels⟩

/-- The drawing of a tree that declarations make is read back as it was meant exactly if the texts
that the host supplies are sealed. -/
theorem drawing_tokens (described : Bool) (root : S) (declarations : List (Declaration S O E))
    (name : String) :
    let t := Tree.build root declarations
    let d := ofTree described name t
    Dot.tokens? .outside (Dot.render d).toList = some ((Dot.pieces d).flatMap Dot.Piece.tokens) ↔
      Dot.Sealed name ∧ ∀ s ∈ t.states, Dot.Sealed s.name ∧
        (∀ text ∈ s.node.description, Dot.Sealed text) ∧
        ∀ x ∈ s.node.transitions, Dot.Sealed (edgeLabel described x) := by
  intro t d
  rw [Dot.render, String.toList_ofList, Dot.write, Dot.tokens_pieces]
  exact pieces_ofTree_whole described name (Tree.build_sound root declarations)

end Drawing

/-! A radio that is told what to do. -/

namespace Radio

/-- Shown as a text in quotes, in which quotes are escaped already. -/
structure Call where
  words : String
  deriving DecidableEq

instance : EventKind Call := ⟨fun a b => a = b, fun call => Text.quoted call.words⟩

def called : Tree Place Unit Call :=
  .build .root [.addToRoot .off ⟨[.initial], some ⟨⟨"say \"on\""⟩, some .root, []⟩⟩]

/-- The quotes of the call end the label. -/
theorem call_breaks_label :
    let d := Drawing.ofTree false "radio" called
    Dot.tokens? .outside (Dot.render d).toList ≠
      some ((Dot.pieces d).flatMap Dot.Piece.tokens) := by
  intro d
  rw [Dot.render, String.toList_ofList]
  decide +kernel

end Radio

end StateTree
