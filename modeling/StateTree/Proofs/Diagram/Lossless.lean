import StateTree.Proofs.Diagram.Reading

/-!
What the drawing of a tree tells of it. Its boxes and edges are read from the text, the parts of a
label are told apart by the name in front of them, and so texts that are equal show the same states
and transitions.
-/

namespace StateTree

variable {S O E : Type} [StateId S]

namespace Dot

/-- Neither a quote nor a backslash is in the text. -/
def Clean (text : String) : Prop := '"' ∉ text.toList ∧ '\\' ∉ text.toList

instance (text : String) : Decidable (Clean text) := inferInstanceAs (Decidable (_ ∧ _))

theorem Clean.sealed {text : String} (h : Clean text) : Sealed text := by
  obtain ⟨hquote, hback⟩ := h
  rw [sealed_iff]
  generalize text.toList = cs at hquote hback
  induction cs with
  | nil => rfl
  | cons c rest ih =>
    rw [List.mem_cons, not_or] at hquote hback
    rw [isSealed, if_neg (Ne.symm hquote.1), if_neg (Ne.symm hback.1)]
    exact ih hquote.2 hback.2

end Dot

/-- What a drawing shows of a state: its mark for being initial is seen on leaves only. -/
structure Sketch where
  name : String
  history : Bool
  description : Option String
  initial : Bool
  deriving DecidableEq

def State.sketch (s : State S O E) : Sketch :=
  ⟨s.name, s.node.history, s.node.description, s.isLeaf && s.node.initial⟩

/-- Source and target by name, and the text of the event; no target where the transition stays. -/
def Transition.arrow [EventKind E] (x : Transition S O E) : String × Option String × String :=
  (StateId.name x.source, x.target?.map StateId.name, EventKind.text x.event)

def Tree.arrows [EventKind E] (t : Tree S O E) : List (String × Option String × String) :=
  t.states.flatMap fun s => s.node.transitions.map Transition.arrow

/-- What follows the name in the label of a box: a mark for history, and a description. -/
def Box.sketch (b : Box) : Sketch :=
  let rest := b.label.toList.drop b.name.toList.length
  let history := rest.head? = some ' '
  let rest := if history then rest.drop 4 else rest
  ⟨b.name, history, if rest = [] then none else some (String.ofList (rest.drop 2)), b.bold⟩

/-- What an edge tells of its transition. -/
def Edge.arrow (e : Edge) : String × Option String × String :=
  (e.source, if e.dashed then none else some e.target, e.label)

namespace Drawing

/-- The box of a state as far as the text shows it. -/
def shownBox (s : State S O E) : Box := ⟨s.name, boxLabel s, s.isLeaf && s.node.initial⟩

theorem sketch_shownBox (s : State S O E) : Box.sketch (shownBox s) = s.sketch := by
  have hrest : (boxLabel s).toList.drop s.name.toList.length =
      (if s.node.history then " (H)".toList else []) ++
        (s.node.description.elim [] fun text => "\\n".toList ++ text.toList) := by
    unfold boxLabel
    cases s.node.description <;> cases s.node.history <;> simp
  -- only the mark for history begins with a blank
  simp only [Box.sketch, shownBox, State.sketch, hrest]
  cases s.node.description <;> cases s.node.history <;> simp

theorem arrow_edge [DecidableEq S] [EventKind E] (t : Tree S O E) (x : Transition S O E) :
    Edge.arrow (edge false t x) = x.arrow := by
  simp only [Edge.arrow, edge, edgeLabel, Transition.arrow, Transition.isLocal]
  cases x.target? <;> rfl

theorem visible_outline {t : Tree S O E} (ht : t.Linked) :
    Dot.visible (t.outline box) = t.outline shownBox := by
  refine Tree.upward ht (P := fun i => Dot.visible (t.outlineAt box i) = t.outlineAt shownBox i)
    ?_ t.size_pos
  intro i hi ih
  rw [Tree.outlineAt_eq ht box hi, Tree.outlineAt_eq ht shownBox hi]
  -- a state with substates is a cluster, and of a cluster the mark is not written
  have hleaf : (⟨t, i⟩ : State S O E).isLeaf = (t.node i).children.isEmpty := by
    simp [State.isLeaf, State.isComposite, Node.isComposite, State.node]
  cases hc : (t.node i).children with
  | nil =>
    rw [hc] at hleaf
    simp [Dot.visible, box, shownBox, hleaf]
  | cons c rest =>
    rw [hc] at ih hleaf
    have hparts := List.map_congr_left ih
    rw [List.map_cons, List.map_cons] at hparts
    rw [List.map_cons, List.map_cons, ← hparts, Dot.visible, Dot.visibleParts_eq, List.map_map]
    simp [box, shownBox, hleaf]

variable [DecidableEq S] [EventKind E]

/-- The texts that a plain drawing of the tree shows are clean. -/
def CleanTexts (name : String) (t : Tree S O E) : Prop :=
  Dot.Clean name ∧ ∀ s ∈ t.states, Dot.Clean s.name ∧
    (∀ text ∈ s.node.description, Dot.Clean text) ∧
    ∀ x ∈ s.node.transitions, Dot.Clean (EventKind.text x.event)

instance (name : String) (t : Tree S O E) : Decidable (CleanTexts name t) :=
  inferInstanceAs (Decidable (_ ∧ _))

theorem read_ofTree {name : String} {t : Tree S O E} (ht : t.Sound) (h : CleanTexts name t) :
    Dot.read? (Dot.render (ofTree false name t)) =
      some ⟨name, t.outline shownBox, (ofTree false name t).edges⟩ := by
  have hwhole : ∀ p ∈ Dot.pieces (ofTree false name t), p.Whole := by
    refine (pieces_ofTree_whole false name ht).mpr ⟨h.1.sealed, ?_⟩
    intro s hs
    obtain ⟨hname, hdescription, htransitions⟩ := h.2 s hs
    exact ⟨hname.sealed, fun text ht => (hdescription text ht).sealed,
      fun x hx => (htransitions x hx).sealed⟩
  rw [Dot.read_render hwhole, Dot.shown, ← visible_outline ht.toLinked]
  rfl

theorem arrows_ofTree (name : String) (t : Tree S O E) :
    (ofTree false name t).edges.map Edge.arrow = t.arrows := by
  simp [ofTree, Tree.arrows, List.map_flatMap, Function.comp_def, arrow_edge]

/-- A plain drawing with clean texts loses nothing of what it shows. Trees whose drawings have the
same text have the same nested states with the same marks and descriptions, and the same transitions
in the same order. The text shows each state once, in the boxes of its ancestors and no others, and
one edge for each transition. -/
theorem drawing_lossless {R P F : Type} [DecidableEq R] [StateId R] [EventKind F] (root : S)
    (declarations : List (Declaration S O E)) (root' : R) (declarations' : List (Declaration R P F))
    (name name' : String) :
    let t := Tree.build root declarations
    let u := Tree.build root' declarations'
    CleanTexts name t → CleanTexts name' u →
    Dot.render (ofTree false name t) = Dot.render (ofTree false name' u) →
      name = name' ∧ t.outline State.sketch = u.outline State.sketch ∧ t.arrows = u.arrows ∧
        ∃ d, Dot.read? (Dot.render (ofTree false name t)) = some d ∧
          (d.root.placed []).Perm
            (t.states.map fun s => (t.around shownBox s.index, shownBox s)) ∧
          d.edges = t.states.flatMap fun s => s.node.transitions.map (edge false t) := by
  intro t u hclean hclean' htext
  have ht : t.Sound := Tree.build_sound root declarations
  have hu : u.Sound := Tree.build_sound root' declarations'
  have hread := read_ofTree ht hclean
  have hread' := read_ofTree hu hclean'
  -- one text is read as one drawing
  rw [← htext, hread] at hread'
  obtain ⟨hname, hroot, hedges⟩ := Drawing.mk.inj (Option.some.inj hread')
  have hsketch {S O E : Type} [StateId S] {t : Tree S O E} (ht : t.Linked) :
      (t.outline shownBox).map Box.sketch = t.outline State.sketch :=
    Tree.outlineAt_map ht (fun i _ => sketch_shownBox ⟨t, i⟩) t.size_pos
  refine ⟨hname, ?_, ?_, _, hread, Tree.placed_outline ht.toLinked shownBox, rfl⟩
  · rw [← hsketch ht.toLinked, hroot, hsketch hu.toLinked]
  · rw [← arrows_ofTree name, hedges, arrows_ofTree]

end Drawing

namespace Radio

/-- A radio with a switch only. -/
def switch : Tree Place (List String) Button :=
  .build .root
    [.addToRoot .off ⟨[.initial, .history, .exit (noted "exitOff")],
      some ⟨.power, some .root, [.action (noted "offToRoot")]⟩⟩]

/-- The same without anything that the host runs. -/
def silentSwitch : Tree Place Unit Button :=
  .build .root [.addToRoot .off ⟨[.initial, .history], some ⟨.power, some .root, []⟩⟩]

theorem switch_lossless :
    switch.outline State.sketch = silentSwitch.outline State.sketch ∧
      switch.arrows = silentSwitch.arrows := by
  have hclean : Drawing.CleanTexts "radio" switch := by decide +kernel
  have hclean' : Drawing.CleanTexts "radio" silentSwitch := by decide +kernel
  have hwrite : Dot.write (Drawing.ofTree false "radio" switch) =
      Dot.write (Drawing.ofTree false "radio" silentSwitch) := by
    decide +kernel
  have hlossless := Drawing.drawing_lossless Place.root _ Place.root _ "radio" "radio" hclean
    hclean' (congrArg String.ofList hwrite)
  exact ⟨hlossless.2.1, hlossless.2.2.1⟩

end Radio

end StateTree
