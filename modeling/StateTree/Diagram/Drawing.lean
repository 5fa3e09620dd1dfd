import StateTree.Tree.Outline

/-!
The drawing of a tree: nested boxes for its states and an edge for each transition.
-/

namespace StateTree

variable {S O E : Type}

/-- A box is bold where entering its parent leads to it. -/
structure Box where
  name : String
  label : String
  bold : Bool
  deriving DecidableEq

/-- The ends are names of boxes; an end that holds other boxes is drawn up to its border. -/
structure Edge where
  source : String
  target : String
  label : String
  dashed : Bool
  sourceNested : Bool
  targetNested : Bool
  deriving DecidableEq

structure Drawing where
  name : String
  root : Outline Box
  edges : List Edge

namespace Drawing

variable [DecidableEq S] [StateId S] [EventKind E]

/-- The name, a mark for history and the description on a line of its own. -/
def boxLabel (s : State S O E) : String :=
  let history := if s.node.history then " (H)" else ""
  match s.node.description with
  | none => s.name ++ history
  | some text => s.name ++ history ++ "\\n" ++ text

def box (s : State S O E) : Box := ⟨s.name, boxLabel s, s.node.initial⟩

/-- The event, and on demand what is known of guard and action. -/
def edgeLabel (described : Bool) (x : Transition S O E) : String :=
  let event := EventKind.text x.event
  if described then
    let guard :=
      match x.guard with
      | none => ""
      | some g => " [" ++ g.description.getD "guard" ++ "]"
    let action :=
      match x.action with
      | none => ""
      | some a => " / " ++ a.description.getD "action"
    event ++ guard ++ action
  else event

def isNested (t : Tree S O E) (id : S) : Bool := (t.state? id).any State.isComposite

/-- A transition that stays is drawn from its state to itself. -/
def edge (described : Bool) (t : Tree S O E) (x : Transition S O E) : Edge :=
  let target := x.target?.getD x.source
  ⟨StateId.name x.source, StateId.name target, edgeLabel described x, x.isLocal,
    isNested t x.source, isNested t target⟩

/-- Edges stand in the order of the states and of their transitions. -/
def ofTree (described : Bool) (name : String) (t : Tree S O E) : Drawing :=
  ⟨name, t.outline box,
    t.states.flatMap fun s => s.node.transitions.map (edge described t)⟩

end Drawing

end StateTree
