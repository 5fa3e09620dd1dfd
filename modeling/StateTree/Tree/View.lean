import StateTree.Tree.Ancestry
import StateTree.Log

/-!
A state seen from its tree, and what a finished tree shows of itself.
-/

namespace StateTree

variable {S O E : Type}

/-- A place in a tree. -/
structure State (S O E : Type) where
  tree : Tree S O E
  index : Nat

namespace State

def node (s : State S O E) : Node S O E := s.tree.node s.index

def id (s : State S O E) : S := s.node.id

def name [StateId S] (s : State S O E) : String := StateId.name s.id

def parent? (s : State S O E) : Option (State S O E) := s.node.parent.map (mk s.tree)

def substates (s : State S O E) : List (State S O E) := s.node.children.map (mk s.tree)

def initialSubstate? (s : State S O E) : Option (State S O E) :=
  (s.tree.firstInitial? s.index).map (mk s.tree)

def isRoot (s : State S O E) : Bool := s.index == 0

def isComposite (s : State S O E) : Bool := s.node.isComposite

def isLeaf (s : State S O E) : Bool := !s.isComposite

/-- A leaf that nothing leads out of. -/
def isFinal (s : State S O E) : Bool := s.isLeaf && s.node.transitions.isEmpty

def depth (s : State S O E) : Nat := s.tree.depth s.index

def inspect [StateId S] (s : State S O E) : String :=
  Text.record "StateRef" [("id", StateId.label s.id)]

end State

namespace Tree

def rootState (t : Tree S O E) : State S O E := ⟨t, 0⟩

def state? [DecidableEq S] (t : Tree S O E) (id : S) : Option (State S O E) :=
  (t.place? id).map (⟨t, ·⟩)

/-- All states in the order of their declaration. -/
def states (t : Tree S O E) : List (State S O E) := (List.range t.size).map (⟨t, ·⟩)

def inspect [StateId S] (t : Tree S O E) : String :=
  Text.record "Definition"
    [("root", StateId.label t.rootState.id), ("states", toString t.size)]

/-- What is logged once a tree is finished. -/
def builtLine [StateId S] (t : Tree S O E) : Line :=
  ⟨.debug, "state machine definition built",
    [("root", t.rootState.name), ("states", toString t.size)]⟩

/-- The same tree with other ids. The places of ids are those of the first nodes that have them, and
transitions keep their target nodes. -/
def relabel {R : Type} [DecidableEq R] (t : Tree S O E) (f : S → R) : Tree R O E where
  nodes := t.nodes.map fun n =>
    { n with
      id := f n.id
      transitions := n.transitions.map fun x =>
        { x with
          source := f x.source
          kind :=
            match x.kind with
            | .moves target index => .moves (f target) index
            | .stays => .stays } }
  places := t.places.map fun p => (f p.1, p.2)
  size_pos := by simpa using t.size_pos

end Tree

end StateTree
