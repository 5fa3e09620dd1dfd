import StateTree.Transition

/-!
A tree of states, stored as a table of nodes. A node names its parent and its children by their
place in the table; the root has place 0, and a node is placed after its parent.
-/

namespace StateTree

variable {S O E : Type}

structure Node (S O E : Type) where
  id : S
  parent : Option Nat
  description : Option String := none
  children : List Nat := []
  initial : Bool := false
  history : Bool := false
  entry : Option (Action O E) := none
  exit : Option (Action O E) := none
  transitions : List (Transition S O E) := []

namespace Node

/-- A node of which nothing is known but its id and its parent. -/
def fresh (id : S) (parent : Option Nat) : Node S O E := { id := id, parent := parent }

def isComposite (n : Node S O E) : Bool := !n.children.isEmpty

end Node

/-- The table, and the place of each id. -/
structure Tree (S O E : Type) where
  nodes : Array (Node S O E)
  places : List (S × Nat)
  size_pos : 0 < nodes.size

namespace Tree

/-- The tree that has a root only. -/
def single (root : S) : Tree S O E where
  nodes := #[.fresh root none]
  places := [(root, 0)]
  size_pos := by simp

def size (t : Tree S O E) : Nat := t.nodes.size

def root (t : Tree S O E) : Node S O E :=
  have : 0 < t.nodes.size := t.size_pos
  t.nodes[0]

/-- The node at a place; a place outside the table reads as the root. -/
def node (t : Tree S O E) (i : Nat) : Node S O E := t.nodes[i]?.getD t.root

def place? [DecidableEq S] (t : Tree S O E) (id : S) : Option Nat := t.places.lookup id

def contains [DecidableEq S] (t : Tree S O E) (id : S) : Bool := (t.place? id).isSome

def modify (t : Tree S O E) (i : Nat) (f : Node S O E → Node S O E) : Tree S O E where
  nodes := t.nodes.modify i f
  places := t.places
  size_pos := by simpa using t.size_pos

/-- A fresh node becomes the last child of `parent`. An id that is placed keeps its place. -/
def addNode [DecidableEq S] (t : Tree S O E) (id : S) (parent : Nat) : Tree S O E where
  nodes := (t.nodes.push (.fresh id (some parent))).modify parent
    fun n => { n with children := n.children ++ [t.size] }
  places := if t.contains id then t.places else t.places ++ [(id, t.size)]
  size_pos := by simp

theorem size_modify (t : Tree S O E) (j : Nat) (f : Node S O E → Node S O E) :
    (t.modify j f).size = t.size := by
  simp only [size, modify, Array.size_modify]

theorem size_addNode [DecidableEq S] (t : Tree S O E) (id : S) (parent : Nat) :
    (t.addNode id parent).size = t.size + 1 := by
  simp only [size, addNode, Array.size_modify, Array.size_push]

theorem node_of_getElem? {t : Tree S O E} {i : Nat} {n : Node S O E} (h : t.nodes[i]? = some n) :
    t.node i = n := by
  simp only [node, h, Option.getD_some]

theorem getElem?_nodes (t : Tree S O E) (i : Nat) (h : i < t.size) :
    t.nodes[i]? = some (t.node i) := by
  have hs : t.nodes[i]? = some t.nodes[i] := Array.getElem?_eq_getElem h
  rw [hs, node_of_getElem? hs]

/-- Only the node at the changed place is another one. -/
theorem node_modify (t : Tree S O E) (i j : Nat) (f : Node S O E → Node S O E) (h : i < t.size) :
    (t.modify j f).node i = if j = i then f (t.node i) else t.node i := by
  apply node_of_getElem?
  rw [modify, Array.getElem?_modify, getElem?_nodes t i h]
  split <;> rfl

/-- The new node comes last, and only its parent is another one than before. -/
theorem node_addNode [DecidableEq S] (t : Tree S O E) (id : S) (i parent : Nat)
    (hp : parent < t.size) (h : i ≤ t.size) :
    (t.addNode id parent).node i =
      if i = t.size then .fresh id (some parent)
      else if parent = i then { t.node i with children := (t.node i).children ++ [t.size] }
      else t.node i := by
  apply node_of_getElem?
  rw [addNode, Array.getElem?_modify, Array.getElem?_push]
  by_cases hi : i = t.size
  · have hne : parent ≠ i := by omega
    have hs : i = t.nodes.size := hi
    rw [if_neg hne, if_pos hs, if_pos hi]
  · have hs : ¬i = t.nodes.size := hi
    rw [if_neg hs, if_neg hi, getElem?_nodes t i (by omega)]
    split <;> rfl

end Tree

end StateTree
