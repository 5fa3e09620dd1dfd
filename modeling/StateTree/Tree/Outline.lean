import StateTree.Tree.View

/-!
The tree as nested data: each state with the outlines of its substates, in order.
-/

namespace StateTree

variable {S O E : Type}

inductive Outline (α : Type)
  | node (content : α) (parts : List (Outline α))

namespace Outline

mutual

/-- The contents in the order of a walk that visits a state before its substates. -/
def contents : Outline α → List α
  | node content parts => content :: allContents parts

def allContents : List (Outline α) → List α
  | [] => []
  | o :: rest => o.contents ++ allContents rest

end

end Outline

namespace Tree

/-- What `f` says of the state at `i` and of the states at most `n` levels below it. -/
def outlineFrom (t : Tree S O E) (f : State S O E → α) : Nat → Nat → Outline α
  | 0, i => .node (f ⟨t, i⟩) []
  | n + 1, i => .node (f ⟨t, i⟩) ((t.node i).children.map (t.outlineFrom f n))

/-- No path is longer than the table. -/
def outline (t : Tree S O E) (f : State S O E → α) : Outline α := t.outlineFrom f t.size 0

end Tree

end StateTree
