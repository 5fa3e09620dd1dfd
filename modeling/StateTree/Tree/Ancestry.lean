import StateTree.Tree.Basic

/-!
Paths in the tree: from the root to a state, to the deepest ancestor that two states share, and
along initial substates.
-/

namespace StateTree

variable {S O E : Type}

/-- The common start of two lists. -/
def sharedStart [DecidableEq α] : List α → List α → List α
  | a :: as, b :: bs => if a = b then a :: sharedStart as bs else []
  | _, _ => []

namespace Tree

/-- The path from at most `n` steps above place `i` down to it. -/
def climb (t : Tree S O E) : Nat → Nat → List Nat
  | 0, i => [i]
  | n + 1, i =>
    match (t.node i).parent with
    | none => [i]
    | some p => t.climb n p ++ [i]

/-- The path from the root. A parent comes before its child in the table, so `i` steps suffice. -/
def path (t : Tree S O E) (i : Nat) : List Nat := t.climb i i

def depth (t : Tree S O E) (i : Nat) : Nat := (t.path i).length - 1

/-- The deepest state that properly contains both; the root where one of them is the root. -/
def commonAncestor (t : Tree S O E) (i j : Nat) : Nat :=
  (sharedStart (t.path i).dropLast (t.path j).dropLast).getLast?.getD 0

/-- The first substate flagged initial. -/
def firstInitial? (t : Tree S O E) (i : Nat) : Option Nat :=
  (t.node i).children.find? fun c => (t.node c).initial

def initials (t : Tree S O E) (i : Nat) : List Nat :=
  (t.node i).children.filter fun c => (t.node c).initial

/-- The states below `limit` on the path to `target`; the whole path where `limit` is not on it. -/
def pathBelow (t : Tree S O E) (limit target : Nat) : List Nat :=
  let path := t.path target
  if limit ∈ path then (path.dropWhile (· != limit)).drop 1 else path

end Tree

end StateTree
