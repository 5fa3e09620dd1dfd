import StateTree.Step.Work

/-!
Leaving and entering states. States are left from the innermost outwards and entered from the
outermost inwards; a state whose action fails is neither left nor entered.
-/

namespace StateTree.Work

variable {S O E : Type}

/-- Takes the innermost state `i` off the chain. A history state records what was active below
it. -/
def leave (t : Tree S O E) (i : Nat) (below rest : List Nat) (w : Work O E) : Work O E :=
  { w with
    active := rest
    history :=
      if (t.node i).history && !below.isEmpty then w.history.insert i below else w.history
    trail := w.trail ++ [.exited i] }

/-- Leaves the states of a chain up to `limit`, which stays, as does the root. `below` holds the
states left so far, outermost first. -/
def leaveTo (t : Tree S O E) (event : Option E) (limit : Nat) :
    List Nat → List Nat → Work O E → Progress S O E
  | _, [], w => .going w
  | below, i :: rest, w =>
    if i = limit ∨ i = 0 then .going w
    else
      (w.run (t.node i).exit event (.exit i) .exit (t.node i).id).andThen fun w =>
        leaveTo t event limit (i :: below) rest (w.leave t i below rest)

/-- What a state recorded is given up as soon as the state is about to be entered. -/
def enter (t : Tree S O E) (event : Option E) (i : Nat) (w : Work O E) : Progress S O E :=
  let w := { w with history := w.history.erase i }
  (w.run (t.node i).entry event (.entry i) .entry (t.node i).id).andThen fun w =>
    .going { w with active := i :: w.active, trail := w.trail ++ [.entered i] }

def enterAll (t : Tree S O E) (event : Option E) : List Nat → Work O E → Progress S O E
  | [], w => .going w
  | i :: rest, w => (w.enter t event i).andThen (enterAll t event rest)

/-- Follows initial substates from the entered state `i`, at most `n` of them. -/
def descend (t : Tree S O E) (event : Option E) : Nat → Nat → Work O E → Progress S O E
  | 0, _, w => .going w
  | n + 1, i, w =>
    if (t.node i).isComposite then
      match t.firstInitial? i with
      | some c => (w.enter t event c).andThen (descend t event n c)
      | none => .going (w.note (.stuck i))
    else .going w

/-- Enters what is below the entered state `i`: the recorded chain, if there is one, and then
initial substates. No descent is longer than the table. -/
def enterBelow (t : Tree S O E) (event : Option E) (i : Nat) (recorded : Option (List Nat))
    (w : Work O E) : Progress S O E :=
  match recorded with
  | none => w.descend t event t.size i
  | some chain =>
    ((w.note (.restoring i chain.length)).enterAll t event chain).andThen
      (descend t event t.size (chain.getLast?.getD i))

end StateTree.Work
