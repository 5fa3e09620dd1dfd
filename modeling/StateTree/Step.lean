import StateTree.Step.Choice
import StateTree.Step.Crossing

/-!
A step of a machine: its reset, or its reaction to one event.
-/

namespace StateTree

variable {S O E : Type}

namespace Work

/-- Runs the action of a transition and stays in all states. -/
def stay (t : Tree S O E) (event : E) (c : Candidate S O E) (w : Work O E) :
    Work O E × Reaction S :=
  let id := (t.node c.state).id
  let site := Site.action c.state c.position
  match w.run c.transition.action (some event) site .stayAction id with
  | .going w => (w.note (.stayed c.state), .stayed id)
  | .stopped w f => (w, .failed f)

/-- What `target` remembers and will be restored by entering it. -/
def record? (t : Tree S O E) (target : Nat) (w : Work O E) : Option (List Nat) :=
  if (t.node target).history then w.history.get? target else none

/-- Enters `target` from its ancestor `limit`, with what it remembers or else its initial substates.
The record of the target is given up before any state is entered. -/
def enterTarget (t : Tree S O E) (event : Option E) (limit target : Nat) (w : Work O E) :
    Progress S O E :=
  let recorded := w.record? t target
  let w :=
    if (t.node target).history then { w with history := w.history.erase target } else w
  (w.enterAll t event (t.pathBelow limit target)).andThen (enterBelow t event target recorded)

/-- Leaves the states below the deepest state around source and target, runs the action of the
transition and enters the target. -/
def cross (t : Tree S O E) (event : E) (c : Candidate S O E) (target : Nat) (w : Work O E) :
    Progress S O E :=
  let limit := t.commonAncestor c.state target
  let site := Site.action c.state c.position
  let left := w.leaveTo t (some event) limit [] w.active
  let acted := left.andThen fun w =>
    w.run c.transition.action (some event) site .action (t.node c.state).id
  acted.andThen (enterTarget t (some event) limit target)

/-- Takes a transition to `target`. -/
def move (t : Tree S O E) (event : E) (c : Candidate S O E) (target : Nat) (w : Work O E) :
    Work O E × Reaction S :=
  let before := w.innermost
  match w.cross t event c target with
  | .stopped w f => (w, .failed f)
  | .going w =>
    let after := w.innermost
    (w.note (.moved c.state target before after),
      .moved ⟨(t.node c.state).id, (t.node target).id, (t.node before).id, (t.node after).id⟩)

end Work

namespace Tree

/-- The reaction to one event. -/
def react [EventKind E] (t : Tree S O E) (event : E) (c : Configuration O) :
    Work O E × Reaction S :=
  let chosen := (Work.start c).choose t event (t.candidates c.active event)
  match chosen.2 with
  | .error f => (chosen.1, .failed f)
  | .ok none => (chosen.1.note (.unmatched event), .ignored)
  | .ok (some c) =>
    match c.transition.kind with
    | .stays => chosen.1.stay t event c
    | .moves _ target => chosen.1.move t event c target

/-- Forgets all history and all active states, then enters the root and its initial substates. -/
def reset (t : Tree S O E) (c : Configuration O) : Progress S O E :=
  let w : Work O E := Work.start { c with active := [], history := .empty }
  (w.enter t none 0).andThen (Work.enterBelow t none 0 none)

end Tree

end StateTree
