import StateTree.Tree.View

/-!
The trail of a step: its calls of host code and its changes of the active chain, in order. The log
of a step is read off its trail.
-/

namespace StateTree

variable {S O E : Type}

/-- A place in the tree that holds host code. Transitions count from zero in each state. -/
inductive Site
  | guard (state position : Nat)
  | exit (state : Nat)
  | action (state position : Nat)
  | entry (state : Nat)
  deriving DecidableEq

inductive Mark (E : Type)
  | called (site : Site) (event : Option E)
  | unmatched (event : E)
  | stayed (state : Nat)
  | exited (state : Nat)
  | restoring (state depth : Nat)
  | entered (state : Nat)
  | stuck (state : Nat)
  | moved (source target before after : Nat)
  deriving DecidableEq

/-- The log line of a mark in machine `machine`. Calls are not logged. -/
def Mark.line? [StateId S] [EventKind E] (t : Tree S O E) (machine : String) :
    Mark E → Option Line
  | called _ _ => none
  | unmatched event =>
    some ⟨.debug, "no transition matched",
      [("machine", machine), ("event", EventKind.text event)]⟩
  | stayed i =>
    some ⟨.debug, "local transition executed", [("machine", machine), ("state", name i)]⟩
  | exited i => some ⟨.debug, "exited state", [("machine", machine), ("state", name i)]⟩
  | restoring i depth =>
    some ⟨.debug, "restoring history",
      [("machine", machine), ("state", name i), ("depth", toString depth)]⟩
  | entered i => some ⟨.debug, "entered state", [("machine", machine), ("state", name i)]⟩
  | stuck i =>
    some ⟨.warn, "composite state has no initial substate, descent stops",
      [("machine", machine), ("state", name i)]⟩
  | moved source target before after =>
    some ⟨.debug, "transition executed",
      [("machine", machine),
        ("source", name source),
        ("target", name target),
        ("from", name before),
        ("to", name after)]⟩
where
  name (i : Nat) : String := StateId.name (t.node i).id

end StateTree
