import StateTree.Observer

/-!
A gate refuses the events of an inconsistent machine, whether it saw the failure happen or learns of
it before an event.
-/

namespace StateTree

variable {S E : Type}

/-- The cause for which events are refused. -/
structure Gate where
  cause : Option String := none
  deriving DecidableEq

namespace Gate

def isConsistent (g : Gate) : Bool := g.cause.isNone

variable [StateId S] [EventKind E]

def observer : Observer Gate S E where
  wasReset _ _ failure _ := (⟨failure.map Failure.text⟩, [])
  beforeFire machine event inconsistency gate :=
    let cause := gate.cause <|> inconsistency.map Failure.text
    (⟨cause⟩, cause.map fun text => .inconsistent machine (EventKind.text event) text)
  fired _ _ reaction gate :=
    match reaction with
    | .failed f => (if f.leavesConsistent then gate else ⟨some f.text⟩, [])
    | _ => (gate, [])

end Gate

end StateTree
