import StateTree.Observer

/-!
A reporter logs resets and events. Failures are warnings; all else has the level of the reporter.
-/

namespace StateTree

variable {W S E : Type}

structure Reporter where
  level : Level := .info
  deriving DecidableEq

namespace Reporter

variable [StateId S] [EventKind E]

def resetLine (r : Reporter) (machine : String) (active : List S) :
    Option (Failure S) → Line
  | none =>
    ⟨r.level, "reset", [("machine", machine), ("active", names)]⟩
  | some f =>
    ⟨.warn, "reset failed", [("machine", machine), ("active", names), ("failure", f.text)]⟩
where
  names : String := Text.list (active.map fun id => Text.quoted (StateId.name id))

def eventLine (r : Reporter) (machine : String) (event : E) : Reaction S → Line
  | .ignored => ⟨r.level, "event ignored", about⟩
  | .stayed state => ⟨r.level, "local transition", about ++ [("state", StateId.name state)]⟩
  | .moved move =>
    ⟨r.level, "transition",
      about ++
        [("source", StateId.name move.source),
          ("target", StateId.name move.target),
          ("from", StateId.name move.before),
          ("to", StateId.name move.after)]⟩
  | .failed f => ⟨.warn, "event failed", about ++ [("failure", f.text)]⟩
where
  about : List (String × String) := [("machine", machine), ("event", EventKind.text event)]

def observer (r : Reporter) : Observer W S E where
  wasReset machine active failure world := (world, [r.resetLine machine active failure])
  fired machine event reaction world := (world, [r.eventLine machine event reaction])

end Reporter

end StateTree
