import StateTree.Journal
import StateTree.Observer

/-!
A recorder keeps the journal of a machine from one reset to the next.
-/

namespace StateTree

variable {S E : Type}

/-- The host keeps the clock. -/
structure Recorder (S : Type) where
  clock : Instant
  journal : Journal S := {}

def Recorder.observer [EventKind E] : Observer (Recorder S) S E where
  wasReset _ _ _ recorder := ({ recorder with journal := {} }, [])
  fired _ event reaction recorder :=
    match reaction with
    | .moved move =>
      let entry := ⟨EventKind.text event, move, recorder.clock⟩
      ({ recorder with journal := recorder.journal.add entry }, [])
    | _ => (recorder, [])

end StateTree
