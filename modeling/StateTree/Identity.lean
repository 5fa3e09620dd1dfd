/-!
What the host says about its state ids and its events.
-/

namespace StateTree

/-- A state id has a name for people and a label that tells it apart from other ids. -/
class StateId (S : Type) where
  name : S → String
  label : S → String

/-- Events of one kind trigger the same transitions. `same` is asked with the declared event first
and need be neither reflexive nor symmetric. -/
class EventKind (E : Type) where
  same : E → E → Bool
  text : E → String

end StateTree
