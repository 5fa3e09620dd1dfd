import StateTree.Ending
import StateTree.Text.Inspect

/-!
Guards and actions. The host gives them as functions on the owner of a machine; each may change the
owner before it ends, whatever its ending.
-/

namespace StateTree

variable {O E : Type}

/-- Decides whether a transition may be taken. -/
structure Guard (O E : Type) where
  check : O → E → Ending Bool × O
  description : Option String := none

/-- Runs on entry, on exit or during a transition; a reset brings no event. -/
structure Action (O E : Type) where
  run : O → Option E → Ending Unit × O
  description : Option String := none

/-- An action that does nothing where there is no event. -/
def Action.onEvent (f : O → E → Ending Unit × O) : Action O E where
  run owner event :=
    match event with
    | some e => f owner e
    | none => (.value (), owner)

def Guard.described (g : Guard O E) (text : String) : Guard O E :=
  { g with description := some text }

def Action.described (a : Action O E) (text : String) : Action O E :=
  { a with description := some text }

def Guard.inspect (g : Guard O E) : String :=
  Text.openRecord "Guard" [("description", Text.option Text.quoted g.description)]

def Action.inspect (a : Action O E) : String :=
  Text.openRecord "Action" [("description", Text.option Text.quoted a.description)]

def ActionError.inspect (e : ActionError) : String :=
  Text.record "ActionError" [("message", Text.quoted e.message)]

end StateTree
