/-!
How a call of host code ends.
-/

namespace StateTree

structure ActionError where
  message : String
  deriving DecidableEq

/-- Host code returns a value, returns an error or panics with or without a text. -/
inductive Ending (α : Type)
  | value (a : α)
  | error (e : ActionError)
  | panic (payload : Option String)

/-- A panic counts as an error that carries its text. -/
def Ending.settle : Ending α → Except ActionError α
  | value a => .ok a
  | error e => .error e
  | panic (some text) => .error ⟨"panicked: " ++ text⟩
  | panic none => .error ⟨"panicked"⟩

end StateTree
