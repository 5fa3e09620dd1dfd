import StateTree.Host
import StateTree.Identity

/-!
Transitions of a state. One that moves exits and enters states; one that stays only runs its action.
-/

namespace StateTree

variable {S O E : Type}

/-- A moving transition keeps the id of its target and the target's place in the tree. -/
inductive Kind (S : Type)
  | moves (target : S) (index : Nat)
  | stays
  deriving DecidableEq

structure Transition (S O E : Type) where
  source : S
  event : E
  kind : Kind S
  guard : Option (Guard O E) := none
  action : Option (Action O E) := none
  description : Option String := none

namespace Kind

def target? : Kind S → Option S
  | moves target _ => some target
  | stays => none

def index? : Kind S → Option Nat
  | moves _ index => some index
  | stays => none

def inspect [StateId S] : Kind S → String
  | moves target index =>
    Text.record "External" [("target", StateId.label target), ("index", toString index)]
  | stays => "Local"

end Kind

namespace Transition

def target? (t : Transition S O E) : Option S := t.kind.target?

def isLocal (t : Transition S O E) : Bool := t.target?.isNone

/-- Its target is its source. -/
def isSelf [DecidableEq S] (t : Transition S O E) : Bool := t.target? == some t.source

def inspect [StateId S] [EventKind E] (t : Transition S O E) : String :=
  Text.record "Transition"
    [("source", StateId.label t.source),
      ("event", EventKind.text t.event),
      ("kind", t.kind.inspect),
      ("guard", Text.option Guard.inspect t.guard),
      ("action", Text.option Action.inspect t.action),
      ("description", Text.option Text.quoted t.description)]

end Transition

end StateTree
