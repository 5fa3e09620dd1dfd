import StateTree.Host
import StateTree.Identity

/-!
What comes of an event, or of a reset: reactions, failures and refusals.
-/

namespace StateTree

variable {S E : Type}

/-- The part of a step that runs host code. -/
inductive Phase
  | guard
  | exit
  | action
  | stayAction
  | entry
  deriving DecidableEq

namespace Phase

def text : Phase → String
  | guard => "guard"
  | exit => "exit action"
  | action => "transition action"
  | stayAction => "local transition action"
  | entry => "entry action"

def inspect : Phase → String
  | guard => "Guard"
  | exit => "Exit"
  | action => "Action"
  | stayAction => "LocalAction"
  | entry => "Entry"

end Phase

structure Failure (S : Type) where
  phase : Phase
  state : S
  error : ActionError
  deriving DecidableEq

namespace Failure

/-- No state was entered or exited when it happened. -/
def leavesConsistent (f : Failure S) : Bool := f.phase = .guard || f.phase = .stayAction

def text [StateId S] (f : Failure S) : String :=
  f.phase.text ++ " of state " ++ StateId.name f.state ++ " failed: " ++ f.error.message

def inspect [StateId S] (f : Failure S) : String :=
  Text.record "DispatchFailure"
    [("phase", f.phase.inspect),
      ("state", StateId.label f.state),
      ("error", f.error.inspect)]

end Failure

/-- A transition taken: its declared ends, and the innermost active state before and after it. -/
structure Move (S : Type) where
  source : S
  target : S
  before : S
  after : S
  deriving DecidableEq

def Move.fields [StateId S] (m : Move S) : List (String × String) :=
  [("source", StateId.label m.source),
    ("target", StateId.label m.target),
    ("from", StateId.label m.before),
    ("to", StateId.label m.after)]

inductive Reaction (S : Type)
  | ignored
  | stayed (state : S)
  | moved (move : Move S)
  | failed (failure : Failure S)
  deriving DecidableEq

namespace Reaction

def isIgnored : Reaction S → Bool
  | ignored => true
  | _ => false

def failure? : Reaction S → Option (Failure S)
  | failed f => some f
  | _ => none

def isFailed (r : Reaction S) : Bool := r.failure?.isSome

def inspect [StateId S] : Reaction S → String
  | ignored => "Ignored"
  | stayed state => Text.record "Local" [("state", StateId.label state)]
  | moved m => Text.record "Transitioned" m.fields
  | failed f => Text.applied "Failed" f.inspect

end Reaction

/-- Why a machine did not react to an event at all. -/
inductive Refusal
  | notAlive (machine : String)
  | inconsistent (machine event cause : String)
  deriving DecidableEq

namespace Refusal

def message : Refusal → String
  | notAlive machine =>
    "Machine '" ++ machine ++ "' was never reset. Call reset() before firing events"
  | inconsistent machine event cause =>
    "Machine '" ++ machine ++ "' is inconsistent and cannot dispatch " ++ event ++ ": " ++ cause

def inspect : Refusal → String
  | notAlive machine => Text.record "NotAlive" [("machine", Text.quoted machine)]
  | inconsistent machine event cause =>
    Text.record "Inconsistent"
      [("machine", Text.quoted machine),
        ("event", Text.quoted event),
        ("cause", Text.quoted cause)]

end Refusal

/-- An event as a value of its own, as distinct from its bare text. -/
def inspectEvent [EventKind E] (e : E) : String := Text.record "Event" [("kind", EventKind.text e)]

end StateTree
