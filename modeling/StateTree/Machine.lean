import StateTree.Step

/-!
A machine: a tree with an owner, an active chain and a history. It comes alive with its first reset,
and a failure that interrupts an exit, a transition or an entry leaves it inconsistent until a reset
succeeds.
-/

namespace StateTree

variable {S O E : Type}

structure Machine (S O E : Type) extends Configuration O where
  tree : Tree S O E
  name : String
  id : String
  alive : Bool
  inconsistency : Option (Failure S)

/-- The answer to an operation, and what happened on the way: the trail of its step, and the log
lines of the whole operation. -/
structure Reply (M E α : Type) where
  machine : M
  answer : α
  trail : List (Mark E)
  lines : List Line

namespace Machine

/-- A machine that was never reset. -/
def idle (tree : Tree S O E) (name id : String) (owner : O) : Machine S O E :=
  ⟨⟨owner, [], .empty⟩, tree, name, id, false, none⟩

def modifyOwner (f : O → O) (m : Machine S O E) : Machine S O E := { m with owner := f m.owner }

def stateId (m : Machine S O E) (i : Nat) : S := (m.tree.node i).id

/-- The active states from the root inwards. -/
def activeStates (m : Machine S O E) : List S := m.active.reverse.map m.stateId

def currentState? (m : Machine S O E) : Option S := m.active.head?.map m.stateId

def isActive [DecidableEq S] (m : Machine S O E) (id : S) : Bool := id ∈ m.activeStates

/-- Each remembering state with the chain it remembers. -/
def historyStates (m : Machine S O E) : List (S × List S) :=
  m.history.records.map fun r => (m.stateId r.1, r.2.map m.stateId)

def isConsistent (m : Machine S O E) : Bool := m.inconsistency.isNone

def inspect [StateId S] (m : Machine S O E) : String :=
  Text.record "Machine"
    [("id", m.id),
      ("name", Text.quoted m.name),
      ("active", Text.list (m.activeStates.map StateId.label)),
      ("alive", Text.bool m.alive),
      ("consistent", Text.bool m.isConsistent)]

/-- The fields that lead each line of the machine's own. -/
def tag (m : Machine S O E) : List (String × String) :=
  [("machine", m.name), ("machine_id", m.id)]

variable [StateId S] [EventKind E]

def trailLines (m : Machine S O E) (trail : List (Mark E)) : List Line :=
  trail.filterMap (Mark.line? m.tree m.name)

def resetLine (m : Machine S O E) : Option (Failure S) → Line
  | none =>
    let state := Text.option StateId.label m.currentState?
    ⟨.info, "machine reset", m.tag ++ [("state", state)]⟩
  | some f => ⟨.warn, "machine reset failed", m.tag ++ [("failure", f.text)]⟩

/-- Only moves and failures are logged by the machine itself. -/
def reactionLines (m : Machine S O E) (event : E) : Reaction S → List Line
  | .ignored | .stayed _ => []
  | .moved move =>
    [⟨.debug, "event dispatched",
      m.tag ++
        [("event", EventKind.text event),
          ("from", StateId.name move.before),
          ("to", StateId.name move.after)]⟩]
  | .failed f =>
    [⟨.warn, "event dispatch failed",
      m.tag ++ [("event", EventKind.text event), ("failure", f.text)]⟩]

/-- The failure that a reaction leaves behind, or else the one that was there before. -/
def carry (before : Option (Failure S)) : Reaction S → Option (Failure S)
  | .failed f => if f.leavesConsistent then before else some f
  | _ => before

/-- Whether or not an entry fails, the machine is alive afterwards. -/
def reset (m : Machine S O E) : Reply (Machine S O E) E (Option (Failure S)) :=
  let progress := m.tree.reset m.toConfiguration
  let failure := progress.failure?
  let next : Machine S O E :=
    { m with
      toConfiguration := progress.work.toConfiguration
      alive := true
      inconsistency := failure }
  let trail := progress.work.trail
  ⟨next, failure, trail, next.trailLines trail ++ [next.resetLine failure]⟩

/-- Reacts to an event, whether or not the machine is consistent. -/
def react (m : Machine S O E) (event : E) : Reply (Machine S O E) E (Reaction S) :=
  let step := m.tree.react event m.toConfiguration
  let next : Machine S O E :=
    { m with
      toConfiguration := step.1.toConfiguration
      inconsistency := carry m.inconsistency step.2 }
  let trail := step.1.trail
  ⟨next, step.2, trail, next.trailLines trail ++ next.reactionLines event step.2⟩

end Machine

end StateTree
