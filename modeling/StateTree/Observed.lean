import StateTree.Machine
import StateTree.Observer

/-!
A machine with its observers. They are asked and told in the order of their registration; the number
of an observer is never given to another one.
-/

namespace StateTree

variable {W S O E : Type}

structure ObserverId where
  number : Nat
  deriving DecidableEq

def ObserverId.inspect (id : ObserverId) : String := Text.applied "HandlerId" (toString id.number)

structure Observed (W S O E : Type) extends Machine S O E where
  observers : List (ObserverId × Observer W S E)
  next : Nat

/-- The answer to an operation that observers take part in, and the world they leave. -/
structure ObservedReply (W S O E α : Type) extends Reply (Observed W S O E) E α where
  world : W

namespace Observed

def idle (tree : Tree S O E) (name id : String) (owner : O) : Observed W S O E :=
  ⟨Machine.idle tree name id owner, [], 0⟩

/-- The observers without their numbers. -/
def watchers (m : Observed W S O E) : List (Observer W S E) := m.observers.map Prod.snd

def modifyOwner (f : O → O) (m : Observed W S O E) : Observed W S O E :=
  { m with toMachine := m.toMachine.modifyOwner f }

def register (m : Observed W S O E) (o : Observer W S E) : Observed W S O E × ObserverId :=
  ({ m with observers := m.observers ++ [(⟨m.next⟩, o)], next := m.next + 1 }, ⟨m.next⟩)

def isRegistered (m : Observed W S O E) (id : ObserverId) : Bool :=
  m.observers.any fun o => o.1 == id

/-- Also says whether there was such an observer. -/
def unregister (m : Observed W S O E) (id : ObserverId) : Observed W S O E × Bool :=
  ({ m with observers := m.observers.filter fun o => o.1 != id }, m.isRegistered id)

variable [StateId S] [EventKind E]

def reset (m : Observed W S O E) (world : W) : ObservedReply W S O E (Option (Failure S)) :=
  let reply := m.toMachine.reset
  let active := reply.machine.activeStates
  let told := Observer.notify (fun o => o.wasReset m.name active reply.answer) m.watchers world
  let next := { m with toMachine := reply.machine }
  ⟨⟨next, reply.answer, reply.trail, reply.lines ++ told.2⟩, told.1⟩

/-- There is no reaction where the machine was never reset or an observer refuses the event. -/
def fire (m : Observed W S O E) (event : E) (world : W) :
    ObservedReply W S O E (Except Refusal (Reaction S)) :=
  if m.alive then
    let asked := Observer.consult m.name event m.inconsistency m.watchers world
    match asked.2 with
    | some refusal => ⟨⟨m, .error refusal, [], []⟩, asked.1⟩
    | none =>
      let reply := m.toMachine.react event
      let told := Observer.notify (fun o => o.fired m.name event reply.answer) m.watchers asked.1
      let next := { m with toMachine := reply.machine }
      ⟨⟨next, .ok reply.answer, reply.trail, reply.lines ++ told.2⟩, told.1⟩
  else ⟨⟨m, .error (.notAlive m.name), [], []⟩, world⟩

/-- A new machine, reset once; nobody observes it yet. -/
def start (tree : Tree S O E) (name id : String) (owner : O) :
    Reply (Observed W S O E) E (Option (Failure S)) :=
  let reply := (Machine.idle tree name id owner).reset
  let warning :=
    match reply.answer with
    | none => []
    | some f =>
      [⟨.warn, "machine created in an inconsistent state",
        reply.machine.tag ++ [("failure", f.text)]⟩]
  ⟨⟨reply.machine, [], 0⟩, reply.answer, reply.trail, reply.lines ++ warning⟩

end Observed

end StateTree
