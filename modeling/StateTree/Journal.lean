import StateTree.Reaction
import StateTree.Time.Instant

/-!
A journal of the transitions that a machine took.
-/

namespace StateTree

variable {S : Type}

structure Entry (S : Type) where
  event : String
  move : Move S
  time : Instant
  deriving DecidableEq

def Entry.inspect [StateId S] (e : Entry S) : String :=
  Text.record "TransitionRecord"
    (("event", Text.quoted e.event) :: e.move.fields ++ [("timestamp", e.time.text)])

/-- Entries, oldest first. -/
structure Journal (S : Type) where
  entries : List (Entry S) := []
  deriving DecidableEq

namespace Journal

def add (j : Journal S) (e : Entry S) : Journal S := ⟨j.entries ++ [e]⟩

def size (j : Journal S) : Nat := j.entries.length

def isEmpty (j : Journal S) : Bool := j.entries.isEmpty

/-- The current states that the machine went through. -/
def path (j : Journal S) : List S :=
  (j.entries.head?.map fun e => e.move.before).toList ++ j.entries.map fun e => e.move.after

/-- Nanoseconds from the first entry to the last one, unless the clock went backwards. -/
def duration? (j : Journal S) : Option Nat := do
  let first ← j.entries.head?
  let last ← j.entries.getLast?
  let nanos := first.time.elapsed last.time
  if 0 ≤ nanos then some nanos.toNat else none

end Journal

end StateTree
