import StateTree.History
import StateTree.Reaction
import StateTree.Step.Trail

/-!
A step under way. Nothing is rolled back: where host code fails, the work stops with all that was
done before.
-/

namespace StateTree

variable {S O E : Type}

/-- What a step may change. The active chain lists the innermost state first. -/
structure Configuration (O : Type) where
  owner : O
  active : List Nat
  history : History

structure Work (O E : Type) extends Configuration O where
  trail : List (Mark E)

/-- Work that goes on, or that a failure has stopped. -/
inductive Progress (S O E : Type)
  | going (work : Work O E)
  | stopped (work : Work O E) (failure : Failure S)

namespace Progress

def work : Progress S O E → Work O E
  | going w | stopped w _ => w

def failure? : Progress S O E → Option (Failure S)
  | going _ => none
  | stopped _ f => some f

def andThen : Progress S O E → (Work O E → Progress S O E) → Progress S O E
  | going w, next => next w
  | stopped w f, _ => stopped w f

end Progress

namespace Work

def start (c : Configuration O) : Work O E := ⟨c, []⟩

def note (w : Work O E) (mark : Mark E) : Work O E := { w with trail := w.trail ++ [mark] }

/-- The work after a call of host code that left `owner`. -/
def called (w : Work O E) (owner : O) (site : Site) (event : Option E) : Work O E :=
  { w with owner := owner, trail := w.trail ++ [.called site event] }

/-- The innermost active state; the root where none is active. -/
def innermost (w : Work O E) : Nat := w.active.head?.getD 0

/-- Runs an action if there is one. Its changes to the owner stay also where it fails. -/
def run (w : Work O E) (action : Option (Action O E)) (event : Option E) (site : Site)
    (phase : Phase) (state : S) : Progress S O E :=
  match action with
  | none => .going w
  | some a =>
    let call := a.run w.owner event
    let w := w.called call.2 site event
    match call.1.settle with
    | .ok () => .going w
    | .error e => .stopped w ⟨phase, state, e⟩

end Work

end StateTree
