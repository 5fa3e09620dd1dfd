import StateTree.Step.Work

/-!
Which transition an event takes. Candidates are the transitions of the active states whose event is
of the same kind, innermost state first and in the order of declaration; the first one that has no
guard, or whose guard holds, is taken. A guard that fails ends the search.
-/

namespace StateTree

variable {S O E : Type}

structure Candidate (S O E : Type) where
  state : Nat
  position : Nat
  transition : Transition S O E

namespace Tree

variable [EventKind E]

/-- The candidates that one state offers. -/
def offers (t : Tree S O E) (event : E) (i : Nat) : List (Candidate S O E) :=
  ((t.node i).transitions.zipIdx.filter fun x => EventKind.same x.1.event event).map
    fun x => ⟨i, x.2, x.1⟩

def candidates (t : Tree S O E) (active : List Nat) (event : E) : List (Candidate S O E) :=
  active.flatMap (t.offers event)

end Tree

/-- The first candidate that may be taken. -/
def Work.choose (t : Tree S O E) (event : E) :
    List (Candidate S O E) → Work O E →
      Work O E × Except (Failure S) (Option (Candidate S O E))
  | [], w => (w, .ok none)
  | c :: rest, w =>
    match c.transition.guard with
    | none => (w, .ok (some c))
    | some g =>
      let call := g.check w.owner event
      let w := w.called call.2 (.guard c.state c.position) (some event)
      match call.1.settle with
      | .ok true => (w, .ok (some c))
      | .ok false => choose t event rest w
      | .error e => (w, .error ⟨.guard, (t.node c.state).id, e⟩)

end StateTree
