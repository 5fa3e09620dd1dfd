import StateTree.Tree.View

/-!
The rules that a finished tree is checked against. An id labels one node, a state has at most one
initial substate, and a target with substates has exactly one.
-/

namespace StateTree

variable {S O E : Type}

inductive Violation (S : Type)
  | duplicateId (state : S) (count : Nat)
  | severalInitials (state : S) (initials : List S)
  | targetInitials (state : S) (initials : List S)
  deriving DecidableEq

namespace Violation

def state : Violation S → S
  | duplicateId state _ | severalInitials state _ | targetInitials state _ => state

def kind : Violation S → String
  | duplicateId .. => "DuplicateStateId"
  | severalInitials .. => "MultipleInitialStates"
  | targetInitials .. => "TargetWithoutInitialState"

variable [StateId S]

def message : Violation S → String
  | duplicateId state count =>
    "State " ++ StateId.label state ++ " labels " ++ toString count ++
      " nodes; a state id must be used once"
  | severalInitials state initials =>
    "State " ++ StateId.label state ++ " has several initial substates: " ++
      Text.list (initials.map StateId.label)
  | targetInitials state initials =>
    "State " ++ StateId.label state ++ " is a transition target with substates but declares " ++
      Text.list (initials.map StateId.label) ++ " as initial substates; exactly one is required"

def inspect (v : Violation S) : String :=
  Text.record v.kind <| ("state", StateId.label v.state) ::
    match v with
    | duplicateId _ count => [("count", toString count)]
    | severalInitials _ initials | targetInitials _ initials =>
      [("initials", Text.list (initials.map StateId.label))]

end Violation

/-- The list without later occurrences of what it holds already. -/
def firsts [DecidableEq α] (as : List α) : List α :=
  as.foldl (fun seen a => if a ∈ seen then seen else seen ++ [a]) []

namespace Tree

def ids (t : Tree S O E) : List S := t.nodes.toList.map Node.id

def initialIds (t : Tree S O E) (i : Nat) : List S :=
  (t.initials i).map fun c => (t.node c).id

/-- The places that transitions lead to, in the order in which they are first named. -/
def targets (t : Tree S O E) : List Nat :=
  firsts (t.nodes.toList.flatMap fun n => n.transitions.filterMap fun x => x.kind.index?)

/-- Ids that label several nodes, in the order of their first nodes. -/
def repeatedIds [DecidableEq S] (t : Tree S O E) : List (Violation S) :=
  (firsts t.ids).filterMap fun id =>
    let count := t.ids.countP (· = id)
    if 1 < count then some (.duplicateId id count) else none

/-- Nodes with more than one initial substate, in their order in the table. -/
def rivalInitials (t : Tree S O E) : List (Violation S) :=
  (List.range t.size).filterMap fun i =>
    let initials := t.initialIds i
    if 1 < initials.length then some (.severalInitials (t.node i).id initials) else none

/-- Targets with substates of which not exactly one is initial. -/
def unclearTargets (t : Tree S O E) : List (Violation S) :=
  (t.targets.filter fun i => (t.node i).isComposite).filterMap fun i =>
    let initials := t.initialIds i
    if initials.length ≠ 1 then some (.targetInitials (t.node i).id initials) else none

def rules [DecidableEq S] : List (Tree S O E → List (Violation S)) :=
  [repeatedIds, rivalInitials, unclearTargets]

/-- All violations, rule after rule. -/
def check [DecidableEq S] (t : Tree S O E) : List (Violation S) := rules.flatMap fun rule => rule t

/-- A tree is valid or fails with at least one violation. -/
def validate [DecidableEq S] (t : Tree S O E) :
    Except { vs : List (Violation S) // vs ≠ [] } Unit :=
  if h : t.check = [] then .ok () else .error ⟨t.check, h⟩

end Tree

end StateTree
