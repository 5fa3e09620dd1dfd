import StateTree.Tree.Basic

/-!
Trees grow by declarations. A declaration names a state, adding it or not, and goes on with a chain
of features and perhaps a transition out of the state reached. A chain stops at its first error and
keeps what it did before.
-/

namespace StateTree

variable {S O E : Type}

inductive DeclarationError (S : Type)
  | duplicateState (id : S)
  | unknownParent (id : S)
  | unknownTarget (id : S)
  | unknownState (id : S)
  deriving DecidableEq

namespace DeclarationError

def state : DeclarationError S → S
  | duplicateState id | unknownParent id | unknownTarget id | unknownState id => id

def message [StateId S] : DeclarationError S → String
  | duplicateState id => "State " ++ StateId.label id ++ " is already declared in this definition"
  | unknownParent id =>
    "Parent state " ++ StateId.label id ++ " is not declared. Declare it before adding substates"
  | unknownTarget id =>
    "Transition target " ++ StateId.label id ++ " is not declared. Declare it before targeting it"
  | unknownState id => "State " ++ StateId.label id ++ " is not declared"

def kind : DeclarationError S → String
  | duplicateState _ => "DuplicateState"
  | unknownParent _ => "UnknownParent"
  | unknownTarget _ => "UnknownTarget"
  | unknownState _ => "UnknownState"

def inspect [StateId S] (e : DeclarationError S) : String :=
  Text.applied e.kind (StateId.label e.state)

end DeclarationError

/-- A part of a transition; of two parts of one sort the later counts. -/
inductive Clause (O E : Type)
  | guard (g : Guard O E)
  | action (a : Action O E)
  | description (text : String)

def Clause.apply : Clause O E → Transition S O E → Transition S O E
  | guard g, x => { x with guard := some g }
  | action a, x => { x with action := some a }
  | description text, x => { x with description := some text }

/-- A transition out of a state. One without a target stays. -/
structure Arrow (S O E : Type) where
  event : E
  target : Option S
  clauses : List (Clause O E)

/-- A step of a chain. `substate` goes on with the new state; the others describe the present
one. -/
inductive Feature (S O E : Type)
  | substate (id : S)
  | description (text : String)
  | initial
  | history
  | entry (a : Action O E)
  | exit (a : Action O E)

structure Chain (S O E : Type) where
  features : List (Feature S O E)
  arrow : Option (Arrow S O E)

inductive Declaration (S O E : Type)
  | addToRoot (id : S) (chain : Chain S O E)
  | addTo (parent id : S) (chain : Chain S O E)
  | inState (id : S) (chain : Chain S O E)

/-- Where an accepted declaration ends. -/
inductive Declared (S : Type)
  | state (id : S)
  | transition
  deriving DecidableEq

/-- The change that a feature makes to the node it describes. -/
def Feature.describe : Feature S O E → Node S O E → Node S O E
  | substate _, n => n
  | description text, n => { n with description := some text }
  | initial, n => { n with initial := true }
  | history, n => { n with history := true }
  | entry a, n => { n with entry := some a }
  | exit a, n => { n with exit := some a }

namespace Tree

variable [DecidableEq S]

/-- A new state below place `parent`, with its place. -/
def add (t : Tree S O E) (parent : Nat) (id : S) :
    Tree S O E × Except (DeclarationError S) Nat :=
  if t.contains id then (t, .error (.duplicateState id)) else (t.addNode id parent, .ok t.size)

/-- Features in turn, with the place that the last one describes. -/
def refine (t : Tree S O E) (i : Nat) :
    List (Feature S O E) → Tree S O E × Except (DeclarationError S) Nat
  | [] => (t, .ok i)
  | .substate id :: rest =>
    let added := t.add i id
    match added.2 with
    | .ok i => added.1.refine i rest
    | .error e => (added.1, .error e)
  | feature :: rest => (t.modify i feature.describe).refine i rest

/-- The kind of a transition to `target`, which has to be declared. -/
def kind? (t : Tree S O E) : Option S → Except (DeclarationError S) (Kind S)
  | none => .ok .stays
  | some target =>
    match t.place? target with
    | some index => .ok (.moves target index)
    | none => .error (.unknownTarget target)

/-- A transition out of place `i`, after those declared there. -/
def connect (t : Tree S O E) (i : Nat) (arrow : Arrow S O E) :
    Tree S O E × Except (DeclarationError S) (Declared S) :=
  match t.kind? arrow.target with
  | .error e => (t, .error e)
  | .ok kind =>
    let fresh : Transition S O E := ⟨(t.node i).id, arrow.event, kind, none, none, none⟩
    let made := arrow.clauses.foldl (fun x clause => clause.apply x) fresh
    (t.modify i fun n => { n with transitions := n.transitions ++ [made] }, .ok .transition)

/-- A whole chain from place `i` on. -/
def extend (t : Tree S O E) (i : Nat) (chain : Chain S O E) :
    Tree S O E × Except (DeclarationError S) (Declared S) :=
  let refined := t.refine i chain.features
  match refined.2 with
  | .error e => (refined.1, .error e)
  | .ok i =>
    match chain.arrow with
    | none => (refined.1, .ok (.state (refined.1.node i).id))
    | some arrow => refined.1.connect i arrow

/-- An unknown parent is noticed before a duplicate. -/
def declare (t : Tree S O E) :
    Declaration S O E → Tree S O E × Except (DeclarationError S) (Declared S)
  | .addToRoot id chain => t.extend 0 { chain with features := .substate id :: chain.features }
  | .addTo parent id chain =>
    match t.place? parent with
    | none => (t, .error (.unknownParent parent))
    | some i => t.extend i { chain with features := .substate id :: chain.features }
  | .inState id chain =>
    match t.place? id with
    | none => (t, .error (.unknownState id))
    | some i => t.extend i chain

/-- The tree that a list of declarations leaves, accepted or not. -/
def build (root : S) (declarations : List (Declaration S O E)) : Tree S O E :=
  declarations.foldl (fun t d => (t.declare d).1) (single root)

end Tree

end StateTree
