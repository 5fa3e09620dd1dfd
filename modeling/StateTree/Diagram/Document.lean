import StateTree.Json
import StateTree.Tree.Outline

/-!
The tree as a JSON document. Guards and actions are shown by their descriptions; one without a
description counts as described by the empty text, so that it shows at all.
-/

namespace StateTree.Document

variable {S O E : Type} [StateId S] [EventKind E]

/-- A field that is left out where there is nothing to say. -/
def field? (key : String) (value : Option String) : List (String × Json) :=
  match value with
  | none => []
  | some text => [(key, .text text)]

def items? (key : String) (items : List Json) : List (String × Json) :=
  if items.isEmpty then [] else [(key, .array items)]

def guardText (g : Guard O E) : String := g.description.getD ""

def actionText (a : Action O E) : String := a.description.getD ""

def ofTransition (x : Transition S O E) : Json :=
  .object
    ([("event", .text (EventKind.text x.event))] ++
      field? "target" (x.target?.map StateId.name) ++
      [("local", .bool x.isLocal)] ++
      field? "guard" (x.guard.map guardText) ++
      field? "action" (x.action.map actionText) ++
      field? "description" x.description)

/-- The fields of a state but for its substates. -/
def stateFields (s : State S O E) : List (String × Json) :=
  [("id", .text s.name)] ++
    field? "description" s.node.description ++
    [("initial", .bool s.node.initial), ("history", .bool s.node.history)] ++
    field? "entry" (s.node.entry.map actionText) ++
    field? "exit" (s.node.exit.map actionText) ++
    items? "transitions" (s.node.transitions.map ofTransition)

mutual

def ofOutline : Outline (List (String × Json)) → Json
  | .node fields parts => .object (fields ++ items? "substates" (ofOutlines parts))

def ofOutlines : List (Outline (List (String × Json))) → List Json
  | [] => []
  | part :: parts => ofOutline part :: ofOutlines parts

end

def ofTree (name : String) (t : Tree S O E) : Json :=
  .object [("name", .text name), ("root", ofOutline (t.outline stateFields))]

def render (layout : Json.Layout) (name : String) (t : Tree S O E) : String :=
  (ofTree name t).render layout

end StateTree.Document
