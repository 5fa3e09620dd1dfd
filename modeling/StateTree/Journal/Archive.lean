import StateTree.Journal
import StateTree.Json.Reader
import StateTree.Time.Reading

/-!
Journals as JSON documents. Each part is written under its name; on reading, the names may stand in
any order, unknown ones are skipped, and the bare list of the parts is accepted too.
-/

namespace StateTree

variable {S : Type}

def Entry.toJson (text : S → String) (e : Entry S) : Json :=
  .object
    [("event", .text e.event),
      ("source", .text (text e.move.source)),
      ("target", .text (text e.move.target)),
      ("from", .text (text e.move.before)),
      ("to", .text (text e.move.after)),
      ("timestamp", .text e.time.text)]

/-- The parts of a document under the given names: each of them exactly once. -/
def Json.parts? (names : List String) : Json → Option (List Json)
  | .object fields =>
    names.mapM fun name =>
      match fields.filter fun field => field.1 = name with
      | [field] => some field.2
      | _ => none
  | .array items => if items.length = names.length then some items else none
  | _ => none

def Json.asText? : Json → Option String
  | .text s => some s
  | _ => none

def Entry.ofJson? (state? : String → Option S) (j : Json) : Option (Entry S) := do
  let parts ← j.parts? ["event", "source", "target", "from", "to", "timestamp"]
  match ← parts.mapM Json.asText? with
  | [event, source, target, before, after, time] =>
    return ⟨event, ⟨← state? source, ← state? target, ← state? before, ← state? after⟩,
      ← Instant.read? time⟩
  | _ => none

namespace Journal

def toJson (text : S → String) (j : Journal S) : Json :=
  .object [("records", .array (j.entries.map (Entry.toJson text)))]

def ofJson? (state? : String → Option S) (j : Json) : Option (Journal S) := do
  match ← j.parts? ["records"] with
  | [.array items] => return ⟨← items.mapM (Entry.ofJson? state?)⟩
  | _ => none

def save (text : S → String) (j : Journal S) : String := (j.toJson text).render .compact

def load? (state? : String → Option S) (text : String) : Option (Journal S) := do
  ofJson? state? (← Json.read? text)

end Journal

end StateTree
