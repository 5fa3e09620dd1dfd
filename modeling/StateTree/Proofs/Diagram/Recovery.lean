import StateTree.Diagram.Document
import StateTree.Proofs.Json.Reading
import StateTree.Proofs.Tree.Outline

/-!
What a JSON document tells of the tree it was made of. Fields are looked up by their keys, those
that are left out mean that there is nothing to say, and so the document gives the whole tree back
but for what only the host can run.
-/

namespace StateTree.Document

/-- What a document tells of a transition. A guard or an action without a description counts as
described by the empty text. -/
structure Leg where
  event : String
  target : Option String
  isLocal : Bool
  guard : Option String
  action : Option String
  description : Option String
  deriving DecidableEq

/-- What a document tells of a state but for its substates. -/
structure Sheet where
  name : String
  description : Option String
  initial : Bool
  history : Bool
  entry : Option String
  exit : Option String
  legs : List Leg
  deriving DecidableEq

variable {S O E : Type} [StateId S] [EventKind E]

/-- A transition is local where it has no target. -/
def leg (x : Transition S O E) : Leg where
  event := EventKind.text x.event
  target := x.target?.map StateId.name
  isLocal := x.target?.isNone
  guard := x.guard.map fun g => g.description.getD ""
  action := x.action.map fun a => a.description.getD ""
  description := x.description

def sheet (s : State S O E) : Sheet where
  name := s.name
  description := s.node.description
  initial := s.node.initial
  history := s.node.history
  entry := s.node.entry.map fun a => a.description.getD ""
  exit := s.node.exit.map fun a => a.description.getD ""
  legs := s.node.transitions.map leg

/-! Reading what is found under a key. -/

def text? : Option Json → Option String
  | some (.text s) => some s
  | _ => none

def flag? : Option Json → Option Bool
  | some (.bool b) => some b
  | _ => none

/-- A text that may be left out. -/
def optional? : Option Json → Option (Option String)
  | none => some none
  | some (.text s) => some (some s)
  | some _ => none

/-- A list that is left out if it is empty. -/
def array? : Option Json → Option (List Json)
  | none => some []
  | some (.array items) => some items
  | some _ => none

def leg? : Json → Option Leg
  | .object fields => do
    let event ← text? (fields.lookup "event")
    let target ← optional? (fields.lookup "target")
    let isLocal ← flag? (fields.lookup "local")
    let guard ← optional? (fields.lookup "guard")
    let action ← optional? (fields.lookup "action")
    let description ← optional? (fields.lookup "description")
    return ⟨event, target, isLocal, guard, action, description⟩
  | _ => none

def sheet? (fields : List (String × Json)) : Option Sheet := do
  let name ← text? (fields.lookup "id")
  let description ← optional? (fields.lookup "description")
  let initial ← flag? (fields.lookup "initial")
  let history ← flag? (fields.lookup "history")
  let entry ← optional? (fields.lookup "entry")
  let exit ← optional? (fields.lookup "exit")
  let transitions ← array? (fields.lookup "transitions")
  let legs ← transitions.mapM leg?
  return ⟨name, description, initial, history, entry, exit, legs⟩

mutual

def outline? : Json → Option (Outline Sheet)
  | .object fields => do
    let sheet ← sheet? fields
    let parts ← parts? fields
    return .node sheet parts
  | _ => none

/-- The outlines below the key of the substates, if it is there. -/
def parts? : List (String × Json) → Option (List (Outline Sheet))
  | [] => some []
  | (key, value) :: fields => if key = "substates" then listed? value else parts? fields

def listed? : Json → Option (List (Outline Sheet))
  | .array items => outlines? items
  | _ => none

def outlines? : List Json → Option (List (Outline Sheet))
  | [] => some []
  | item :: items => do
    let o ← outline? item
    let rest ← outlines? items
    return o :: rest

end

/-- The name of a machine and the outline of its states. -/
def machine? : Json → Option (String × Outline Sheet)
  | .object fields => do
    let name ← text? (fields.lookup "name")
    let root ← fields.lookup "root"
    let states ← outline? root
    return (name, states)
  | _ => none

theorem lookup_key (key k : String) (value : Json) (fields : List (String × Json)) :
    ((key, value) :: fields).lookup k = if k = key then some value else fields.lookup k := by
  by_cases h : k = key
  · simp [h]
  · simp [List.lookup_cons, h, beq_false_of_ne h]

theorem lookup_field (key k : String) (value : Option String) :
    (field? key value).lookup k = if k = key then value.map .text else none := by
  cases value with
  | none => simp [field?]
  | some text => rw [field?, lookup_key, Option.map_some, List.lookup_nil]

theorem lookup_items (key k : String) (items : List Json) :
    (items? key items).lookup k =
      if k = key then (if items.isEmpty then none else some (.array items)) else none := by
  rw [items?]
  split
  · simp
  · rw [lookup_key, List.lookup_nil]

theorem optional_text (value : Option String) : optional? (value.map .text) = some value := by
  cases value <;> rfl

theorem array_items (items : List Json) :
    array? (if items.isEmpty then none else some (.array items)) = some items := by
  cases items <;> rfl

theorem leg_ofTransition (x : Transition S O E) : leg? (ofTransition x) = some (leg x) := by
  simp only [leg?, ofTransition, List.lookup_append, lookup_field, lookup_key, List.lookup_nil]
  simp [text?, flag?, optional_text, -Option.map_map]
  rfl

theorem legs_ofTransition (transitions : List (Transition S O E)) :
    (transitions.map ofTransition).mapM leg? = some (transitions.map leg) := by
  induction transitions with
  | nil => rfl
  | cons x rest ih => simp [leg_ofTransition, ih]

theorem sheet_stateFields (s : State S O E) (parts : List Json) :
    sheet? (stateFields s ++ items? "substates" parts) = some (sheet s) := by
  have hlegs := legs_ofTransition s.node.transitions
  simp only [sheet?, stateFields, List.lookup_append, lookup_field, lookup_items, lookup_key,
    List.lookup_nil]
  -- from here on it does not matter what the transitions are
  generalize s.node.transitions.map ofTransition = items at hlegs
  simp only [String.reduceEq, if_true, if_false, Option.or_none, Option.none_or, text?, flag?,
    optional_text, array_items, hlegs, Option.bind_eq_bind, Option.bind_some]
  rfl

theorem parts_append {fields : List (String × Json)} (h : fields.lookup "substates" = none)
    (more : List (String × Json)) : parts? (fields ++ more) = parts? more := by
  induction fields with
  | nil => rfl
  | cons field fields ih =>
    obtain ⟨key, value⟩ := field
    rw [lookup_key] at h
    split at h
    · cases h
    · next hne => rw [List.cons_append, parts?, if_neg (Ne.symm hne), ih h]

theorem parts_stateFields (s : State S O E) (parts : List Json) :
    parts? (stateFields s ++ items? "substates" parts) = outlines? parts := by
  have hnone : (stateFields s).lookup "substates" = none := by
    simp [stateFields, List.lookup_append, lookup_field, lookup_items, lookup_key]
  rw [parts_append hnone]
  cases parts <;> rfl

theorem outlines_map {l : List α} {write : α → Json} {view : α → Outline Sheet}
    (h : ∀ a ∈ l, outline? (write a) = some (view a)) :
    outlines? (l.map write) = some (l.map view) := by
  induction l with
  | nil => rfl
  | cons a l ih =>
    obtain ⟨ha, hl⟩ := List.forall_mem_cons.mp h
    rw [List.map_cons, outlines?, ha, ih hl]
    rfl

theorem ofOutlines_eq (parts : List (Outline (List (String × Json)))) :
    ofOutlines parts = parts.map ofOutline := by
  induction parts with
  | nil => rfl
  | cons part parts ih => rw [ofOutlines, ih, List.map_cons]

theorem ofOutline_outlineAt {t : Tree S O E} (ht : t.Linked) {i : Nat} (hi : i < t.size) :
    ofOutline (t.outlineAt stateFields i) =
      .object (stateFields ⟨t, i⟩ ++ items? "substates"
        ((t.node i).children.map fun c => ofOutline (t.outlineAt stateFields c))) := by
  rw [Tree.outlineAt_eq ht stateFields hi, ofOutline, ofOutlines_eq, List.map_map]
  rfl

theorem outline_ofOutline {t : Tree S O E} (ht : t.Linked) {i : Nat} (hi : i < t.size) :
    outline? (ofOutline (t.outlineAt stateFields i)) = some (t.outlineAt sheet i) := by
  refine Tree.upward ht
    (P := fun i => outline? (ofOutline (t.outlineAt stateFields i)) = some (t.outlineAt sheet i))
    ?_ hi
  intro i hi ih
  rw [ofOutline_outlineAt ht hi, outline?, sheet_stateFields, parts_stateFields, outlines_map ih,
    Tree.outlineAt_eq ht sheet hi]
  rfl

theorem machine_ofTree (name : String) {t : Tree S O E} (ht : t.Linked) :
    machine? (ofTree name t) = some (name, t.outline sheet) := by
  have hroot : outline? (ofOutline (t.outline stateFields)) = some (t.outline sheet) :=
    outline_ofOutline ht t.size_pos
  simp [machine?, ofTree, lookup_key, text?, hroot]

/-! No number is in the document of a tree. -/

theorem allBasic_eq (items : List Json) : Json.allBasic items = items.all Json.isBasic := by
  induction items with
  | nil => rfl
  | cons item items ih => rw [Json.allBasic, ih, List.all_cons]

theorem allFieldsBasic_append (xs ys : List (String × Json)) :
    Json.allFieldsBasic (xs ++ ys) = (Json.allFieldsBasic xs && Json.allFieldsBasic ys) := by
  induction xs with
  | nil => rfl
  | cons x xs ih =>
    rw [List.cons_append, Json.allFieldsBasic, ih, Json.allFieldsBasic, Bool.and_assoc]

theorem field_basic (key : String) (value : Option String) :
    Json.allFieldsBasic (field? key value) = true := by
  cases value <;> rfl

theorem items_basic (key : String) {items : List Json} (h : ∀ j ∈ items, j.isBasic = true) :
    Json.allFieldsBasic (items? key items) = true := by
  have hall : Json.allBasic items = true := by rw [allBasic_eq, List.all_eq_true]; exact h
  rw [items?]
  split
  · rfl
  · rw [Json.allFieldsBasic, Json.isBasic, hall]
    rfl

theorem transition_basic (x : Transition S O E) : (ofTransition x).isBasic = true := by
  simp [ofTransition, Json.isBasic, Json.allFieldsBasic, allFieldsBasic_append, field_basic]

theorem fields_basic (s : State S O E) : Json.allFieldsBasic (stateFields s) = true := by
  have hlegs : Json.allFieldsBasic
      (items? "transitions" (s.node.transitions.map ofTransition)) = true :=
    items_basic _ (List.forall_mem_map.mpr fun x _ => transition_basic x)
  simp [stateFields, Json.isBasic, Json.allFieldsBasic, allFieldsBasic_append, field_basic, hlegs]

theorem outline_basic {t : Tree S O E} (ht : t.Linked) {i : Nat} (hi : i < t.size) :
    (ofOutline (t.outlineAt stateFields i)).isBasic = true := by
  refine Tree.upward ht (P := fun i => (ofOutline (t.outlineAt stateFields i)).isBasic = true)
    ?_ hi
  intro i hi ih
  rw [ofOutline_outlineAt ht hi, Json.isBasic, allFieldsBasic_append, fields_basic,
    items_basic "substates" (List.forall_mem_map.mpr ih)]
  rfl

theorem ofTree_basic (name : String) {t : Tree S O E} (ht : t.Linked) :
    (ofTree name t).isBasic = true := by
  have hroot : (ofOutline (t.outline stateFields)).isBasic = true := outline_basic ht t.size_pos
  simp [ofTree, Json.isBasic, Json.allFieldsBasic, hroot]

/-- Both layouts of the document of a tree that declarations make are read as one and the same
document, and it gives back the name and the nested states with all that a sheet tells of them. -/
theorem document_recovers [DecidableEq S] (root : S) (declarations : List (Declaration S O E))
    (name : String) :
    let t := Tree.build root declarations
    ∃ j, Json.read? (render .compact name t) = some j ∧
      Json.read? (render .pretty name t) = some j ∧
      machine? j = some (name, t.outline sheet) ∧ t.Shows sheet 0 (t.outline sheet) := by
  intro t
  have ht : t.Linked := (Tree.build_sound root declarations).toLinked
  have hbasic := ofTree_basic name ht
  exact ⟨ofTree name t, Json.read_render Json.compact_blank hbasic,
    Json.read_render Json.pretty_blank hbasic, machine_ofTree name ht,
    Tree.outlineAt_shows ht sheet t.size_pos⟩

end StateTree.Document
