import Mathlib.Data.List.Forall2
import Mathlib.Data.List.Induction
import StateTree.Proofs.Tree.WellFormed

/-!
Declarations as commands that name states by id. Whether a command is accepted depends on the ids
that are declared so far and on nothing else, and a tree is what the accepted commands say of its
states: no command that was refused, and none about another state, shows in the node of a state.
-/

namespace StateTree

variable {S O E : Type}

def Feature.description? : Feature S O E → Option String
  | description text => some text
  | _ => none

def Feature.entry? : Feature S O E → Option (Action O E)
  | entry a => some a
  | _ => none

def Feature.exit? : Feature S O E → Option (Action O E)
  | exit a => some a
  | _ => none

def Feature.isInitial : Feature S O E → Bool
  | initial => true
  | _ => false

def Feature.isHistory : Feature S O E → Bool
  | history => true
  | _ => false

def Clause.guard? : Clause O E → Option (Guard O E)
  | guard g => some g
  | _ => none

def Clause.action? : Clause O E → Option (Action O E)
  | action a => some a
  | _ => none

def Clause.description? : Clause O E → Option String
  | description text => some text
  | _ => none

/-- The transition that an arrow declares. Of several clauses of one sort the last one counts. -/
def Arrow.draw (source : S) (kind : Kind S) (arrow : Arrow S O E) : Transition S O E where
  source := source
  event := arrow.event
  kind := kind
  guard := (arrow.clauses.filterMap Clause.guard?).getLast?
  action := (arrow.clauses.filterMap Clause.action?).getLast?
  description := (arrow.clauses.filterMap Clause.description?).getLast?

/-- A step of a declaration. Seeking a state changes nothing; it has to be there for what
follows. -/
inductive Command (S O E : Type)
  | seekParent (id : S)
  | seekState (id : S)
  | add (parent id : S)
  | describe (id : S) (feature : Feature S O E)
  | connect (id : S) (arrow : Arrow S O E)

namespace Command

/-- The state that a command is about. -/
def addressee : Command S O E → S
  | seekParent id | seekState id | add id _ | describe id _ | connect id _ => id

def substate? : Command S O E → Option S
  | add _ id => some id
  | _ => none

def feature? : Command S O E → Option (Feature S O E)
  | describe _ feature => some feature
  | _ => none

def arrow? : Command S O E → Option (Arrow S O E)
  | connect _ arrow => some arrow
  | _ => none

/-- The ids that are declared after commands were accepted. -/
def known (root : S) (log : List (Command S O E)) : List S := root :: log.filterMap substate?

variable [DecidableEq S]

/-- Why a command is refused where the ids `ids` are declared. -/
def refusal? (ids : List S) : Command S O E → Option (DeclarationError S)
  | seekParent id => if id ∈ ids then none else some (.unknownParent id)
  | seekState id => if id ∈ ids then none else some (.unknownState id)
  | add _ id => if id ∈ ids then some (.duplicateState id) else none
  | describe _ _ => none
  | connect _ arrow =>
    match arrow.target with
    | none => none
    | some target => if target ∈ ids then none else some (.unknownTarget target)

/-- The commands that are accepted up to the first refusal, and that refusal. -/
def accept (ids : List S) : List (Command S O E) →
    List (Command S O E) × Option (DeclarationError S)
  | [] => ([], none)
  | c :: rest =>
    match c.refusal? ids with
    | some e => ([], some e)
    | none =>
      let later := accept (ids ++ c.substate?.toList) rest
      (c :: later.1, later.2)

/-- The commands of a log that are about one state. -/
def addressed (id : S) (log : List (Command S O E)) : List (Command S O E) :=
  log.filter fun c => c.addressee = id

end Command

/-- The commands that features make from state `id` on. -/
def Feature.commands (id : S) : List (Feature S O E) → List (Command S O E)
  | [] => []
  | .substate new :: rest => .add id new :: commands new rest
  | feature :: rest => .describe id feature :: commands id rest

/-- The state that features end at. -/
def Feature.last (id : S) : List (Feature S O E) → S
  | [] => id
  | .substate new :: rest => last new rest
  | _ :: rest => last id rest

def Chain.commands (id : S) (chain : Chain S O E) : List (Command S O E) :=
  Feature.commands id chain.features ++
    (chain.arrow.map (.connect (Feature.last id chain.features))).toList

/-- Where a chain ends that is accepted. -/
def Chain.ending (id : S) (chain : Chain S O E) : Declared S :=
  match chain.arrow with
  | none => .state (Feature.last id chain.features)
  | some _ => .transition

namespace Declaration

/-- The parent is sought before the new state is added to it. -/
def commands (root : S) : Declaration S O E → List (Command S O E)
  | addToRoot id chain => .add root id :: chain.commands id
  | addTo parent id chain => .seekParent parent :: .add parent id :: chain.commands id
  | inState id chain => .seekState id :: chain.commands id

def ending : Declaration S O E → Declared S
  | addToRoot id chain | addTo _ id chain | inState id chain => chain.ending id

/-- The commands that declarations had accepted. -/
def accepted [DecidableEq S] (root : S) (declarations : List (Declaration S O E)) :
    List (Command S O E) :=
  declarations.foldl
    (fun log d => log ++ (Command.accept (Command.known root log) (d.commands root)).1) []

end Declaration

/-- A node has the flags that were set, and the last description and actions that were given. -/
structure Node.Shows (n : Node S O E) (features : List (Feature S O E)) : Prop where
  description : n.description = (features.filterMap Feature.description?).getLast?
  initial : n.initial = features.any Feature.isInitial
  history : n.history = features.any Feature.isHistory
  entry : n.entry = (features.filterMap Feature.entry?).getLast?
  exit : n.exit = (features.filterMap Feature.exit?).getLast?

/-- What a host is told: the first refusal, or else where the declaration ends. -/
def answer (refusal : Option (DeclarationError S)) (a : α) : Except (DeclarationError S) α :=
  match refusal with
  | some e => .error e
  | none => .ok a

namespace Tree

variable [DecidableEq S]

/-- The change that an accepted command makes. -/
def perform (t : Tree S O E) : Command S O E → Tree S O E
  | .seekParent _ | .seekState _ => t
  | .add parent id =>
    match t.place? parent with
    | some i => t.addNode id i
    | none => t
  | .describe id feature =>
    match t.place? id with
    | some i => t.modify i feature.describe
    | none => t
  | .connect id arrow =>
    match t.place? id, t.kind? arrow.target with
    | some i, .ok kind =>
      t.modify i fun n => { n with transitions := n.transitions ++ [arrow.draw id kind] }
    | _, _ => t

/-- A transition is the one that an arrow declares, and it leads to where its target is. -/
def Draws (t : Tree S O E) (source : S) (arrow : Arrow S O E) (x : Transition S O E) : Prop :=
  t.kind? arrow.target = .ok x.kind ∧ x = arrow.draw source x.kind

/-- A node is what the commands about its state say: substates and transitions in their order, and
of everything else the last word. -/
structure Tells (t : Tree S O E) (n : Node S O E) (told : List (Command S O E)) : Prop where
  substates : n.children.map (fun c => (t.node c).id) = told.filterMap Command.substate?
  transitions : List.Forall₂ (t.Draws n.id) (told.filterMap Command.arrow?) n.transitions
  shows : n.Shows (told.filterMap Command.feature?)

/-- A tree has the states that a log of commands adds, in the order of the log, and each of their
nodes is what the commands about its state say. -/
structure Obeys (t : Tree S O E) (root : S) (log : List (Command S O E)) : Prop where
  ids : t.ids = Command.known root log
  addressed : ∀ c ∈ log, c.addressee ∈ t.ids
  node : ∀ i < t.size, t.Tells (t.node i) (Command.addressed (t.node i).id log)

end Tree

namespace Command

theorem known_append (root : S) (log more : List (Command S O E)) :
    known root (log ++ more) = known root log ++ more.filterMap substate? := by
  rw [known, List.filterMap_append, known, List.cons_append]

variable [DecidableEq S]

theorem accept_append (ids : List S) (first rest : List (Command S O E)) :
    accept ids (first ++ rest) =
      match (accept ids first).2 with
      | some e => ((accept ids first).1, some e)
      | none =>
        let later := accept (ids ++ (accept ids first).1.filterMap substate?) rest
        ((accept ids first).1 ++ later.1, later.2) := by
  induction first generalizing ids with
  | nil => simp [accept]
  | cons c first ih =>
    simp only [List.cons_append, accept]
    cases c.refusal? ids with
    | some e => rfl
    | none =>
      simp only [ih]
      cases (accept (ids ++ c.substate?.toList) first).2 with
      | some e => rfl
      | none =>
        have hids : ids ++ c.substate?.toList ++
            (accept (ids ++ c.substate?.toList) first).1.filterMap substate? =
            ids ++ (c :: (accept (ids ++ c.substate?.toList) first).1).filterMap substate? := by
          rw [List.append_assoc, List.filterMap_cons]
          cases c.substate? <;> rfl
        simp only [hids, List.cons_append]

/-- A refusal is that of one of the commands. -/
theorem refusal_of_accept {commands : List (Command S O E)} {ids : List S}
    {e : DeclarationError S} (h : (accept ids commands).2 = some e) :
    ∃ c ∈ commands, ∃ ids, c.refusal? ids = some e := by
  induction commands generalizing ids with
  | nil => cases h
  | cons c rest ih =>
    simp only [accept] at h
    cases hr : c.refusal? ids with
    | some e' =>
      rw [hr] at h
      cases h
      exact ⟨c, List.mem_cons_self, ids, hr⟩
    | none =>
      rw [hr] at h
      obtain ⟨c', hm, hc'⟩ := ih h
      exact ⟨c', List.mem_cons_of_mem _ hm, hc'⟩

theorem addressed_snoc (id : S) (log : List (Command S O E)) (c : Command S O E) :
    addressed id (log ++ [c]) = if c.addressee = id then addressed id log ++ [c]
      else addressed id log := by
  rw [addressed, List.filter_append, List.filter_cons, List.filter_nil]
  simp only [decide_eq_true_eq]
  split
  · rfl
  · exact List.append_nil _

end Command

/-- Once its first state is found, a chain seeks none. -/
theorem Feature.commands_seek (id : S) (features : List (Feature S O E)) :
    ∀ c ∈ Feature.commands id features, ∀ x, c ≠ .seekParent x ∧ c ≠ .seekState x := by
  induction features generalizing id with
  | nil => nofun
  | cons feature rest ih =>
    cases feature <;>
      exact List.forall_mem_cons.mpr ⟨fun x => ⟨nofun, nofun⟩, ih _⟩

theorem Chain.commands_seek (id : S) (chain : Chain S O E) :
    ∀ c ∈ chain.commands id, ∀ x, c ≠ .seekParent x ∧ c ≠ .seekState x := by
  intro c hc
  rcases List.mem_append.mp hc with hfeatures | harrow
  · exact Feature.commands_seek id chain.features c hfeatures
  · rw [Option.mem_toList, Option.map_eq_some_iff] at harrow
    obtain ⟨arrow, _, rfl⟩ := harrow
    exact fun x => ⟨nofun, nofun⟩

/-- Only a command that seeks a state is refused because there is no such parent or state. -/
theorem Command.seek_of_refusal [DecidableEq S] {c : Command S O E} {ids : List S} {x : S}
    (h : c.refusal? ids = some (.unknownParent x) ∨ c.refusal? ids = some (.unknownState x)) :
    c = .seekParent x ∨ c = .seekState x := by
  cases c with
  | seekParent id => simp_all [refusal?]
  | seekState id => simp_all [refusal?]
  | add parent id => simp [refusal?] at h
  | describe id feature => simp [refusal?] at h
  | connect id arrow =>
    cases ht : arrow.target <;> simp [refusal?, ht] at h

theorem filterMap_snoc (f : α → Option β) (as : List α) (a : α) :
    (as ++ [a]).filterMap f = as.filterMap f ++ (f a).toList := by
  rw [List.filterMap_append]
  cases h : f a <;> simp [h]

/-- The last value that a list of words gives is that of the last word, if it gives one. -/
theorem getLast?_filterMap_snoc (f : α → Option β) (words : List α) (a : α) :
    ((words ++ [a]).filterMap f).getLast? = (f a).or (words.filterMap f).getLast? := by
  rw [filterMap_snoc]
  cases f a <;> simp

theorem clauses_draw (source : S) (kind : Kind S) (arrow : Arrow S O E) :
    arrow.clauses.foldl (fun x clause => clause.apply x)
      ⟨source, arrow.event, kind, none, none, none⟩ = arrow.draw source kind := by
  obtain ⟨event, target, clauses⟩ := arrow
  induction clauses using List.reverseRecOn with
  | nil => rfl
  | append_singleton clauses clause ih =>
    simp only [Arrow.draw] at ih ⊢
    rw [List.foldl_append, ih, List.foldl_cons, List.foldl_nil]
    simp only [getLast?_filterMap_snoc]
    cases clause <;> rfl

theorem Node.Shows.describe {n : Node S O E} {features : List (Feature S O E)}
    (h : n.Shows features) (feature : Feature S O E) :
    (feature.describe n).Shows (features ++ [feature]) := by
  have hany (f : Feature S O E → Bool) :
      (features ++ [feature]).any f = (features.any f || f feature) := by
    rw [List.any_append, List.any_cons, List.any_nil, Bool.or_false]
  constructor
  · rw [getLast?_filterMap_snoc, ← h.description]
    cases feature <;> rfl
  · rw [hany, ← h.initial]
    cases feature <;> simp [Feature.describe, Feature.isInitial]
  · rw [hany, ← h.history]
    cases feature <;> simp [Feature.describe, Feature.isHistory]
  · rw [getLast?_filterMap_snoc, ← h.entry]
    cases feature <;> rfl
  · rw [getLast?_filterMap_snoc, ← h.exit]
    cases feature <;> rfl

namespace Tree

variable [DecidableEq S] {t u : Tree S O E} {root : S} {log : List (Command S O E)}
  {n : Node S O E} {told : List (Command S O E)}

/-- What is told of a node stays true of it in a tree in which its substates keep their ids and the
targets of its transitions their places. -/
theorem Tells.mono (h : t.Tells n told) (hids : ∀ c ∈ n.children, (u.node c).id = (t.node c).id)
    (hkind : ∀ target kind, t.kind? target = .ok kind → u.kind? target = .ok kind) :
    u.Tells n told where
  substates := by rw [← h.substates]; exact List.map_congr_left hids
  transitions := h.transitions.imp fun _ _ hx => ⟨hkind _ _ hx.1, hx.2⟩
  shows := h.shows

theorem tells_fresh (t : Tree S O E) (id : S) (parent : Option Nat) :
    t.Tells (.fresh id parent) [] :=
  ⟨rfl, .nil, ⟨rfl, rfl, rfl, rfl, rfl⟩⟩

theorem Tells.seek (h : t.Tells n told) {c : Command S O E} (hs : c.substate? = none)
    (ha : c.arrow? = none) (hf : c.feature? = none) : t.Tells n (told ++ [c]) := by
  constructor <;> rw [filterMap_snoc]
  · rw [hs]
    exact h.substates.trans (List.append_nil _).symm
  · rw [ha]
    exact (List.append_nil (told.filterMap Command.arrow?)).symm ▸ h.transitions
  · rw [hf]
    exact (List.append_nil (told.filterMap Command.feature?)).symm ▸ h.shows

theorem Tells.describe (h : t.Tells n told) (id : S) (feature : Feature S O E) :
    t.Tells (feature.describe n) (told ++ [Command.describe id feature]) := by
  constructor <;> rw [filterMap_snoc]
  · refine Eq.trans ?_ (h.substates.trans (List.append_nil _).symm)
    cases feature <;> rfl
  · refine (List.append_nil (told.filterMap Command.arrow?)).symm ▸ ?_
    cases feature <;> exact h.transitions
  · exact h.shows.describe feature

theorem Tells.connect (h : t.Tells n told) {arrow : Arrow S O E} {kind : Kind S}
    (hkind : t.kind? arrow.target = .ok kind) :
    t.Tells { n with transitions := n.transitions ++ [arrow.draw n.id kind] }
      (told ++ [Command.connect n.id arrow]) := by
  have hdraws : t.Draws n.id arrow (arrow.draw n.id kind) := ⟨hkind, rfl⟩
  obtain ⟨hd, hi, hh, hn, hx⟩ := h.shows
  constructor <;> rw [filterMap_snoc]
  · exact h.substates.trans (List.append_nil _).symm
  · exact List.rel_append h.transitions (.cons hdraws .nil)
  · exact (List.append_nil (told.filterMap Command.feature?)).symm ▸ ⟨hd, hi, hh, hn, hx⟩

theorem Tells.add (h : t.Tells n told) (c : Nat) :
    t.Tells { n with children := n.children ++ [c] }
      (told ++ [Command.add n.id (t.node c).id]) := by
  obtain ⟨hd, hi, hh, hn, hx⟩ := h.shows
  constructor <;> rw [filterMap_snoc]
  · rw [← h.substates, List.map_append]
    rfl
  · exact (List.append_nil (told.filterMap Command.arrow?)).symm ▸ h.transitions
  · exact (List.append_nil (told.filterMap Command.feature?)).symm ▸ ⟨hd, hi, hh, hn, hx⟩

end Tree

end StateTree
