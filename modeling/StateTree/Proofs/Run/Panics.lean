import Mathlib.Data.Option.Basic
import StateTree.Proofs.Run.Notices
import StateTree.Proofs.Run.Renaming

/-!
Panics of host code. A panic is the same as the error that reports it: a host that returns errors
where another one panics gets the same answers, observers are called the same, and a machine is left
the same.
-/

namespace StateTree

variable {W S O E : Type}

/-- The same ending, with the error of a panic in its place. -/
def Ending.report : Ending α → Ending α
  | panic (some text) => error ⟨"panicked: " ++ text⟩
  | panic none => error ⟨"panicked"⟩
  | ending => ending

theorem Ending.settle_report (ending : Ending α) : ending.report.settle = ending.settle := by
  match ending with
  | .value _ => rfl
  | .error _ => rfl
  | .panic (some _) => rfl
  | .panic none => rfl

theorem Ending.report_ne_panic (ending : Ending α) (payload : Option String) :
    ending.report ≠ .panic payload := by
  match ending with
  | .value _ => nofun
  | .error _ => nofun
  | .panic (some _) => nofun
  | .panic none => nofun

/-- The guard `g'` is `g`, but where `g` panics it may return the error instead. -/
def Guard.Reported (g g' : Guard O E) : Prop :=
  ∀ owner event,
    let call := g.check owner event
    let call' := g'.check owner event
    (call'.1 = call.1 ∨ call'.1 = call.1.report) ∧ call'.2 = call.2

def Action.Reported (a a' : Action O E) : Prop :=
  ∀ owner event,
    let call := a.run owner event
    let call' := a'.run owner event
    (call'.1 = call.1 ∨ call'.1 = call.1.report) ∧ call'.2 = call.2

theorem Guard.Reported.settled {g g' : Guard O E} (h : g.Reported g') :
    g'.settled = g.settled := by
  funext owner event
  obtain ⟨hending | hending, howner⟩ := h owner event
  · simp only [Guard.settled, hending, howner]
  · simp only [Guard.settled, hending, howner, Ending.settle_report]

theorem Action.Reported.settled {a a' : Action O E} (h : a.Reported a') :
    a'.settled = a.settled := by
  funext owner event
  obtain ⟨hending | hending, howner⟩ := h owner event
  · simp only [Action.settled, hending, howner]
  · simp only [Action.settled, hending, howner, Ending.settle_report]

structure Transition.Reported (x y : Transition S O E) : Prop where
  event : y.event = x.event
  kind : y.kind = x.kind
  guard : Option.Rel Guard.Reported x.guard y.guard
  action : Option.Rel Action.Reported x.action y.action

structure Node.Reported (n m : Node S O E) : Prop where
  id : m.id = n.id
  parent : m.parent = n.parent
  children : m.children = n.children
  initial : m.initial = n.initial
  history : m.history = n.history
  entry : Option.Rel Action.Reported n.entry m.entry
  exit : Option.Rel Action.Reported n.exit m.exit
  transitions : List.Forall₂ Transition.Reported n.transitions m.transitions

/-- The tree `u` is `t`, but where host code of `t` panics, that of `u` may return the error. -/
structure Tree.Reported (t u : Tree S O E) : Prop where
  size : u.size = t.size
  node : ∀ i, (t.node i).Reported (u.node i)

theorem map_eq_of_rel {r : α → α → Prop} {f : α → β} (hf : ∀ {a b}, r a b → f b = f a)
    {a b : Option α} (h : Option.Rel r a b) : b.map f = a.map f := by
  cases h with
  | none => rfl
  | some h => exact congrArg some (hf h)

namespace Tree

theorem Reported.transition_renamed {x y : Transition S O E} (h : x.Reported y) :
    x.Renamed id y where
  event := h.event
  kind := by
    rw [h.kind]
    cases x.kind <;> rfl
  guard := map_eq_of_rel Guard.Reported.settled h.guard
  action := map_eq_of_rel Action.Reported.settled h.action

theorem Reported.node_renamed {n m : Node S O E} (h : n.Reported m) : n.Renamed id m where
  id := h.id
  parent := by rw [h.parent, Option.map_id, id]
  children := by rw [h.children, List.map_id]
  initial := h.initial
  history := h.history
  entry := map_eq_of_rel Action.Reported.settled h.entry
  exit := map_eq_of_rel Action.Reported.settled h.exit
  transitions := h.transitions.imp fun _ _ => transition_renamed

/-- All states are in the same places. -/
theorem Reported.renames {t u : Tree S O E} (h : t.Reported u) : Renames id t u where
  injective := Function.injective_id
  root := rfl
  size := h.size
  node i := node_renamed (h.node i)
  path i := climb_rename (fun j => (node_renamed (h.node j)).parent) i i

end Tree

theorem Mark.rename_id (mark : Mark E) : mark.rename id = mark := by
  cases mark with
  | called site event => cases site <;> rfl
  | unmatched event => rfl
  | stayed i => rfl
  | exited i => rfl
  | restoring i depth => rfl
  | entered i => rfl
  | stuck i => rfl
  | moved source target before after => rfl

theorem Configuration.rename_id (c : Configuration O) : c.rename id = c := by
  have hrecords : c.history.rename id = c.history := by
    rw [History.rename]
    simp
  rw [rename, hrecords, List.map_id]

theorem Mark.map_rename_id (trail : List (Mark E)) : trail.map (Mark.rename id) = trail := by
  rw [List.map_congr_left fun mark _ => Mark.rename_id mark, List.map_id']

theorem Session.rename_id (s : Session W S O E) (u : Tree S O E) :
    s.rename id u = ⟨{ s.machine with tree := u }, s.world⟩ := by
  rw [rename, Observed.rename, Machine.rename, Configuration.rename_id]

/-- Host code never panics. -/
structure Tree.Calm (t : Tree S O E) : Prop where
  states : ∀ i a, a ∈ (t.node i).entry ∨ a ∈ (t.node i).exit →
    ∀ owner event payload, (a.run owner event).1 ≠ .panic payload
  guards : ∀ i, ∀ x ∈ (t.node i).transitions, ∀ g ∈ x.guard,
    ∀ owner event payload, (g.check owner event).1 ≠ .panic payload
  actions : ∀ i, ∀ x ∈ (t.node i).transitions, ∀ a ∈ x.action,
    ∀ owner event payload, (a.run owner event).1 ≠ .panic payload

def Guard.report (g : Guard O E) : Guard O E :=
  { g with check := fun owner event => ((g.check owner event).1.report, (g.check owner event).2) }

def Action.report (a : Action O E) : Action O E :=
  { a with run := fun owner event => ((a.run owner event).1.report, (a.run owner event).2) }

def Transition.report (x : Transition S O E) : Transition S O E :=
  { x with guard := x.guard.map Guard.report, action := x.action.map Action.report }

def Node.report (n : Node S O E) : Node S O E :=
  { n with
    entry := n.entry.map Action.report
    exit := n.exit.map Action.report
    transitions := n.transitions.map Transition.report }

theorem rel_map {r : α → α → Prop} {f : α → α} (h : ∀ a, r a (f a)) (a : Option α) :
    Option.Rel r a (a.map f) := by
  cases a with
  | none => exact .none
  | some a => exact .some (h a)

theorem Guard.reported_report (g : Guard O E) : g.Reported g.report :=
  fun _ _ => ⟨Or.inr rfl, rfl⟩

theorem Action.reported_report (a : Action O E) : a.Reported a.report :=
  fun _ _ => ⟨Or.inr rfl, rfl⟩

theorem Transition.reported_report (x : Transition S O E) : x.Reported x.report where
  event := rfl
  kind := rfl
  guard := rel_map Guard.reported_report _
  action := rel_map Action.reported_report _

/-- The same tree with the errors of all panics in their place. -/
def Tree.report (t : Tree S O E) : Tree S O E where
  nodes := t.nodes.map Node.report
  places := t.places
  size_pos := by simpa using t.size_pos

namespace Tree

theorem node_report (t : Tree S O E) (i : Nat) : t.report.node i = (t.node i).report := by
  have hroot : t.report.root = t.root.report := by simp [root, report]
  rw [node, hroot, report, Array.getElem?_map, Option.getD_map, node]

theorem reported_report (t : Tree S O E) : t.Reported t.report where
  size := by rw [size, report, Array.size_map, size]
  node i := by
    rw [node_report]
    exact
      { id := rfl
        parent := rfl
        children := rfl
        initial := rfl
        history := rfl
        entry := rel_map Action.reported_report _
        exit := rel_map Action.reported_report _
        transitions := List.forall₂_map_right_iff.mpr
          (List.forall₂_same.mpr fun x _ => x.reported_report) }

theorem calm_report (t : Tree S O E) : t.report.Calm where
  states i a ha owner event payload := by
    rw [node_report] at ha
    have hmapped : ∃ b : Action O E, b.report = a := by
      rcases ha with ha | ha
      · obtain ⟨b, _, hb⟩ := Option.mem_map.mp ha
        exact ⟨b, hb⟩
      · obtain ⟨b, _, hb⟩ := Option.mem_map.mp ha
        exact ⟨b, hb⟩
    obtain ⟨b, rfl⟩ := hmapped
    exact Ending.report_ne_panic _ payload
  guards i x hx g hg owner event payload := by
    rw [node_report] at hx
    obtain ⟨y, _, rfl⟩ := List.mem_map.mp hx
    obtain ⟨b, _, rfl⟩ := Option.mem_map.mp hg
    exact Ending.report_ne_panic _ payload
  actions i x hx a ha owner event payload := by
    rw [node_report] at hx
    obtain ⟨y, _, rfl⟩ := List.mem_map.mp hx
    obtain ⟨b, _, rfl⟩ := Option.mem_map.mp ha
    exact Ending.report_ne_panic _ payload

end Tree

namespace Session

variable [StateId S] [EventKind E]

/-- Observers are called the same over both trees. -/
theorem notices_rename {f : Nat → Nat} {t u : Tree S O E} (h : Tree.Renames f t u)
    {s : Session W S O E} (hs : s.machine.tree = t) (operations : List (Operation W S O E)) :
    (s.rename f u).notices operations = s.notices operations := by
  have htapped : (s.rename f u).tapped = s.tapped.rename f u := rfl
  have hrun := afterAll_rename h (s := s.tapped) hs (Operation.tapAll s.machine.next operations)
  rw [notices, htapped]
  exact congrArg (fun r => r.world.2) hrun

/-- A panic of host code is the same as the error that reports it. Over a tree whose guards and
actions return that error, in any places where those of another tree panic, every run goes the same:
a host gets the same answers and log lines from resets and events, and sees the same states active
and remembered, the same owner and the same failure; and observers are called the same. This holds
for a tree without any panics, so none reaches the host: an event that no observer refuses is always
answered by a reaction. -/
theorem panics_count_as_errors {t u : Tree S O E} (h : t.Reported u) (name key : String) (owner : O)
    (world : W) (operations : List (Operation W S O E)) :
    let start := idle t name key owner world
    let start' := idle u name key owner world
    let s := start.afterAll operations
    let s' := start'.afterAll operations
    (s'.machine = { s.machine with tree := u } ∧ s'.world = s.world ∧
      s'.machine.activeStates = s.machine.activeStates ∧
      s'.machine.currentState? = s.machine.currentState? ∧
      s'.machine.historyStates = s.machine.historyStates) ∧
    start'.notices operations = start.notices operations ∧
    (let reply := s.machine.reset s.world
      let reply' := s'.machine.reset s'.world
      reply'.answer = reply.answer ∧ reply'.trail = reply.trail ∧ reply'.lines = reply.lines ∧
        reply'.world = reply.world) ∧
    (∀ event,
      let reply := s.machine.fire event s.world
      let reply' := s'.machine.fire event s'.world
      reply'.answer = reply.answer ∧ reply'.trail = reply.trail ∧ reply'.lines = reply.lines ∧
        reply'.world = reply.world) ∧
    (∃ calm, t.Reported calm ∧ calm.Calm) ∧
    ∀ event, s.machine.alive = true → (Observer.consult s.machine.name event
        s.machine.inconsistency s.machine.watchers s.world).2 = none →
      ∃ reaction, (s.machine.fire event s.world).answer = .ok reaction := by
  intro start start' s s'
  have hrenames : Tree.Renames id t u := h.renames
  have hs : s.machine.tree = t :=
    afterAll_keeps (P := fun m => m.tree = t) (fun _ _ hm => hm) (fun _ _ _ hm => hm)
      (fun _ _ hm => hm) rfl
  -- no state is in another place, so nothing but the tree is another one
  have hs' : s' = s.rename id u := afterAll_rename hrenames (s := start) rfl operations
  refine ⟨⟨?_, ?_, ?_, ?_, ?_⟩, ?_, ?_, ?_, ⟨t.report, t.reported_report, t.calm_report⟩, ?_⟩
  · rw [hs', rename_id]
  · rw [hs']
    rfl
  · rw [hs']
    exact Machine.activeStates_rename hrenames hs
  · rw [hs']
    exact Machine.currentState?_rename hrenames hs
  · rw [hs']
    exact Machine.historyStates_rename hrenames hs
  · exact notices_rename hrenames (s := start) rfl operations
  · have hreset : s'.machine.reset s'.world = (s.machine.reset s.world).rename id u := by
      rw [hs']
      exact Observed.reset_rename hrenames hs s.world
    rw [hreset]
    exact ⟨rfl, Mark.map_rename_id _, rfl, rfl⟩
  · intro event
    have hfire : s'.machine.fire event s'.world = (s.machine.fire event s.world).rename id u := by
      rw [hs']
      exact Observed.fire_rename hrenames hs event s.world
    rw [hfire]
    exact ⟨rfl, Mark.map_rename_id _, rfl, rfl⟩
  · intro event ha hnone
    rw [Observed.fire_passed ha hnone]
    exact ⟨_, rfl⟩

end Session

namespace Radio

def shocked : Action (List String) Button where
  run lines _ := (.panic (some "static"), lines ++ ["shocked"])

def muddled : Guard (List String) Button where
  check lines _ := (.panic none, lines)

/-- The radio panics when it is switched on, and when it is asked for a band while it is off. -/
def panicky : List (Declaration Place (List String) Button) :=
  [.addToRoot .off ⟨[.initial], none⟩,
    .addToRoot .on ⟨[.entry shocked], none⟩,
    .inState .off ⟨[], some ⟨.power, some .on, []⟩⟩,
    .inState .off ⟨[], some ⟨.band, none, [.guard muddled]⟩⟩]

theorem panicky_answers :
    let t := Tree.build .root panicky
    let operations : List (Operation Unit Place (List String) Button) := [.reset, .fire .band]
    let start : Session Unit Place (List String) Button := .idle t "radio" "1" [] ()
    let start' : Session Unit Place (List String) Button := .idle t.report "radio" "1" [] ()
    let m := (start.afterAll operations).machine
    let m' := (start'.afterAll operations).machine
    t.Reported t.report ∧ m'.activeStates = m.activeStates ∧
      (m'.fire .band ()).answer = .ok (.failed ⟨.guard, .off, ⟨"panicked"⟩⟩) ∧
      (m'.fire .power ()).answer = .ok (.failed ⟨.entry, .on, ⟨"panicked: static"⟩⟩) := by
  intro t operations start start' m m'
  have hguard : (m.fire .band ()).answer = .ok (.failed ⟨.guard, .off, ⟨"panicked"⟩⟩) := by
    decide +kernel
  have hentry : (m.fire .power ()).answer =
      .ok (.failed ⟨.entry, .on, ⟨"panicked: static"⟩⟩) := by decide +kernel
  obtain ⟨⟨_, _, hsame, _⟩, _, _, hfire, _⟩ :=
    Session.panics_count_as_errors t.reported_report "radio" "1" [] () operations
  -- both sides name the same runs, so none is carried out to compare them
  with_reducible
    exact ⟨t.reported_report, hsame, (hfire .band).1.trans hguard,
      (hfire .power).1.trans hentry⟩

end Radio

end StateTree
