import StateTree.Observed
import StateTree.Proofs.Step.Move

/-!
Runs: the operations that a host makes on one machine and its world, in any order. What resets,
reactions and changes of the owner keep is kept by every run.
-/

namespace StateTree

variable {W S O E : Type}

/-- Something that is done to a machine, or `elsewhere` in the world that its observers share. -/
inductive Operation (W S O E : Type)
  | reset
  | fire (event : E)
  | modifyOwner (f : O → O)
  | register (o : Observer W S E)
  | unregister (id : ObserverId)
  | elsewhere (f : W → W)

/-- A run with a reset has a last one. -/
theorem Operation.last_reset {operations : List (Operation W S O E)}
    (h : Operation.reset ∈ operations) :
    ∃ earlier later, operations = earlier ++ .reset :: later ∧ Operation.reset ∉ later := by
  -- the last reset is the first one from the end
  obtain ⟨later, earlier, hsplit, hlater⟩ := List.eq_append_cons_of_mem (List.mem_reverse.mpr h)
  refine ⟨earlier.reverse, later.reverse, ?_, ?_⟩
  · have hreverse := congrArg List.reverse hsplit
    rw [List.reverse_reverse, List.reverse_append, List.reverse_cons, List.append_assoc]
      at hreverse
    exact hreverse
  · rw [List.mem_reverse]
    exact hlater

structure Session (W S O E : Type) where
  machine : Observed W S O E
  world : W

/-- A machine over `t` between two operations. -/
structure Machine.Over (t : Tree S O E) (m : Machine S O E) : Prop where
  tree : m.tree = t
  stands : t.Stands m.standing

namespace Machine.Over

variable {t : Tree S O E} {m : Machine S O E}

theorem modifyOwner (hm : m.Over t) (f : O → O) : (m.modifyOwner f).Over t := ⟨hm.tree, hm.stands⟩

variable [StateId S] [EventKind E]

theorem reset (hm : m.Over t) (ht : t.Linked) : m.reset.machine.Over t := by
  obtain ⟨rfl, _⟩ := hm
  exact ⟨rfl, Tree.reset_stands ht _⟩

theorem react [DecidableEq S] (hm : m.Over t) (ht : t.Sound) (event : E) :
    (m.react event).machine.Over t := by
  obtain ⟨rfl, hstands⟩ := hm
  exact ⟨rfl, Tree.react_stands ht hstands⟩

end Machine.Over

/-- A machine stays consistent only without a failure that interrupts a crossing. -/
theorem Machine.carry_eq_none {before : Option (Failure S)} {reaction : Reaction S}
    (h : carry before reaction = none) :
    before = none ∧ ∀ f, reaction = .failed f → f.leavesConsistent = true := by
  cases reaction with
  | ignored => exact ⟨h, nofun⟩
  | stayed id => exact ⟨h, nofun⟩
  | moved move => exact ⟨h, nofun⟩
  | failed f =>
    -- a failure is carried on unless it left the machine consistent
    simp only [carry] at h
    split at h
    · next hf =>
      refine ⟨h, ?_⟩
      intro g hg
      cases hg
      exact hf
    · cases h

namespace Observed

variable [StateId S] [EventKind E]

theorem fire_dead {m : Observed W S O E} (ha : m.alive = false) (event : E) (world : W) :
    m.fire event world = ⟨⟨m, .error (.notAlive m.name), [], []⟩, world⟩ := by
  simp [fire, ha]

theorem fire_refused {m : Observed W S O E} (ha : m.alive = true) {event : E} {world : W}
    {refusal : Refusal}
    (hc : (Observer.consult m.name event m.inconsistency m.watchers world).2 = some refusal) :
    m.fire event world = ⟨⟨m, .error refusal, [], []⟩,
      (Observer.consult m.name event m.inconsistency m.watchers world).1⟩ := by
  simp [fire, ha, hc]

theorem fire_passed {m : Observed W S O E} (ha : m.alive = true) {event : E} {world : W}
    (hc : (Observer.consult m.name event m.inconsistency m.watchers world).2 = none) :
    let asked := Observer.consult m.name event m.inconsistency m.watchers world
    let reacted := m.react event
    let told := Observer.notify (fun o => o.fired m.name event reacted.answer) m.watchers asked.1
    m.fire event world = ⟨⟨{ m with toMachine := reacted.machine }, .ok reacted.answer,
      reacted.trail, reacted.lines ++ told.2⟩, told.1⟩ := by
  simp [fire, ha, hc]

/-- Either the machine is as before, or it is alive and has reacted. -/
theorem fire_cases (m : Observed W S O E) (event : E) (world : W) :
    let reply := m.fire event world
    (reply.machine = m ∧ reply.trail = [] ∧ ∃ refusal, reply.answer = .error refusal) ∨
      (m.alive = true ∧ reply.machine.toMachine = (m.react event).machine ∧
        reply.trail = (m.react event).trail ∧ reply.answer = .ok (m.react event).answer) := by
  intro reply
  -- an event is refused by a machine that is not alive, or by one of its observers
  cases ha : m.alive with
  | false =>
    have hreply : reply = _ := fire_dead ha event world
    rw [hreply]
    exact Or.inl ⟨rfl, rfl, _, rfl⟩
  | true =>
    cases hc : (Observer.consult m.name event m.inconsistency m.watchers world).2 with
    | some refusal =>
      have hreply : reply = _ := fire_refused ha hc
      rw [hreply]
      exact Or.inl ⟨rfl, rfl, refusal, rfl⟩
    | none =>
      have hreply : reply = _ := fire_passed ha hc
      rw [hreply]
      exact Or.inr ⟨rfl, rfl, rfl, rfl⟩

/-- An event that is not refused is answered by the reaction of the tree. -/
theorem fire_reacts {t : Tree S O E} {m : Observed W S O E} (hm : m.toMachine.Over t) {event : E}
    {world : W} {reaction : Reaction S} (h : (m.fire event world).answer = .ok reaction) :
    let reply := m.fire event world
    let step := t.react event m.toConfiguration
    m.alive = true ∧ reply.machine.toConfiguration = step.1.toConfiguration ∧
      reply.trail = step.1.trail ∧ reaction = step.2 := by
  intro reply step
  obtain ⟨rfl, _⟩ := hm
  rcases m.fire_cases event world with ⟨_, _, refusal, hr⟩ | ⟨halive, hmachine, htrail, hr⟩
  · have hanswer := h.symm.trans hr
    cases hanswer
  · have hconfiguration : reply.machine.toConfiguration = step.1.toConfiguration :=
      congrArg (fun m => m.toConfiguration) hmachine
    exact ⟨halive, hconfiguration, htrail, Except.ok.inj (h.symm.trans hr)⟩

end Observed

namespace Session

/-- A machine before its first reset. -/
def idle (t : Tree S O E) (name id : String) (owner : O) (world : W) : Session W S O E :=
  ⟨.idle t name id owner, world⟩

variable [StateId S] [EventKind E]

def after (s : Session W S O E) : Operation W S O E → Session W S O E
  | .reset =>
    let reply := s.machine.reset s.world
    ⟨reply.machine, reply.world⟩
  | .fire event =>
    let reply := s.machine.fire event s.world
    ⟨reply.machine, reply.world⟩
  | .modifyOwner f => { s with machine := s.machine.modifyOwner f }
  | .register o => { s with machine := (s.machine.register o).1 }
  | .unregister id => { s with machine := (s.machine.unregister id).1 }
  | .elsewhere f => { s with world := f s.world }

def afterAll (s : Session W S O E) (operations : List (Operation W S O E)) : Session W S O E :=
  operations.foldl after s

theorem afterAll_append (s : Session W S O E) (xs ys : List (Operation W S O E)) :
    s.afterAll (xs ++ ys) = (s.afterAll xs).afterAll ys := List.foldl_append

/-- Induction over a run, for properties of the machine itself. -/
theorem afterAll_keeps {P : Machine S O E → Prop} {operations : List (Operation W S O E)}
    (hreset : Operation.reset ∈ operations → ∀ m, P m → P m.reset.machine)
    (hreact : ∀ m event, m.alive = true → P m → P (m.react event).machine)
    (howner : ∀ m f, P m → P (m.modifyOwner f)) {s : Session W S O E}
    (hs : P s.machine.toMachine) : P (s.afterAll operations).machine.toMachine := by
  induction operations generalizing s with
  | nil => exact hs
  | cons operation rest ih =>
    refine ih (fun hm => hreset (List.mem_cons_of_mem _ hm)) ?_
    -- registrations and what is done elsewhere do not touch the machine
    cases operation with
    | reset => exact hreset List.mem_cons_self _ hs
    | fire event =>
      rcases s.machine.fire_cases event s.world with ⟨hm, _, _⟩ | ⟨ha, hm, _, _⟩
      · change P (s.machine.fire event s.world).machine.toMachine
        rw [hm]
        exact hs
      · change P (s.machine.fire event s.world).machine.toMachine
        rw [hm]
        exact hreact _ event ha hs
    | modifyOwner f => exact howner _ f hs
    | register o => exact hs
    | unregister id => exact hs
    | elsewhere f => exact hs

theorem afterAll_name (s : Session W S O E) (operations : List (Operation W S O E)) :
    (s.afterAll operations).machine.name = s.machine.name :=
  afterAll_keeps (P := fun m => m.name = s.machine.name) (fun _ _ h => h) (fun _ _ _ h => h)
    (fun _ _ h => h) rfl

theorem over_afterAll [DecidableEq S] {t : Tree S O E} (ht : t.Sound) {s : Session W S O E}
    (hs : s.machine.toMachine.Over t) (operations : List (Operation W S O E)) :
    (s.afterAll operations).machine.toMachine.Over t := by
  refine afterAll_keeps (P := fun m => m.Over t) ?_ ?_ ?_ hs
  · intro _ m hm
    exact hm.reset ht.toLinked
  · intro m event _ hm
    exact hm.react ht event
  · intro m f hm
    exact hm.modifyOwner f

/-- In every run the machine keeps its tree, and one path of it is active. -/
theorem afterAll_over [DecidableEq S] {t : Tree S O E} (ht : t.Sound) (name id : String) (owner : O)
    (world : W) (operations : List (Operation W S O E)) :
    ((idle t name id owner world).afterAll operations).machine.toMachine.Over t :=
  over_afterAll ht ⟨rfl, Tree.stands_nothing⟩ operations

/-- A property of standings holds while a machine is alive and consistent if resets that succeed
establish it and reactions that do not interrupt a crossing keep it. -/
theorem afterAll_consistent [DecidableEq S] {t : Tree S O E} (ht : t.Sound) {P : Standing → Prop}
    (hreset : ∀ (c : Configuration O) v, t.reset c = .going v → P v.standing)
    (hreact : ∀ (c : Configuration O) event, t.Stands c.standing → P c.standing →
      (∀ f, (t.react event c).2 = .failed f → f.leavesConsistent = true) →
      P (t.react event c).1.standing)
    (name id : String) (owner : O) (world : W) (operations : List (Operation W S O E)) :
    let m := ((idle t name id owner world).afterAll operations).machine
    m.alive = true → m.inconsistency = none → P m.standing := by
  -- nothing is said about a machine that is not alive, so the idle machine needs no `P`
  let Kept (m : Machine S O E) : Prop :=
    m.Over t ∧ (m.alive = true → m.inconsistency = none → P m.standing)
  have hkept : Kept ((idle t name id owner world).afterAll operations).machine.toMachine := by
    refine afterAll_keeps (P := Kept) ?_ ?_ ?_ ⟨⟨rfl, Tree.stands_nothing⟩, nofun⟩
    · intro _ m ⟨hm, _⟩
      refine ⟨hm.reset ht.toLinked, ?_⟩
      obtain ⟨rfl, _⟩ := hm
      intro _ hconsistent
      change (m.tree.reset m.toConfiguration).failure? = none at hconsistent
      change P (m.tree.reset m.toConfiguration).work.standing
      cases hr : m.tree.reset m.toConfiguration with
      | going v => exact hreset _ v hr
      | stopped v f =>
        rw [hr] at hconsistent
        cases hconsistent
    · intro m event _ ⟨hm, hP⟩
      refine ⟨hm.react ht event, ?_⟩
      obtain ⟨rfl, hstands⟩ := hm
      intro halive hconsistent
      -- consistent now means consistent before, and no crossing interrupted in between
      obtain ⟨hbefore, hf⟩ := Machine.carry_eq_none hconsistent
      exact hreact _ event hstands (hP halive hbefore) hf
    · intro m f ⟨hm, hP⟩
      exact ⟨hm.modifyOwner f, hP⟩
  exact hkept.2

end Session

/-! A radio that remembers its band while it is off. -/

namespace Radio

inductive Place
  | root
  | off
  | on
  | dab
  | fm
  deriving DecidableEq

inductive Button
  | power
  | band
  deriving DecidableEq

def Place.text : Place → String
  | root => "Root"
  | off => "Off"
  | on => "On"
  | dab => "Dab"
  | fm => "Fm"

instance : StateId Place := ⟨Place.text, Place.text⟩

def Button.text : Button → String
  | power => "Power"
  | band => "Band"

instance : EventKind Button := ⟨fun a b => a = b, Button.text⟩

def noted (line : String) : Action (List String) Button where
  run lines _ := (.value (), lines ++ [line])

def declarations : List (Declaration Place (List String) Button) :=
  [.addToRoot .off ⟨[.initial, .exit (noted "exitOff")], none⟩,
    .addToRoot .on ⟨[.history, .entry (noted "entryOn"), .exit (noted "exitOn")], none⟩,
    .addTo .on .dab ⟨[.initial, .entry (noted "entryDab")], none⟩,
    .addTo .on .fm ⟨[.entry (noted "entryFm")], none⟩,
    .inState .off ⟨[], some ⟨.power, some .on, [.action (noted "offToOn")]⟩⟩,
    .inState .on ⟨[], some ⟨.power, some .off, []⟩⟩,
    .inState .dab ⟨[], some ⟨.band, some .fm, []⟩⟩]

def session : Session Unit Place (List String) Button :=
  .idle (.build .root declarations) "radio" "1" [] ()

end Radio

end StateTree
