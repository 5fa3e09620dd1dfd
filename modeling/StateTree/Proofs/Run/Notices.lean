import StateTree.Observer.Gate
import StateTree.Proofs.Run.Roster
import StateTree.Proofs.Run.Story

/-!
What observers are called for. Each observer of a run is tapped: it writes down every call that is
made of it, and does what it did before. The calls of a run, in the order in which they are made, are
what a tapped run has written down.
-/

namespace StateTree

variable {W S O E : Type}

/-- A call of an observer: what it is told, and what it answers where it is asked. -/
inductive Notice (S E : Type)
  | wasReset (machine : String) (active : List S) (failure : Option (Failure S))
  | asked (machine : String) (event : E) (inconsistency : Option (Failure S))
      (answer : Option Refusal)
  | fired (machine : String) (event : E) (reaction : Reaction S)

/-- The calls of all observers in one order. -/
abbrev Tape (S E : Type) := List (ObserverId × Notice S E)

namespace Observer

/-- The same observer, with its calls written down under the number `id`. -/
def tapped (id : ObserverId) (o : Observer W S E) : Observer (W × Tape S E) S E where
  wasReset machine active failure world :=
    let told := o.wasReset machine active failure world.1
    ((told.1, world.2 ++ [(id, .wasReset machine active failure)]), told.2)
  beforeFire machine event inconsistency world :=
    let asked := o.beforeFire machine event inconsistency world.1
    ((asked.1, world.2 ++ [(id, .asked machine event inconsistency asked.2)]), asked.2)
  fired machine event reaction world :=
    let told := o.fired machine event reaction world.1
    ((told.1, world.2 ++ [(id, .fired machine event reaction)]), told.2)

/-- The same observers, with their calls written down. -/
def tapAll (os : List (ObserverId × Observer W S E)) :
    List (ObserverId × Observer (W × Tape S E) S E) :=
  os.map fun p => (p.1, p.2.tapped p.1)

/-- All observers are told once, in order, and nothing else changes. -/
theorem notify_tapped (tell : Observer W S E → W → W × List Line)
    (tell' : Observer (W × Tape S E) S E → W × Tape S E → (W × Tape S E) × List Line)
    {notice : Notice S E}
    (h : ∀ id o world, tell' (tapped id o) world =
      (((tell o world.1).1, world.2 ++ [(id, notice)]), (tell o world.1).2))
    (os : List (ObserverId × Observer W S E)) (world : W × Tape S E) :
    let told := notify tell (os.map Prod.snd) world.1
    notify tell' ((tapAll os).map Prod.snd) world =
      ((told.1, world.2 ++ os.map fun p => (p.1, notice)), told.2) := by
  induction os generalizing world with
  | nil => simp [tapAll, notify]
  | cons p rest ih =>
    have hrest := ih ((tell p.2 world.1).1, world.2 ++ [(p.1, notice)])
    simp only [tapAll, List.map_cons, notify, h] at hrest ⊢
    rw [hrest]
    simp

section

variable (machine : String) (event : E) (inconsistency : Option (Failure S))

/-- Observers are asked in order up to the first one that refuses, and nothing else changes. -/
theorem consult_tapped (os : List (ObserverId × Observer W S E)) (world : W × Tape S E) :
    let asked := consult machine event inconsistency (os.map Prod.snd) world.1
    let tapped := consult machine event inconsistency ((tapAll os).map Prod.snd) world
    let question (answer : Option Refusal) (p : ObserverId × Observer W S E) :
        ObserverId × Notice S E := (p.1, .asked machine event inconsistency answer)
    tapped.1.1 = asked.1 ∧ tapped.2 = asked.2 ∧
      ((asked.2 = none ∧ tapped.1.2 = world.2 ++ os.map (question none)) ∨
        ∃ before p after refusal, os = before ++ p :: after ∧ asked.2 = some refusal ∧
          tapped.1.2 = world.2 ++ (before.map (question none) ++ [question (some refusal) p])) := by
  induction os generalizing world with
  | nil => simp [tapAll, consult]
  | cons p rest ih =>
    intro asked tapped question
    -- the first observer is asked in any case; only if it lets the event pass are the others
    let own := p.2.beforeFire machine event inconsistency world.1
    cases hown : own.2 with
    | some refusal =>
      have hasked : asked = (own.1, some refusal) := by
        simp only [asked, List.map_cons, consult]
        rw [show (p.2.beforeFire machine event inconsistency world.1).2 = some refusal from hown]
      have htapped : tapped = ((own.1, world.2 ++ [question (some refusal) p]), some refusal) := by
        simp only [tapped, tapAll, List.map_cons, consult, Observer.tapped]
        rw [show (p.2.beforeFire machine event inconsistency world.1).2 = some refusal from hown]
      rw [htapped, hasked]
      exact ⟨rfl, rfl, Or.inr ⟨[], p, rest, refusal, rfl, rfl, rfl⟩⟩
    | none =>
      have hasked : asked = consult machine event inconsistency (rest.map Prod.snd) own.1 := by
        simp only [asked, List.map_cons, consult]
        rw [show (p.2.beforeFire machine event inconsistency world.1).2 = none from hown]
      have htapped : tapped = consult machine event inconsistency ((tapAll rest).map Prod.snd)
          (own.1, world.2 ++ [question none p]) := by
        simp only [tapped, tapAll, List.map_cons, consult, Observer.tapped]
        rw [show (p.2.beforeFire machine event inconsistency world.1).2 = none from hown]
      obtain ⟨hworld, hanswer, hcalls⟩ := ih (own.1, world.2 ++ [question none p])
      rw [htapped, hasked]
      refine ⟨hworld, hanswer, ?_⟩
      rcases hcalls with ⟨hnone, hcalls⟩ | ⟨before, q, after, refusal, rfl, hsome, hcalls⟩
      · refine Or.inl ⟨hnone, hcalls.trans ?_⟩
        rw [List.append_assoc]
        rfl
      · refine Or.inr ⟨p :: before, q, after, refusal, rfl, hsome, hcalls.trans ?_⟩
        rw [List.append_assoc]
        rfl

end

end Observer

/-- The same machine with its observers tapped. -/
def Observed.tapped (m : Observed W S O E) : Observed (W × Tape S E) S O E :=
  ⟨m.toMachine, Observer.tapAll m.observers, m.next⟩

namespace Operation

/-- The same operation on a machine with tapped observers that gives out the number `n` next. -/
def tapped (n : Nat) : Operation W S O E → Operation (W × Tape S E) S O E
  | .reset => .reset
  | .fire event => .fire event
  | .modifyOwner f => .modifyOwner f
  | .register o => .register (o.tapped ⟨n⟩)
  | .unregister id => .unregister id
  | .elsewhere f => .elsewhere fun world => (f world.1, world.2)

def tapAll : Nat → List (Operation W S O E) → List (Operation (W × Tape S E) S O E)
  | _, [] => []
  | n, operation :: rest =>
    operation.tapped n :: tapAll (if operation.isRegistration then n + 1 else n) rest

theorem tapAll_append (n : Nat) (xs ys : List (Operation W S O E)) :
    tapAll n (xs ++ ys) = tapAll n xs ++ tapAll (n + xs.countP isRegistration) ys := by
  induction xs generalizing n with
  | nil => rfl
  | cons operation rest ih =>
    rw [List.cons_append, tapAll, ih, tapAll, List.cons_append, List.countP_cons]
    cases operation.isRegistration with
    | true => simp only [if_true, Nat.add_assoc, Nat.add_comm 1]
    | false => rfl

end Operation

namespace Observed

variable [StateId S] [EventKind E]

/-- A reset tells each observer once, in order, and nothing else is changed by the taps. -/
theorem reset_tapped (m : Observed W S O E) (world : W × Tape S E) :
    let reply := m.reset world.1
    m.tapped.reset world =
      ⟨⟨reply.machine.tapped, reply.answer, reply.trail, reply.lines⟩, reply.world,
        world.2 ++ m.observers.map fun p =>
          (p.1, .wasReset m.name reply.machine.activeStates reply.answer)⟩ := by
  let own := m.toMachine.reset
  let answered (told : (W × Tape S E) × List Line) :
      ObservedReply (W × Tape S E) S O E (Option (Failure S)) :=
    ⟨⟨{ m.tapped with toMachine := own.machine }, own.answer, own.trail,
      own.lines ++ told.2⟩, told.1⟩
  exact congrArg answered (Observer.notify_tapped
    (fun o => o.wasReset m.name own.machine.activeStates own.answer)
    (fun o => o.wasReset m.name own.machine.activeStates own.answer) (fun _ _ _ => rfl)
    m.observers world)

theorem fire_tapped_dead {m : Observed W S O E} (ha : m.alive = false) (event : E)
    (world : W × Tape S E) :
    m.tapped.fire event world =
      ⟨⟨m.tapped, .error (.notAlive m.name), [], []⟩, world⟩ :=
  fire_dead (m := m.tapped) ha event world

/-- An event asks the observers of a machine that is alive in order, up to one that refuses; if none
does, it tells each of them once, in order. Nothing else is changed by the taps. -/
theorem fire_tapped {m : Observed W S O E} (ha : m.alive = true) (event : E)
    (world : W × Tape S E) :
    let reply := m.fire event world.1
    let tapped := m.tapped.fire event world
    let question (answer : Option Refusal) (p : ObserverId × Observer W S E) :
        ObserverId × Notice S E := (p.1, .asked m.name event m.inconsistency answer)
    tapped.toReply = ⟨reply.machine.tapped, reply.answer, reply.trail, reply.lines⟩ ∧
      tapped.world.1 = reply.world ∧
      ((∃ before p after refusal, m.observers = before ++ p :: after ∧
          reply.answer = .error refusal ∧
          tapped.world.2 =
            world.2 ++ (before.map (question none) ++ [question (some refusal) p])) ∨
        ∃ reaction, reply.answer = .ok reaction ∧
          tapped.world.2 = world.2 ++ (m.observers.map (question none) ++
            m.observers.map fun p => (p.1, .fired m.name event reaction))) := by
  intro reply tapped question
  let earlier := (Observer.consult m.name event m.inconsistency m.tapped.watchers world).1
  obtain ⟨hworld, hanswer, hcalls⟩ :=
    Observer.consult_tapped m.name event m.inconsistency m.observers world
  rcases hcalls with ⟨hnone, hcalls⟩ | ⟨before, p, after, refusal, hsplit, hsome, hcalls⟩
  · let reacted := m.react event
    let told := Observer.notify (fun o => o.fired m.name event reacted.answer) m.watchers earlier.1
    have hreply : reply = ⟨⟨{ m with toMachine := reacted.machine }, .ok reacted.answer,
        reacted.trail, reacted.lines ++ told.2⟩, told.1⟩ := by
      have hearlier : earlier.1 = _ := hworld
      simp only [told, hearlier]
      exact fire_passed ha hnone
    have hnotify : Observer.notify (fun o => o.fired m.name event reacted.answer)
        m.tapped.watchers earlier = ((told.1, earlier.2 ++ m.observers.map fun p =>
          (p.1, .fired m.name event reacted.answer)), told.2) :=
      Observer.notify_tapped (fun o => o.fired m.name event reacted.answer)
        (fun o => o.fired m.name event reacted.answer) (fun _ _ _ => rfl) m.observers earlier
    let answered (told : (W × Tape S E) × List Line) :
        ObservedReply (W × Tape S E) S O E (Except Refusal (Reaction S)) :=
      ⟨⟨{ m.tapped with toMachine := reacted.machine }, .ok reacted.answer, reacted.trail,
        reacted.lines ++ told.2⟩, told.1⟩
    have htapped : tapped = answered ((told.1, earlier.2 ++ m.observers.map fun p =>
        (p.1, .fired m.name event reacted.answer)), told.2) :=
      (fire_passed (m := m.tapped) ha (hanswer.trans hnone)).trans (congrArg answered hnotify)
    rw [htapped, hreply]
    refine ⟨rfl, rfl, Or.inr ⟨_, rfl, ?_⟩⟩
    rw [show earlier.2 = _ from hcalls, List.append_assoc]
  · have hreply : reply = _ := fire_refused ha hsome
    have htapped : tapped = _ := fire_refused (m := m.tapped) ha (hanswer.trans hsome)
    rw [htapped, hreply]
    exact ⟨rfl, hworld, Or.inl ⟨before, p, after, refusal, hsplit, rfl, hcalls⟩⟩

end Observed

namespace Session

/-- The same session with its observers tapped and nothing written down yet. -/
def tapped (s : Session W S O E) : Session (W × Tape S E) S O E :=
  ⟨s.machine.tapped, (s.world, [])⟩

/-- The session `u` is `s` with its observers tapped. -/
structure Taps (u : Session (W × Tape S E) S O E) (s : Session W S O E) : Prop where
  machine : u.machine = s.machine.tapped
  world : u.world.1 = s.world

theorem tapped_taps (s : Session W S O E) : s.tapped.Taps s := ⟨rfl, rfl⟩

variable [StateId S] [EventKind E]

/-- The calls of observers in a run. -/
def notices (s : Session W S O E) (operations : List (Operation W S O E)) : Tape S E :=
  (s.tapped.afterAll (Operation.tapAll s.machine.next operations)).world.2

section

variable {u : Session (W × Tape S E) S O E} {s : Session W S O E} (h : u.Taps s)

include h

theorem Taps.reset :
    let reply := s.machine.reset s.world
    (u.after .reset).Taps (s.after .reset) ∧
      (u.after .reset).world.2 = u.world.2 ++ s.machine.observers.map fun p =>
        (p.1, .wasReset s.machine.name reply.machine.activeStates reply.answer) := by
  have hreply := s.machine.reset_tapped u.world
  rw [← h.machine, h.world] at hreply
  refine ⟨⟨?_, ?_⟩, ?_⟩
  · exact congrArg (fun r => r.machine) hreply
  · exact congrArg (fun r => r.world.1) hreply
  · exact congrArg (fun r => r.world.2) hreply

theorem Taps.fire_dead (ha : s.machine.alive = false) (event : E) :
    (u.after (.fire event)).Taps (s.after (.fire event)) ∧
      (u.after (.fire event)).world.2 = u.world.2 := by
  have htapped := Observed.fire_tapped_dead ha event u.world
  rw [← h.machine] at htapped
  have hnext : u.after (.fire event) = u := by
    change Session.mk (u.machine.fire event u.world).machine (u.machine.fire event u.world).world = u
    rw [htapped]
  have hsame : s.after (.fire event) = s := by
    change Session.mk (s.machine.fire event s.world).machine (s.machine.fire event s.world).world = s
    rw [Observed.fire_dead ha]
  rw [hnext, hsame]
  exact ⟨h, rfl⟩

theorem Taps.fire (ha : s.machine.alive = true) (event : E) :
    let m := s.machine
    let reply := m.fire event s.world
    let question (answer : Option Refusal) (p : ObserverId × Observer W S E) :
        ObserverId × Notice S E := (p.1, .asked m.name event m.inconsistency answer)
    (u.after (.fire event)).Taps (s.after (.fire event)) ∧
      ((∃ before p after refusal, m.observers = before ++ p :: after ∧
          reply.answer = .error refusal ∧ (u.after (.fire event)).world.2 =
            u.world.2 ++ (before.map (question none) ++ [question (some refusal) p])) ∨
        ∃ reaction, reply.answer = .ok reaction ∧ (u.after (.fire event)).world.2 =
          u.world.2 ++ (m.observers.map (question none) ++
            m.observers.map fun p => (p.1, .fired m.name event reaction))) := by
  obtain ⟨hreply, hworld, hcalls⟩ := Observed.fire_tapped ha event u.world
  rw [← h.machine, h.world] at hreply hworld hcalls
  exact ⟨⟨congrArg (fun r => r.machine) hreply, hworld⟩, hcalls⟩

/-- Operations other than resets and events call no observer. -/
theorem Taps.quiet (operation : Operation W S O E) (hr : operation ≠ .reset)
    (hf : ∀ event, operation ≠ .fire event) :
    (u.after (operation.tapped s.machine.next)).Taps (s.after operation) ∧
      (u.after (operation.tapped s.machine.next)).world.2 = u.world.2 := by
  obtain ⟨m, world⟩ := u
  obtain ⟨rfl, hworld⟩ := h
  cases operation with
  | reset => exact absurd rfl hr
  | fire event => exact absurd rfl (hf event)
  | modifyOwner f => exact ⟨⟨rfl, hworld⟩, rfl⟩
  | register o =>
    refine ⟨⟨?_, hworld⟩, rfl⟩
    simp [after, Operation.tapped, Observed.register, Observed.tapped, Observer.tapAll]
  | unregister id =>
    refine ⟨⟨?_, hworld⟩, rfl⟩
    simp only [after, Operation.tapped, Observed.unregister, Observed.tapped, Observer.tapAll,
      List.filter_map]
    rfl
  | elsewhere f => exact ⟨⟨rfl, congrArg f hworld⟩, rfl⟩

theorem Taps.after (operation : Operation W S O E) :
    (u.after (operation.tapped s.machine.next)).Taps (s.after operation) := by
  cases operation with
  | reset => exact h.reset.1
  | fire event =>
    cases ha : s.machine.alive with
    | false => exact (h.fire_dead ha event).1
    | true => exact (h.fire ha event).1
  | modifyOwner f => exact (h.quiet (.modifyOwner f) nofun nofun).1
  | register o => exact (h.quiet (.register o) nofun nofun).1
  | unregister id => exact (h.quiet (.unregister id) nofun nofun).1
  | elsewhere f => exact (h.quiet (.elsewhere f) nofun nofun).1

/-- A tapped run does to machine and world what the run itself does. -/
theorem Taps.afterAll (operations : List (Operation W S O E)) :
    (u.afterAll (Operation.tapAll s.machine.next operations)).Taps (s.afterAll operations) := by
  induction operations generalizing u s with
  | nil => exact h
  | cons operation rest ih =>
    -- the tap of an observer bears the number that the machine gives it, so the two count alike
    have hnext : (s.after operation).machine.next =
        if operation.isRegistration then s.machine.next + 1 else s.machine.next := by
      rcases s.roster_after operation with ⟨o, rfl, _, hn⟩ | ⟨id, rfl, _, hn⟩ | ⟨hr, _, _, hn⟩
      · exact hn
      · exact hn
      · rw [hn, hr]
        rfl
    have hrest := ih (h.after operation)
    rw [hnext] at hrest
    exact hrest

end

/-- The last operation of a tapped run finds the observers tapped. -/
theorem notices_concat (s : Session W S O E) (operations : List (Operation W S O E))
    (operation : Operation W S O E) :
    let r := s.afterAll operations
    let u := s.tapped.afterAll (Operation.tapAll s.machine.next operations)
    u.Taps r ∧ s.notices operations = u.world.2 ∧
      s.notices (operations ++ [operation]) =
        (u.after (operation.tapped r.machine.next)).world.2 := by
  intro r u
  refine ⟨s.tapped_taps.afterAll operations, rfl, ?_⟩
  rw [notices, Operation.tapAll_append, afterAll_append, ← next_afterAll]
  rfl

theorem notices_reset (s : Session W S O E) (operations : List (Operation W S O E)) :
    let r := s.afterAll operations
    let reply := r.machine.reset r.world
    s.notices (operations ++ [.reset]) = s.notices operations ++ r.machine.observers.map fun p =>
      (p.1, .wasReset s.machine.name reply.machine.activeStates reply.answer) := by
  intro r reply
  obtain ⟨htaps, hbefore, hafter⟩ := s.notices_concat operations .reset
  rw [hafter, hbefore, ← s.afterAll_name operations]
  exact htaps.reset.2

theorem notices_fire_dead {s : Session W S O E} {operations : List (Operation W S O E)}
    (ha : (s.afterAll operations).machine.alive = false) (event : E) :
    s.notices (operations ++ [.fire event]) = s.notices operations := by
  obtain ⟨htaps, hbefore, hafter⟩ := s.notices_concat operations (.fire event)
  rw [hafter, hbefore]
  exact (htaps.fire_dead ha event).2

theorem notices_fire {s : Session W S O E} {operations : List (Operation W S O E)}
    (ha : (s.afterAll operations).machine.alive = true) (event : E) :
    let r := s.afterAll operations
    let m := r.machine
    let reply := m.fire event r.world
    let question (answer : Option Refusal) (p : ObserverId × Observer W S E) :
        ObserverId × Notice S E := (p.1, .asked s.machine.name event m.inconsistency answer)
    (∃ before p after refusal, m.observers = before ++ p :: after ∧
        reply.answer = .error refusal ∧ s.notices (operations ++ [.fire event]) =
          s.notices operations ++ (before.map (question none) ++ [question (some refusal) p])) ∨
      ∃ reaction, reply.answer = .ok reaction ∧ s.notices (operations ++ [.fire event]) =
        s.notices operations ++ (m.observers.map (question none) ++
          m.observers.map fun p => (p.1, .fired s.machine.name event reaction)) := by
  obtain ⟨htaps, hbefore, hafter⟩ := s.notices_concat operations (.fire event)
  rw [hafter, hbefore, ← s.afterAll_name operations]
  exact (htaps.fire ha event).2

theorem notices_quiet (s : Session W S O E) (operations : List (Operation W S O E))
    {operation : Operation W S O E} (hr : operation ≠ .reset)
    (hf : ∀ event, operation ≠ .fire event) :
    s.notices (operations ++ [operation]) = s.notices operations := by
  obtain ⟨htaps, hbefore, hafter⟩ := s.notices_concat operations operation
  rw [hafter, hbefore]
  exact (htaps.quiet operation hr hf).2

/-- What observers are called for, after any operations. Those are registered whom the run has
registered and not removed since, in the order of their registration, and no number is given out
twice. A reset tells each of them once. An event is not noticed by any of them before the first
reset; after it they are asked in order, up to one that refuses. If none does, each of them is told
the reaction once. -/
theorem observers_notified (t : Tree S O E) (name id : String) (owner : O) (world : W)
    (operations : List (Operation W S O E)) :
    let start := idle t name id owner world
    let s := start.afterAll operations
    let m := s.machine
    let restarted := m.reset s.world
    let made (operation : Operation W S O E) (calls : Tape S E) : Prop :=
      start.notices (operations ++ [operation]) = start.notices operations ++ calls
    let question (event : E) (answer : Option Refusal) (p : ObserverId × Observer W S E) :
        ObserverId × Notice S E := (p.1, .asked name event m.inconsistency answer)
    let standing (n : ObserverId) (o : Observer W S E) : Prop :=
      ∃ before after, operations = before ++ .register o :: after ∧
        ((start.afterAll before).machine.register o).2 = n ∧ .unregister n ∉ after
    -- writing the calls down changes nothing
    (start.tapped.afterAll (Operation.tapAll start.machine.next operations)).Taps s ∧
    -- numbers
    (start.given operations).Nodup ∧
    (∀ n ∈ start.given operations, n.number < operations.countP Operation.isRegistration) ∧
    (m.observers.map Prod.fst).Sublist (start.given operations) ∧
    (∀ n o, (n, o) ∈ m.observers ↔ standing n o) ∧
    (∀ n, m.isRegistered n = true ↔ ∃ o, standing n o) ∧
    (∀ n,
      let removed := m.unregister n
      (removed.2 = true ↔ ∃ o, standing n o) ∧ removed.1.isRegistered n = false ∧
        removed.1.toMachine = m.toMachine ∧
        ∀ p, p ∈ removed.1.observers ↔ p ∈ m.observers ∧ p.1 ≠ n) ∧
    -- calls
    made .reset (m.observers.map fun p =>
      (p.1, .wasReset name restarted.machine.activeStates restarted.answer)) ∧
    (∀ event,
      let answer := (m.fire event s.world).answer
      (.reset ∉ operations ∧ answer = .error (.notAlive name) ∧ made (.fire event) []) ∨
      (.reset ∈ operations ∧ ∃ before p after refusal, m.observers = before ++ p :: after ∧
        answer = .error refusal ∧ made (.fire event)
          (before.map (question event none) ++ [question event (some refusal) p])) ∨
      (.reset ∈ operations ∧ ∃ reaction, answer = .ok reaction ∧ made (.fire event)
        (m.observers.map (question event none) ++
          m.observers.map fun p => (p.1, .fired name event reaction)))) ∧
    ∀ operation, operation ≠ .reset → (∀ event, operation ≠ .fire event) → made operation [] := by
  intro start s m restarted made question standing
  have hname : m.name = name := start.afterAll_name operations
  have hstanding (n : ObserverId) (o : Observer W S E) : (n, o) ∈ m.observers ↔ standing n o := by
    rw [mem_observers_afterAll]
    exact or_iff_right fun h => List.not_mem_nil h.1
  have hregistered (n : ObserverId) : m.isRegistered n = true ↔ ∃ o, standing n o :=
    Observed.isRegistered_iff.trans (exists_congr (hstanding n))
  have halive : m.alive = true ↔ .reset ∈ operations := alive_iff rfl
  refine ⟨start.tapped_taps.afterAll operations, start.given_nodup operations, ?_, ?_, hstanding,
    hregistered, ?_, ?_, ?_, ?_⟩
  · intro n hn
    exact (given_lt hn).trans_eq (Nat.zero_add _)
  · exact start.observers_sublist operations
  · intro n
    obtain ⟨hanswer, hgone, hsame, hkept⟩ := m.unregister_spec n
    exact ⟨hanswer ▸ hregistered n, hgone, hsame, hkept⟩
  · exact start.notices_reset operations
  · intro event
    cases ha : m.alive with
    | false =>
      have hnever : .reset ∉ operations := fun hm => by
        rw [halive.mpr hm] at ha
        cases ha
      have hanswer : (m.fire event s.world).answer = .error (.notAlive name) := by
        rw [Observed.fire_dead ha, hname]
      exact Or.inl ⟨hnever, hanswer,
        (notices_fire_dead ha event).trans (List.append_nil _).symm⟩
    | true =>
      have hreset := halive.mp ha
      rcases notices_fire ha event with hrefused | hpassed
      · exact Or.inr (Or.inl ⟨hreset, hrefused⟩)
      · exact Or.inr (Or.inr ⟨hreset, hpassed⟩)
  · intro operation hr hf
    exact (start.notices_quiet operations hr hf).trans (List.append_nil _).symm

end Session

namespace Radio

/-- Of three observers the first is removed again; the others learn that the radio is switched on. -/
theorem switchedOn_noticed :
    let operations : List (Operation Gate Place (List String) Button) :=
      [.register Gate.observer, .register .silent, .unregister ⟨0⟩, .register .silent, .reset]
    let start : Session Gate Place (List String) Button :=
      .idle (.build .root declarations) "radio" "1" [] {}
    let s := start.afterAll operations
    let asked := .asked "radio" .power none none
    let told := .fired "radio" .power (.moved ⟨.off, .on, .off, .dab⟩)
    start.notices (operations ++ [.fire .power]) = start.notices operations ++
      [(⟨1⟩, asked), (⟨2⟩, asked), (⟨1⟩, told), (⟨2⟩, told)] ∧
    start.notices (operations ++ [.unregister ⟨1⟩]) = start.notices operations ++ [] ∧
    (s.machine.unregister ⟨1⟩).2 = true := by
  intro operations start s asked told
  have hanswer : (s.machine.fire .power s.world).answer =
      .ok (.moved ⟨.off, .on, .off, .dab⟩) := by decide +kernel
  have hkept : Operation.unregister ⟨1⟩ ∉ operations.drop 2 := by simp [operations]
  obtain ⟨_, _, _, _, _, _, hremoved, _, hfire, hquiet⟩ :=
    Session.observers_notified (.build Place.root declarations) "radio" "1" [] ({} : Gate) operations
  refine ⟨?_, hquiet _ nofun nofun, (hremoved ⟨1⟩).1.mpr ⟨.silent, [.register Gate.observer],
    _, rfl, rfl, hkept⟩⟩
  rcases hfire .power with
    ⟨hnever, _⟩ | ⟨_, _, _, _, refusal, _, hrefused, _⟩ | ⟨_, reaction, hreaction, hcalls⟩
  · exact absurd (by simp [operations]) hnever
  · cases hanswer.symm.trans hrefused
  · cases hanswer.symm.trans hreaction
    exact hcalls

end Radio

end StateTree
