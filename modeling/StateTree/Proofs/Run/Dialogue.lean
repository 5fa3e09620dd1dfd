import StateTree.Observer.Recorder
import StateTree.Observer.Reporter
import StateTree.Proofs.Run.Gate
import StateTree.Proofs.Run.Roster

/-!
What a run does to a machine, as distinct from its observers: the exchanges that a host has with the
machine. Observers can keep an event from it, but they cannot change anything else.
-/

namespace StateTree

variable {V W S O E : Type}

/-- What an operation is answered, where it is answered at all. -/
inductive Answer (S : Type)
  | reset (failure : Option (Failure S))
  | fired (result : Except Refusal (Reaction S))

/-- An operation with the machine that it finds, its answer, and the machine that it leaves. -/
structure Exchange (W S O E : Type) where
  before : Machine S O E
  operation : Operation W S O E
  answer : Option (Answer S)
  after : Machine S O E

/-- The same operation on a machine without observers, if it is one on the machine itself. -/
def Operation.bare? : Operation W S O E → Option (Operation Unit S O E)
  | .reset => some .reset
  | .fire event => some (.fire event)
  | .modifyOwner f => some (.modifyOwner f)
  | .register _ | .unregister _ | .elsewhere _ => none

theorem Operation.filterMap_bare?_beside {G : Type} (operations : List (Operation V S O E)) :
    (operations.map (Operation.beside (G := G))).filterMap Operation.bare? =
      operations.filterMap Operation.bare? := by
  rw [List.filterMap_map]
  congr 1
  funext operation
  cases operation <;> rfl

namespace Exchange

/-- The refusal of an event by an observer. A machine that was never reset has none that are asked. -/
def refusal? (x : Exchange W S O E) : Option Refusal :=
  match x.answer with
  | some (.fired (.error refusal)) => if x.before.alive then some refusal else none
  | _ => none

/-- The refusal of an event for the failure that the machine was left with before. -/
def blocked? [StateId S] [EventKind E] (x : Exchange W S O E) : Option Refusal :=
  match x.operation with
  | .fire event => x.before.inconsistency.map fun f =>
      .inconsistent x.before.name (EventKind.text event) f.text
  | _ => none

def bare? (x : Exchange W S O E) : Option (Exchange Unit S O E) :=
  x.operation.bare?.map fun operation => { x with operation := operation }

end Exchange

namespace Observer

/-- Never refuses an event. -/
def Permits (o : Observer W S E) : Prop :=
  ∀ machine event inconsistency world, (o.beforeFire machine event inconsistency world).2 = none

theorem permits_silent : (silent : Observer W S E).Permits := fun _ _ _ _ => rfl

theorem permits_recorder [EventKind E] : (Recorder.observer : Observer (Recorder S) S E).Permits :=
  fun _ _ _ _ => rfl

theorem permits_reporter [StateId S] [EventKind E] (r : Reporter) :
    (r.observer : Observer W S E).Permits :=
  fun _ _ _ _ => rfl

theorem Permits.zoom {o : Observer V S E} (h : o.Permits) (get : W → V) (set : V → W → W) :
    (o.zoom get set).Permits :=
  fun machine event inconsistency world => h machine event inconsistency (get world)

theorem permits_beside {G : Type} {operations : List (Operation V S O E)}
    (h : ∀ o, .register o ∈ operations → o.Permits) :
    ∀ o : Observer (G × V) S E, .register o ∈ operations.map Operation.beside → o.Permits := by
  intro o ho
  obtain ⟨operation, hm, he⟩ := List.mem_map.mp ho
  cases operation <;> cases he
  exact (h _ hm).zoom _ _

theorem consult_permits {os : List (Observer W S E)} (h : ∀ o ∈ os, o.Permits) (machine : String)
    (event : E) (inconsistency : Option (Failure S)) (world : W) :
    (consult machine event inconsistency os world).2 = none := by
  induction os generalizing world with
  | nil => rfl
  | cons o rest ih =>
    have ho := h o List.mem_cons_self machine event inconsistency world
    simp only [consult, ho]
    exact ih (fun q hq => h q (List.mem_cons_of_mem _ hq)) _

end Observer

namespace Observed

theorem permits_watchers {m : Observed W S O E} (h : ∀ p ∈ m.observers, p.2.Permits) :
    ∀ o ∈ m.watchers, o.Permits := by
  intro o ho
  obtain ⟨p, hp, rfl⟩ := List.mem_map.mp ho
  exact h p hp

/-- If no other observer refuses, the one with a part of the world to itself decides. -/
theorem Hosts.consult_decides {G : Type} {m : Observed (G × V) S O E} {id : ObserverId}
    {o : Observer G S E} (h : m.Hosts id o)
    (hothers : ∀ p ∈ m.observers, p.1 ≠ id → p.2.Permits) (event : E) (world : G × V) :
    (Observer.consult m.name event m.inconsistency m.watchers world).2 =
      (o.beforeFire m.name event m.inconsistency world.1).2 := by
  obtain ⟨_, before, after, hobservers, haside, hapart⟩ := h
  have hpermit : ∀ os : List (ObserverId × Observer (G × V) S E), os ⊆ before ++ after →
      ∀ q ∈ os.map Prod.snd, q.Permits := by
    intro os hsub q hq
    obtain ⟨p, hp, rfl⟩ := List.mem_map.mp hq
    refine hothers p ?_ (hapart p (hsub hp))
    rw [hobservers]
    rcases List.mem_append.mp (hsub hp) with hp | hp
    · exact List.mem_append_left _ hp
    · exact List.mem_append_right _ (List.mem_cons_of_mem _ hp)
  have hfirst : m.Aside before := fun p hp => haside p (List.mem_append_left _ hp)
  have hnone := Observer.consult_permits (hpermit before (List.subset_append_left _ _))
    m.name event m.inconsistency world
  have hworld := Observer.consult_beside m.name event m.inconsistency hfirst.watchers world
  rw [watchers, hobservers, List.map_append, List.map_cons, Observer.consult_append]
  simp only [hnone]
  rw [← hworld]
  generalize (Observer.consult m.name event m.inconsistency (before.map Prod.snd) world).1 = earlier
  -- those after the observer are asked only if it lets the event pass
  have hown : (o.alone (V := V)).beforeFire m.name event m.inconsistency earlier =
      (((o.beforeFire m.name event m.inconsistency earlier.1).1, earlier.2),
        (o.beforeFire m.name event m.inconsistency earlier.1).2) := rfl
  cases ho : (o.beforeFire m.name event m.inconsistency earlier.1).2 with
  | some refusal => simp only [Observer.consult, hown, ho]
  | none =>
    simp only [Observer.consult, hown, ho]
    exact Observer.consult_permits (hpermit after (List.subset_append_right _ _)) _ _ _ _

end Observed

namespace Session

variable [StateId S] [EventKind E]

def answer? (s : Session W S O E) : Operation W S O E → Option (Answer S)
  | .reset => some (.reset (s.machine.reset s.world).answer)
  | .fire event => some (.fired (s.machine.fire event s.world).answer)
  | .modifyOwner _ | .register _ | .unregister _ | .elsewhere _ => none

def exchange (s : Session W S O E) (operation : Operation W S O E) : Exchange W S O E :=
  ⟨s.machine.toMachine, operation, s.answer? operation, (s.after operation).machine.toMachine⟩

/-- The exchanges of a run, in order. -/
def dialogue (s : Session W S O E) : List (Operation W S O E) → List (Exchange W S O E)
  | [] => []
  | operation :: rest => s.exchange operation :: (s.after operation).dialogue rest

theorem mem_dialogue {s : Session W S O E} {operations : List (Operation W S O E)}
    {x : Exchange W S O E} :
    x ∈ s.dialogue operations ↔ ∃ before operation after,
      operations = before ++ operation :: after ∧ x = (s.afterAll before).exchange operation := by
  induction operations generalizing s with
  | nil => simp [dialogue]
  | cons first rest ih =>
    rw [dialogue, List.mem_cons, ih]
    constructor
    · rintro (rfl | ⟨before, operation, after, rfl, rfl⟩)
      · exact ⟨[], first, rest, rfl, rfl⟩
      · exact ⟨first :: before, operation, after, rfl, rfl⟩
    · rintro ⟨before, operation, after, hops, rfl⟩
      cases before with
      | nil =>
        obtain ⟨rfl, rfl⟩ := List.cons.inj hops
        exact Or.inl rfl
      | cons _ before =>
        obtain ⟨rfl, rfl⟩ := List.cons.inj hops
        exact Or.inr ⟨before, operation, after, rfl, rfl⟩

theorem operations_dialogue (s : Session W S O E) (operations : List (Operation W S O E)) :
    (s.dialogue operations).map Exchange.operation = operations := by
  induction operations generalizing s with
  | nil => rfl
  | cons operation rest ih => exact congrArg (operation :: ·) (ih _)

theorem refusal?_dead {s : Session W S O E} (ha : s.machine.alive = false) (event : E) :
    (s.exchange (.fire event)).refusal? = none := by
  simp [exchange, Exchange.refusal?, answer?, Observed.fire_dead ha, ha]

/-- The refusal of an event is the answer of the observers of a machine that is alive. -/
theorem refusal?_alive {s : Session W S O E} (ha : s.machine.alive = true) (event : E) :
    (s.exchange (.fire event)).refusal? = (Observer.consult s.machine.name event
      s.machine.inconsistency s.machine.watchers s.world).2 := by
  cases hc : (Observer.consult s.machine.name event s.machine.inconsistency
      s.machine.watchers s.world).2 with
  | some refusal => simp [exchange, Exchange.refusal?, answer?, Observed.fire_refused ha hc, ha]
  | none => simp [exchange, Exchange.refusal?, answer?, Observed.fire_passed ha hc]

/-- The session `b` has the machine of `s`, and nobody observes it. -/
structure Bares (b : Session Unit S O E) (s : Session W S O E) : Prop where
  machine : b.machine.toMachine = s.machine.toMachine
  unobserved : b.machine.observers = []

section

variable {b : Session Unit S O E} {s : Session W S O E} (h : b.Bares s)

include h

theorem Bares.fire (event : E) (hpassed : (s.exchange (.fire event)).refusal? = none) :
    (b.machine.fire event b.world).answer = (s.machine.fire event s.world).answer ∧
      (b.machine.fire event b.world).machine.toMachine =
        (s.machine.fire event s.world).machine.toMachine := by
  obtain ⟨hmachine, hempty⟩ := h
  cases ha : s.machine.alive with
  | false =>
    have hdead : b.machine.alive = false := by rw [hmachine, ha]
    rw [Observed.fire_dead ha, Observed.fire_dead hdead, hmachine]
    exact ⟨rfl, rfl⟩
  | true =>
    have halive : b.machine.alive = true := by rw [hmachine, ha]
    -- nobody is asked, so nobody refuses
    have hnobody : (Observer.consult b.machine.name event b.machine.inconsistency
        b.machine.watchers b.world).2 = none := by
      rw [Observed.watchers, hempty]
      rfl
    rw [Observed.fire_passed ha ((refusal?_alive ha event).symm.trans hpassed),
      Observed.fire_passed halive hnobody, hmachine]
    exact ⟨rfl, rfl⟩

theorem Bares.exchange_eq {operation : Operation W S O E} {same : Operation Unit S O E}
    (hbare : operation.bare? = some same) (hnext : (b.after same).Bares (s.after operation))
    (hanswer : b.answer? same = s.answer? operation) :
    (s.exchange operation).bare? = some (b.exchange same) := by
  have hop : (s.exchange operation).operation.bare? = some same := hbare
  rw [Exchange.bare?, hop, Session.exchange, Session.exchange, h.machine, hnext.machine, hanswer]
  rfl

/-- What no observer refuses does the same to a machine that nobody observes. -/
theorem Bares.heard {operation : Operation W S O E}
    (hpassed : (s.exchange operation).refusal? = none) :
    (operation.bare? = none → b.Bares (s.after operation)) ∧
      ∀ same, operation.bare? = some same →
        (s.exchange operation).bare? = some (b.exchange same) ∧
          (b.after same).Bares (s.after operation) := by
  have hmachine := h.machine
  have hempty := h.unobserved
  cases operation with
  | reset =>
    have hreset : b.machine.toMachine.reset = s.machine.toMachine.reset := by rw [hmachine]
    have hnext : (b.after .reset).Bares (s.after .reset) :=
      ⟨congrArg (fun r => r.machine) hreset, hempty⟩
    have hanswer : b.answer? .reset = s.answer? .reset := by
      change some (Answer.reset b.machine.toMachine.reset.answer) = _
      rw [hreset]
      rfl
    refine ⟨nofun, ?_⟩
    rintro _ ⟨⟩
    exact ⟨h.exchange_eq rfl hnext hanswer, hnext⟩
  | fire event =>
    obtain ⟨hsame, hafter⟩ := h.fire event hpassed
    have hnext : (b.after (.fire event)).Bares (s.after (.fire event)) :=
      ⟨hafter, (b.machine.fire_roster event b.world).1.trans hempty⟩
    have hanswer : b.answer? (.fire event) = s.answer? (.fire event) :=
      congrArg (fun answer => some (Answer.fired answer)) hsame
    refine ⟨nofun, ?_⟩
    rintro _ ⟨⟩
    exact ⟨h.exchange_eq rfl hnext hanswer, hnext⟩
  | modifyOwner f =>
    have hnext : (b.after (.modifyOwner f)).Bares (s.after (.modifyOwner f)) :=
      ⟨congrArg (Machine.modifyOwner f) hmachine, hempty⟩
    refine ⟨nofun, ?_⟩
    rintro _ ⟨⟩
    exact ⟨h.exchange_eq rfl hnext rfl, hnext⟩
  | register o => exact ⟨fun _ => ⟨hmachine, hempty⟩, nofun⟩
  | unregister id => exact ⟨fun _ => ⟨hmachine, hempty⟩, nofun⟩
  | elsewhere f => exact ⟨fun _ => ⟨hmachine, hempty⟩, nofun⟩

/-- An observer that refuses an event keeps it from the machine. -/
theorem Bares.refused {operation : Operation W S O E} {refusal : Refusal}
    (hrefused : (s.exchange operation).refusal? = some refusal) : b.Bares (s.after operation) := by
  cases operation with
  | fire event =>
    rcases s.machine.fire_cases event s.world with ⟨hm, _⟩ | ⟨_, _, _, hanswer⟩
    · refine ⟨h.machine.trans ?_, h.unobserved⟩
      exact (congrArg (fun m => m.toMachine) hm).symm
    · simp [exchange, Exchange.refusal?, answer?, hanswer] at hrefused
  | reset => cases hrefused
  | modifyOwner f => cases hrefused
  | register o => cases hrefused
  | unregister id => cases hrefused
  | elsewhere f => cases hrefused

/-- Observers do nothing to a machine but keep events from it: what they let pass goes as if nobody
observed the machine and the other events had not been fired. -/
theorem Bares.dialogue (operations : List (Operation W S O E)) :
    let heard := (s.dialogue operations).filter fun x => x.refusal?.isNone
    let asked := heard.filterMap fun x => x.operation.bare?
    heard.filterMap Exchange.bare? = b.dialogue asked ∧
      (b.afterAll asked).Bares (s.afterAll operations) := by
  induction operations generalizing b s with
  | nil => exact ⟨rfl, h⟩
  | cons operation rest ih =>
    intro heard asked
    have hheard : heard = (if (s.exchange operation).refusal?.isNone then [s.exchange operation]
        else []) ++ ((s.after operation).dialogue rest).filter fun x => x.refusal?.isNone := by
      simp only [heard, Session.dialogue, List.filter_cons]
      split <;> rfl
    cases hx : (s.exchange operation).refusal? with
    | some refusal =>
      -- a refused event is left out, and the machine is as it was
      rw [hx] at hheard
      simp only [asked, hheard]
      exact ih (h.refused hx)
    | none =>
      rw [hx] at hheard
      obtain ⟨haside, hsame⟩ := h.heard hx
      cases hbare : operation.bare? with
      | none =>
        -- what is done to observers or elsewhere is left out as well
        have hnone : (s.exchange operation).bare? = none := by
          change Option.map _ operation.bare? = none
          rw [hbare]
          rfl
        have hop : (s.exchange operation).operation.bare? = none := hbare
        simp only [asked, hheard, Option.isNone_none, if_true, List.singleton_append,
          List.filterMap_cons, hnone, hop]
        exact ih (haside hbare)
      | some same =>
        obtain ⟨hexchange, hnext⟩ := hsame same hbare
        have hop : (s.exchange operation).operation.bare? = some same := hbare
        obtain ⟨hrest, hlast⟩ := ih hnext
        simp only [asked, hheard, Option.isNone_none, if_true, List.singleton_append,
          List.filterMap_cons, hexchange, hop, hrest]
        exact ⟨rfl, hlast⟩

end

theorem refusal?_permitted {s : Session W S O E} (h : ∀ p ∈ s.machine.observers, p.2.Permits)
    (operation : Operation W S O E) : (s.exchange operation).refusal? = none := by
  cases operation with
  | fire event =>
    cases ha : s.machine.alive with
    | false => exact refusal?_dead ha event
    | true =>
      rw [refusal?_alive ha]
      exact Observer.consult_permits (Observed.permits_watchers h) _ _ _ _
  | reset => rfl
  | modifyOwner f => rfl
  | register o => rfl
  | unregister id => rfl
  | elsewhere f => rfl

/-- Nothing is kept from a machine whose observers refuse nothing. -/
theorem Bares.permitted {b : Session Unit S O E} {s : Session W S O E} (h : b.Bares s)
    (hs : ∀ p ∈ s.machine.observers, p.2.Permits) {operations : List (Operation W S O E)}
    (hnew : ∀ o, .register o ∈ operations → o.Permits) :
    let asked := operations.filterMap Operation.bare?
    (s.dialogue operations).filterMap Exchange.bare? = b.dialogue asked ∧
      (b.afterAll asked).Bares (s.afterAll operations) := by
  intro asked
  have hheard : (s.dialogue operations).filter (fun x => x.refusal?.isNone) =
      s.dialogue operations := by
    rw [List.filter_eq_self]
    intro x hx
    obtain ⟨before, operation, after, rfl, rfl⟩ := mem_dialogue.mp hx
    have hnewer : ∀ o, .register o ∈ before → o.Permits :=
      fun o ho => hnew o (List.mem_append_left _ ho)
    rw [refusal?_permitted (forall_observers_afterAll hs fun o ho _ => hnewer o ho)]
    rfl
  have hasked : (s.dialogue operations).filterMap (fun x => x.operation.bare?) = asked := by
    have hoperations := congrArg (List.filterMap Operation.bare?) (s.operations_dialogue operations)
    rw [List.filterMap_map] at hoperations
    exact hoperations
  have hdialogue := h.dialogue operations
  simp only [hheard, hasked] at hdialogue
  exact hdialogue

/-- A machine that was never reset is consistent. -/
theorem consistent_of_dead {s : Session W S O E}
    (hs : s.machine.alive = false → s.machine.inconsistency = none)
    (operations : List (Operation W S O E)) :
    let m := (s.afterAll operations).machine
    m.alive = false → m.inconsistency = none := by
  refine afterAll_keeps (P := fun m => m.alive = false → m.inconsistency = none) ?_ ?_ ?_ hs
  · intro _ m _ ha
    cases ha
  · intro m event halive _ ha
    cases halive.symm.trans ha
  · intro m f h
    exact h

/-- A gate that registers while nobody has its world is new to its machine. -/
theorem gate_registered (t : Tree S O E) (name id : String) (owner : O) (world : V)
    (operations : List (Operation V S O E)) :
    let opened := (idle t name id owner (({} : Gate), world)).afterAll
      (operations.map Operation.beside)
    let gate := (opened.machine.register Gate.observer.alone).2
    let guarded := opened.after (.register Gate.observer.alone)
    guarded.machine.Hosts gate Gate.observer ∧
      guarded.world.1.Agrees guarded.machine.inconsistency := by
  intro opened gate guarded
  have hempty : (Observed.idle t name id owner : Observed (Gate × V) S O E).Aside [] :=
    fun p hp => absurd hp List.not_mem_nil
  obtain ⟨haside, hfresh⟩ := afterAll_aside (s := idle t name id owner (({} : Gate), world)) hempty
    operations
  refine ⟨Observed.hosts_register haside _, Or.inl ?_⟩
  change opened.world.1.cause = none
  rw [hfresh]
  rfl

/-- The observers of a guarded machine refuse an event exactly if it is inconsistent. -/
theorem refusal?_gated {s : Session (Gate × V) S O E} {gate : ObserverId}
    (hs : s.machine.Hosts gate Gate.observer) (hg : s.world.1.Agrees s.machine.inconsistency)
    (hothers : ∀ p ∈ s.machine.observers, p.1 ≠ gate → p.2.Permits)
    (hdead : s.machine.alive = false → s.machine.inconsistency = none) (event : E) :
    (s.exchange (.fire event)).refusal? = s.machine.inconsistency.map fun f =>
      .inconsistent s.machine.name (EventKind.text event) f.text := by
  cases ha : s.machine.alive with
  | false => rw [refusal?_dead ha, hdead ha, Option.map_none]
  | true => rw [refusal?_alive ha, hs.consult_decides hothers, hg.asked]

/-- Where a gate is the only observer that refuses, it is the failure of the machine that decides. -/
theorem refusal?_guarded {s : Session (Gate × V) S O E} {gate : ObserverId}
    (hs : s.machine.Hosts gate Gate.observer) (hg : s.world.1.Agrees s.machine.inconsistency)
    (hothers : ∀ p ∈ s.machine.observers, p.1 ≠ gate → p.2.Permits)
    (hdead : s.machine.alive = false → s.machine.inconsistency = none)
    {operations : List (Operation V S O E)} (hkept : Operation.unregister gate ∉ operations)
    (hnew : ∀ o, .register o ∈ operations → o.Permits) :
    ∀ x ∈ s.dialogue (operations.map Operation.beside), x.refusal? = x.blocked? := by
  intro x hx
  obtain ⟨before, operation, after, hops, rfl⟩ := mem_dialogue.mp hx
  obtain ⟨earlier, rest, rfl, rfl, hrest⟩ := List.map_eq_append_iff.mp hops
  obtain ⟨operation, _, rfl, rfl, _⟩ := List.map_eq_cons_iff.mp hrest
  -- the event finds what the operations before it have left
  cases operation with
  | fire event =>
    have hearlier : ∀ o, .register o ∈ earlier → o.Permits :=
      fun o ho => hnew o (List.mem_append_left _ ho)
    obtain ⟨hnext, hagrees⟩ := afterAll_agrees hs hg fun hm => hkept (List.mem_append_left _ hm)
    exact refusal?_gated hnext hagrees
      (forall_observers_afterAll hothers fun o ho _ _ => Observer.permits_beside hearlier o ho)
      (consistent_of_dead hdead _) event
  | reset => rfl
  | modifyOwner f => rfl
  | register o => rfl
  | unregister other => rfl
  | elsewhere f => rfl

/-- Observers that refuse no event, as recorders and reporters, change nothing: the machine is asked
the same, answers the same and is left the same as if nobody observed it, whoever is registered or
removed in between. Where a gate is registered among them, the events that find the machine
inconsistent are refused, and all else goes as if nobody observed the machine and those events had
not been fired. -/
theorem observers_only_veto (t : Tree S O E) (name id : String) (owner : O) :
    let bare : Session Unit S O E := idle t name id owner ()
    ((Observer.silent : Observer W S E).Permits ∧
      (Recorder.observer : Observer (Recorder S) S E).Permits ∧
      ∀ r : Reporter, (r.observer : Observer W S E).Permits) ∧
    (∀ (world : W) (operations : List (Operation W S O E)),
      (∀ o, .register o ∈ operations → o.Permits) →
      let start := idle t name id owner world
      let asked := operations.filterMap Operation.bare?
      (start.dialogue operations).filterMap Exchange.bare? = bare.dialogue asked ∧
        (start.afterAll operations).machine.toMachine = (bare.afterAll asked).machine.toMachine) ∧
    ∀ (world : V) (earlier later : List (Operation V S O E)),
      (∀ o, .register o ∈ earlier ++ later → o.Permits) →
      let opened := (idle t name id owner (({} : Gate), world)).afterAll
        (earlier.map Operation.beside)
      let gate := (opened.machine.register Gate.observer.alone).2
      Operation.unregister gate ∉ later →
      let guarded := opened.after (.register Gate.observer.alone)
      let exchanges := guarded.dialogue (later.map Operation.beside)
      let heard := exchanges.filter fun x => x.refusal?.isNone
      let plain := bare.afterAll (earlier.filterMap Operation.bare?)
      let asked := heard.filterMap fun x => x.operation.bare?
      (∀ x ∈ exchanges, x.refusal? = x.blocked?) ∧
        heard.filterMap Exchange.bare? = plain.dialogue asked ∧
        (guarded.afterAll (later.map Operation.beside)).machine.toMachine =
          (plain.afterAll asked).machine.toMachine := by
  intro bare
  have hbares {W : Type} (world : W) : bare.Bares (idle t name id owner world) := ⟨rfl, rfl⟩
  refine ⟨⟨Observer.permits_silent, Observer.permits_recorder, Observer.permits_reporter⟩, ?_, ?_⟩
  · intro world operations hpermit start asked
    obtain ⟨hdialogue, hlast⟩ := (hbares world).permitted (fun _ hp => nomatch hp) hpermit
    exact ⟨hdialogue, hlast.machine.symm⟩
  · intro world earlier later hpermit opened gate hkept guarded exchanges heard plain asked
    have hearlier : ∀ o, .register o ∈ earlier → o.Permits :=
      fun o ho => hpermit o (List.mem_append_left _ ho)
    -- up to the registration of the gate nobody refuses anything
    have hnobody : ∀ p ∈ (idle t name id owner (({} : Gate), world)).machine.observers,
        p.2.Permits := fun _ hp => nomatch hp
    obtain ⟨_, hopened⟩ := (hbares (({} : Gate), world)).permitted hnobody
      (Observer.permits_beside hearlier)
    rw [Operation.filterMap_bare?_beside] at hopened
    have hplain : plain.Bares guarded := ⟨hopened.machine, hopened.unobserved⟩
    obtain ⟨hdialogue, hlast⟩ := hplain.dialogue (later.map Operation.beside)
    refine ⟨?_, hdialogue, hlast.machine.symm⟩
    obtain ⟨hs, hg⟩ := gate_registered t name id owner world earlier
    have hothers : ∀ p ∈ guarded.machine.observers, p.1 ≠ gate → p.2.Permits := by
      intro p hp hne
      rcases List.mem_append.mp hp with hp | hp
      · exact forall_observers_afterAll (P := fun p => p.2.Permits) hnobody
          (fun o ho _ => Observer.permits_beside hearlier o ho) p hp
      · exact absurd (congrArg Prod.fst (List.mem_singleton.mp hp)) hne
    have hdead : opened.machine.alive = false → opened.machine.inconsistency = none :=
      consistent_of_dead (fun _ => rfl) _
    exact refusal?_guarded hs hg hothers hdead hkept
      fun o ho => hpermit o (List.mem_append_right _ ho)

end Session

namespace Radio

/-- A gate keeps one event from a radio that has jammed; the others go as they go without it. -/
theorem jammed_vetoed :
    let earlier : List (Operation Unit Place (List String) Button) := [.reset]
    let later : List (Operation Unit Place (List String) Button) :=
      [.register .silent, .fire .band, .fire .power, .reset, .fire .power]
    let bare : Session Unit Place (List String) Button :=
      .idle (.build .root nested) "radio" "1" [] ()
    let start : Session (Gate × Unit) Place (List String) Button :=
      .idle (.build .root nested) "radio" "1" [] ({}, ())
    let opened := start.afterAll (earlier.map Operation.beside)
    let gate := (opened.machine.register Gate.observer.alone).2
    let guarded := opened.after (.register Gate.observer.alone)
    let exchanges := guarded.dialogue (later.map Operation.beside)
    let heard := exchanges.filter fun x => x.refusal?.isNone
    let plain := bare.afterAll (earlier.filterMap Operation.bare?)
    let asked := heard.filterMap fun x => x.operation.bare?
    (∀ o, .register o ∈ earlier ++ later → o.Permits) ∧ Operation.unregister gate ∉ later ∧
      exchanges.map Exchange.refusal? = [none, none,
        some (.inconsistent "radio" "Power" "entry action of state On failed: jammed"), none,
        none] ∧
      heard.filterMap Exchange.bare? = plain.dialogue asked ∧
      (guarded.afterAll (later.map Operation.beside)).machine.toMachine =
        (plain.afterAll asked).machine.toMachine := by
  intro earlier later bare start opened gate guarded exchanges heard plain asked
  have hpermit : ∀ o, .register o ∈ earlier ++ later → o.Permits := by
    intro o ho
    have hsilent : o = .silent := by simpa [earlier, later] using ho
    rw [hsilent]
    exact Observer.permits_silent
  have hkept : Operation.unregister gate ∉ later := by simp [later]
  have hrefusals : exchanges.map Exchange.refusal? = [none, none,
      some (.inconsistent "radio" "Power" "entry action of state On failed: jammed"), none,
      none] := by decide +kernel
  obtain ⟨_, hdialogue, hlast⟩ := (Session.observers_only_veto (W := Unit)
    (.build Place.root nested) "radio" "1" []).2.2 () earlier later hpermit hkept
  with_reducible exact ⟨hpermit, hkept, hrefusals, hdialogue, hlast⟩

end Radio

end StateTree
