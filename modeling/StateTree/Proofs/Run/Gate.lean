import StateTree.Observer.Gate
import StateTree.Proofs.Run.Beside
import StateTree.Proofs.Run.Failures
import StateTree.Proofs.Run.Survival

/-!
A gate over runs. It may come late, and it may not be told of an event that another observer
refuses, so it need not know of the failure that the machine was left with. But it never knows of
another one, and it asks before it answers: it refuses the events of an inconsistent machine, and no
others.
-/

namespace StateTree

variable {V S O E : Type} [StateId S]

namespace Gate

/-- The gate knows of no failure, or of the one that the machine was left with. -/
def Agrees (g : Gate) (inconsistency : Option (Failure S)) : Prop :=
  g.cause = none ∨ g.cause = inconsistency.map Failure.text

variable [EventKind E] {g : Gate} {inconsistency : Option (Failure S)}

/-- An agreeing gate knows of the failure once it has been asked, and refuses for it. -/
theorem Agrees.asked (h : g.Agrees inconsistency) (machine : String) (event : E) :
    observer.beforeFire machine event inconsistency g =
      (⟨inconsistency.map Failure.text⟩,
        inconsistency.map fun f => .inconsistent machine (EventKind.text event) f.text) := by
  have hcause : (g.cause <|> inconsistency.map Failure.text) = inconsistency.map Failure.text := by
    rcases h with h | h
    · rw [h]
      rfl
    · rw [h]
      cases inconsistency with
      | none => rfl
      | some f => rfl
  change (Gate.mk _, Option.map _ _) = _
  rw [hcause, Option.map_map]
  rfl

/-- A gate that let an event pass agrees with what comes of it. -/
theorem fired_agrees (machine : String) (event : E) (reaction : Reaction S) :
    (observer.fired machine event reaction ⟨none⟩).1.Agrees (Machine.carry none reaction) := by
  cases reaction with
  | ignored => exact Or.inl rfl
  | stayed id => exact Or.inl rfl
  | moved move => exact Or.inl rfl
  | failed f =>
    apply Or.inr
    -- the gate and the machine tell the failures that matter apart by the same test
    cases hf : f.leavesConsistent with
    | false => simp [observer, Machine.carry, hf]
    | true => simp [observer, Machine.carry, hf]

end Gate

namespace Session

variable [EventKind E] {s : Session (Gate × V) S O E} {gate : ObserverId}
  {operations : List (Operation V S O E)}

/-- Every run keeps a gate in agreement with its machine. -/
theorem afterAll_agrees (hs : s.machine.Hosts gate Gate.observer)
    (hg : s.world.1.Agrees s.machine.inconsistency)
    (hn : Operation.unregister gate ∉ operations) :
    let next := s.afterAll (operations.map Operation.beside)
    next.machine.Hosts gate Gate.observer ∧ next.world.1.Agrees next.machine.inconsistency := by
  apply hosts_keeps (P := fun m g => g.Agrees m.inconsistency) ?_ ?_ ?_ ?_ hs hg hn
  · intro _ m g _
    exact Or.inr rfl
  · intro m event g h
    rw [h.asked]
    exact Or.inr rfl
  · intro m event g h asked hpassed
    -- a gate that lets the event pass has seen a consistent machine
    have hasked : asked = _ := h.asked m.name event
    rw [hasked] at hpassed ⊢
    have hconsistent : m.inconsistency = none := Option.map_eq_none_iff.mp hpassed
    rw [hconsistent]
    have hnext : (m.react event).machine.inconsistency =
        Machine.carry none (m.react event).answer := by
      rw [← hconsistent]
      rfl
    rw [hnext]
    exact Gate.fired_agrees m.name event _
  · intro m f g h
    exact h

/-- Without a reset, a machine with a gate keeps its failure, and the gate what it knows of it. -/
theorem afterAll_sticks (hs : s.machine.Hosts gate Gate.observer)
    (hg : s.world.1.Agrees s.machine.inconsistency) {f : Failure S}
    (hf : s.machine.inconsistency = some f) (hn : Operation.unregister gate ∉ operations)
    (hr : Operation.reset ∉ operations) :
    let next := s.afterAll (operations.map Operation.beside)
    next.machine.inconsistency = some f ∧
      (s.world.1.cause = some f.text → next.world.1.cause = some f.text) := by
  intro next
  let Kept (m : Machine S O E) (g : Gate) : Prop :=
    g.Agrees m.inconsistency ∧ m.inconsistency = some f ∧
      (s.world.1.cause = some f.text → g.cause = some f.text)
  have hkept : next.machine.Hosts gate Gate.observer ∧
      Kept next.machine.toMachine next.world.1 := by
    apply hosts_keeps ?_ ?_ ?_ ?_ hs ⟨hg, hf, id⟩ hn
    · intro hm
      exact absurd hm hr
    · intro m event g ⟨hagrees, hm, _⟩
      rw [hagrees.asked, hm]
      exact ⟨Or.inr (hm ▸ rfl), hm, fun _ => rfl⟩
    · intro m event g ⟨hagrees, hm, _⟩ asked hpassed
      -- the gate does not let the event pass
      have hasked : asked = _ := hagrees.asked m.name event
      rw [hasked, hm] at hpassed
      cases hpassed
    · intro m _ g h
      exact h
  exact hkept.2.2

/-- Where a gate that agrees with its machine is asked, it refuses for the failure left behind. -/
theorem answer_of_agrees (hs : s.machine.Hosts gate Gate.observer)
    (hg : s.world.1.Agrees s.machine.inconsistency) {event : E} {answer : Option Refusal}
    (h : s.machine.answerOf? gate event s.world = some answer) :
    answer = s.machine.inconsistency.map fun f =>
      .inconsistent s.machine.name (EventKind.text event) f.text := by
  have hasked := hg.asked s.machine.name event
  rcases hs.fire event s.world with ⟨hnone, _⟩ | ⟨hown, _⟩ | ⟨hown, hpassed, _⟩
  · cases h.symm.trans hnone
  · rw [hasked] at hown
    exact Option.some.inj (h.symm.trans hown)
  · rw [hasked] at hpassed
    exact (Option.some.inj (h.symm.trans hown)).trans hpassed.symm

/-- An event to which a machine with an agreeing gate reacts was let pass, and found it
consistent. -/
theorem consistent_of_fired (hs : s.machine.Hosts gate Gate.observer)
    (hg : s.world.1.Agrees s.machine.inconsistency) {event : E} {reaction : Reaction S}
    (h : (s.machine.fire event s.world).answer = .ok reaction) :
    s.machine.answerOf? gate event s.world = some none ∧ s.machine.inconsistency = none := by
  rcases hs.fire event s.world with
    ⟨_, _, _, refusal, hr⟩ | ⟨_, _, _, refusal, hr, _⟩ | ⟨hown, _⟩
  · cases h.symm.trans hr
  · cases h.symm.trans hr
  · have hnone := answer_of_agrees hs hg hown
    exact ⟨hown, Option.map_eq_none_iff.mp hnone.symm⟩

/-- A gate that is registered at any time, and not removed, refuses the events of an inconsistent
machine and no others; the refusal names the failure that was left behind. So the machine keeps its
failure until a reset, and after a reset that succeeds the gate lets all events pass until a
crossing is interrupted. -/
theorem gate_refuses_inconsistent [DecidableEq S] (root : S)
    (declarations : List (Declaration S O E)) (name id : String) (owner : O) (world : V)
    (earlier later : List (Operation V S O E)) :
    let opened := (idle (.build root declarations) name id owner (({} : Gate), world)).afterAll
      (earlier.map Operation.beside)
    let gate := (opened.machine.register Gate.observer.alone).2
    let guarded := opened.after (.register Gate.observer.alone)
    let s := guarded.afterAll (later.map Operation.beside)
    let m := s.machine
    Operation.unregister gate ∉ later →
      m.isRegistered gate = true ∧
      (∀ event answer, m.answerOf? gate event s.world = some answer →
        answer = m.inconsistency.map fun f =>
          .inconsistent name (EventKind.text event) f.text) ∧
      (∀ event refusal, m.answerOf? gate event s.world = some (some refusal) →
        (m.fire event s.world).answer = .error refusal) ∧
      (∀ event reaction, (m.fire event s.world).answer = .ok reaction →
        m.answerOf? gate event s.world = some none) ∧
      (m.inconsistency ≠ none → ∀ event,
        let reply := m.fire event s.world
        reply.machine = m ∧ reply.trail = [] ∧ ∃ refusal, reply.answer = .error refusal) ∧
      (∀ more : List (Operation V S O E), Operation.unregister gate ∉ more →
        Operation.reset ∉ more →
        let next := s.afterAll (more.map Operation.beside)
        (∀ f, m.inconsistency = some f → next.machine.inconsistency = some f) ∧
          ∀ text, s.world.1.cause = some text → next.world.1.cause = some text) ∧
      ((m.reset s.world).answer = none → ∀ calm : List (Operation V S O E),
        Operation.unregister gate ∉ calm →
        (∀ f ∈ (s.after .reset).failures (calm.map Operation.beside),
          f.phase ≠ .exit ∧ f.phase ≠ .action ∧ f.phase ≠ .entry) →
        let next := (s.after .reset).afterAll (calm.map Operation.beside)
        next.machine.inconsistency = none ∧ ∀ event answer,
          next.machine.answerOf? gate event next.world = some answer → answer = none) := by
  intro opened gate guarded s m hlater
  have ht : Tree.Sound (.build root declarations : Tree S O E) := Tree.build_sound root declarations
  -- nobody has the world of the gate before it is registered, so it is as fresh as it began
  have hempty : (Observed.idle (.build root declarations : Tree S O E) name id owner :
      Observed (Gate × V) S O E).Aside [] := fun p hp => absurd hp List.not_mem_nil
  obtain ⟨haside, hfresh⟩ := afterAll_aside
    (s := idle (.build root declarations) name id owner (({} : Gate), world)) hempty earlier
  have hguarded : guarded.machine.Hosts gate Gate.observer := Observed.hosts_register haside _
  have hunaware : guarded.world.1.Agrees guarded.machine.inconsistency := by
    apply Or.inl
    change opened.world.1.cause = none
    rw [hfresh]
    rfl
  obtain ⟨hs, hg⟩ := afterAll_agrees hguarded hunaware hlater
  have hname : m.name = name := by
    rw [afterAll_name]
    exact afterAll_name _ _
  have hopened : opened.machine.toMachine.Over (.build root declarations) :=
    afterAll_over ht name id owner _ _
  have hover : m.toMachine.Over (.build root declarations) :=
    over_afterAll (s := guarded) ht hopened _
  refine ⟨hs.isRegistered, ?_, ?_, ?_, ?_, ?_, ?_⟩
  · intro event answer h
    rw [← hname]
    exact answer_of_agrees hs hg h
  · intro event refusal h
    rcases hs.fire event s.world with ⟨hnone, _⟩ | ⟨hown, _, _, _, hr, hsame⟩ | ⟨hown, _⟩
    · cases h.symm.trans hnone
    · rw [hr, hsame refusal (Option.some.inj (hown.symm.trans h))]
    · cases h.symm.trans hown
  · intro event reaction h
    exact (consistent_of_fired hs hg h).1
  · intro hinconsistent event reply
    rcases m.fire_cases event s.world with hrefused | ⟨_, _, _, hr⟩
    · exact hrefused
    · exact absurd (consistent_of_fired hs hg hr).2 hinconsistent
  · intro more hmore hreset next
    refine ⟨fun f hf => (afterAll_sticks hs hg hf hmore hreset).1, ?_⟩
    intro text htext
    -- the cause is that of the failure the machine was left with
    have hsome : m.inconsistency.map Failure.text = some text := by
      rcases hg with hg | hg
      · cases htext.symm.trans hg
      · exact hg.symm.trans htext
    obtain ⟨f, hf, rfl⟩ := Option.map_eq_some_iff.mp hsome
    exact (afterAll_sticks hs hg hf hmore hreset).2 htext
  · intro hclean calm hcalm hfailures next
    have hkept : Operation.unregister gate ∉ [(.reset : Operation V S O E)] := by simp
    have hreset := afterAll_agrees hs hg hkept
    obtain ⟨hnext, hagrees⟩ := afterAll_agrees hreset.1 hreset.2 hcalm
    have hconsistent : next.machine.inconsistency = none := by
      apply inconsistency_of_calm ht (over_afterAll ht hover [.reset]) hclean
      intro f hf
      exact f.leavesConsistent_iff.mpr (hfailures f hf)
    refine ⟨hconsistent, ?_⟩
    intro event answer h
    rw [answer_of_agrees hnext hagrees h]
    change next.machine.inconsistency.map _ = none
    rw [hconsistent]
    rfl

end Session

namespace Radio

/-- A gate that comes when the radio has jammed, and before an observer that refuses nothing. -/
theorem jammed_gated :
    let start : Session (Gate × Unit) Place (List String) Button :=
      .idle (.build .root nested) "radio" "1" [] ({}, ())
    let opened := start.afterAll ([.reset, .fire .band].map Operation.beside)
    let gate := (opened.machine.register Gate.observer.alone).2
    let later : List (Operation Unit Place (List String) Button) := [.register .silent, .fire .power]
    let s := (opened.after (.register Gate.observer.alone)).afterAll (later.map Operation.beside)
    let calm : List (Operation Unit Place (List String) Button) := [.fire .power]
    let next := (s.after .reset).afterAll (calm.map Operation.beside)
    let refusal := .inconsistent "radio" "Band" "entry action of state On failed: jammed"
    Operation.unregister gate ∉ later ∧
      s.machine.answerOf? gate .band s.world = some (some refusal) ∧
      (s.machine.fire .band s.world).answer = .error refusal ∧
      next.machine.answerOf? gate .band next.world = some none ∧
      next.machine.inconsistency = none := by
  intro start opened gate later s calm next refusal
  have hlater : Operation.unregister gate ∉ later := by simp [later]
  have hcalm : Operation.unregister gate ∉ calm := by simp [calm]
  have hrefused : s.machine.answerOf? gate .band s.world = some (some refusal) := by
    decide +kernel
  have hpassed : next.machine.answerOf? gate .band next.world = some none := by
    decide +kernel
  have hreset : (s.machine.reset s.world).answer = none := by
    decide +kernel
  have hfailures : ∀ f ∈ (s.after .reset).failures (calm.map Operation.beside),
      f.phase ≠ .exit ∧ f.phase ≠ .action ∧ f.phase ≠ .entry := by
    decide +kernel
  obtain ⟨_, _, hanswer, _, _, _, hclean⟩ :=
    Session.gate_refuses_inconsistent Place.root nested "radio" "1" [] () [.reset, .fire .band]
      later hlater
  -- both sides name the same runs, so none is carried out to compare them
  with_reducible
    exact ⟨hlater, hrefused, hanswer Button.band refusal hrefused, hpassed,
      (hclean hreset calm hcalm hfailures).1⟩

end Radio

end StateTree
