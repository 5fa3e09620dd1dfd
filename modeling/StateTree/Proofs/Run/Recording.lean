import StateTree.Proofs.Run.Dialogue
import StateTree.Proofs.Run.Failures
import StateTree.Proofs.Run.Quiet

/-!
What a recorder writes down. While it is registered, and nobody else writes into its journal, the
journal holds the moves since the last reset; and they lead from one current state to the next.
-/

namespace StateTree

variable {V W S O E : Type}

/-- The entries without their times. -/
def Journal.moves (j : Journal S) : List (String × Move S) := j.entries.map fun e => (e.event, e.move)

/-- What a recorder has written down. -/
def Recorder.written (world : Recorder S × V) : List (String × Move S) := world.1.journal.moves

def Reaction.move? : Reaction S → Option (Move S)
  | .moved move => some move
  | _ => none

/-- The text of an event that was answered by a move, and that move. -/
def Exchange.moved? [EventKind E] (x : Exchange W S O E) : Option (String × Move S) :=
  match x.operation, x.answer with
  | .fire event, some (.fired answer) =>
    (answer.toOption.bind Reaction.move?).map fun move => (EventKind.text event, move)
  | _, _ => none

/-- Of all reactions a recorder writes down the moves. -/
theorem Recorder.written_fired [EventKind E] (machine : String) (event : E) (reaction : Reaction S)
    (world : Recorder S × V) :
    written (Recorder.observer.alone.fired machine event reaction world).1 =
      written world ++ (reaction.move?.map fun move => (EventKind.text event, move)).toList := by
  cases reaction with
  | moved move =>
    simp [written, Journal.moves, Observer.alone, Observer.zoom, observer, Journal.add,
      Reaction.move?]
  | ignored => simp [written, Observer.alone, Observer.zoom, observer, Reaction.move?]
  | stayed state => simp [written, Observer.alone, Observer.zoom, observer, Reaction.move?]
  | failed f => simp [written, Observer.alone, Observer.zoom, observer, Reaction.move?]

namespace Observed

variable [EventKind E]

/-- A recorder has the number `id`, and nobody else writes into its journal. -/
structure Recorded (m : Observed (Recorder S × V) S O E) (id : ObserverId) : Prop where
  numbered : m.Numbered
  registered : (id, Recorder.observer.alone) ∈ m.observers
  others : ∀ p ∈ m.observers, p.1 ≠ id → p.2.Spares fun world => world.1.journal

namespace Recorded

variable {m : Observed (Recorder S × V) S O E} {id : ObserverId}

theorem watchers (h : m.Recorded id) : ∃ before after,
    m.watchers = before ++ Recorder.observer.alone :: after ∧
      ∀ o ∈ before ++ after, o.Spares Recorder.written := by
  obtain ⟨before, after, hsplit, hapart⟩ := h.numbered.split h.registered
  refine ⟨before.map Prod.snd, after.map Prod.snd, ?_, ?_⟩
  · rw [Observed.watchers, hsplit, List.map_append, List.map_cons]
  · intro o ho
    rw [← List.map_append] at ho
    obtain ⟨p, hp, rfl⟩ := List.mem_map.mp ho
    have hmem : p ∈ m.observers := by
      rw [hsplit]
      rcases List.mem_append.mp hp with hp | hp
      · exact List.mem_append_left _ hp
      · exact List.mem_append_right _ (List.mem_cons_of_mem _ hp)
    exact (h.others p hmem (hapart p hp)).map Journal.moves

/-- Nothing is written down of what observers are asked. -/
theorem consult (h : m.Recorded id) (event : E) (world : Recorder S × V) :
    Recorder.written (Observer.consult m.name event m.inconsistency m.watchers world).1 =
      Recorder.written world := by
  obtain ⟨before, after, hwatchers, hspare⟩ := h.watchers
  refine Observer.consult_spares m.name event m.inconsistency Recorder.written ?_ world
  intro o ho
  rw [hwatchers, List.mem_append, List.mem_cons] at ho
  rcases ho with ho | rfl | ho
  · exact (hspare o (List.mem_append_left _ ho)).beforeFire _ _ _
  · exact fun _ => rfl
  · exact (hspare o (List.mem_append_right _ ho)).beforeFire _ _ _

variable [StateId S]

/-- A reset clears the journal. -/
theorem reset (h : m.Recorded id) (world : Recorder S × V) :
    Recorder.written (m.reset world).world = [] := by
  obtain ⟨before, after, hwatchers, hspare⟩ := h.watchers
  change Recorder.written (Observer.notify _ m.watchers world).1 = _
  rw [hwatchers]
  refine Observer.notify_learns Recorder.written (fun _ => []) (fun _ => rfl) ?_ ?_ world
  · intro o ho
    exact (hspare o (List.mem_append_left _ ho)).wasReset _ _ _
  · intro o ho
    exact (hspare o (List.mem_append_right _ ho)).wasReset _ _ _

/-- An event is written down if it is answered by a move. -/
theorem fire (h : m.Recorded id) (event : E) (world : Recorder S × V) :
    let reply := m.fire event world
    Recorder.written reply.world = Recorder.written world ++
      ((reply.answer.toOption.bind Reaction.move?).map fun move =>
        (EventKind.text event, move)).toList := by
  intro reply
  cases ha : m.alive with
  | false =>
    have hreply : reply = _ := fire_dead ha event world
    rw [hreply]
    exact (List.append_nil _).symm
  | true =>
    have hasked := h.consult event world
    cases hc : (Observer.consult m.name event m.inconsistency m.watchers world).2 with
    | some refusal =>
      have hreply : reply = _ := fire_refused ha hc
      rw [hreply]
      exact hasked.trans (List.append_nil _).symm
    | none =>
      have hreply : reply = _ := fire_passed ha hc
      -- only what the recorder is told is written down
      rw [hreply, ← hasked]
      obtain ⟨before, after, hwatchers, hspare⟩ := h.watchers
      generalize (Observer.consult m.name event m.inconsistency m.watchers world).1 = asked
      rw [hwatchers]
      refine Observer.notify_learns Recorder.written (· ++ _)
        (Recorder.written_fired m.name event _) ?_ ?_ asked
      · intro o ho
        exact (hspare o (List.mem_append_left _ ho)).fired _ _ _
      · intro o ho
        exact (hspare o (List.mem_append_right _ ho)).fired _ _ _

end Recorded

end Observed

namespace Move

/-- The moves lead from one current state to another. -/
def Lead : Option S → List (Move S) → Option S → Prop
  | first, [], last => first = last
  | first, move :: rest, last => first = some move.before ∧ Lead (some move.after) rest last

namespace Lead

variable {first last : Option S} {moves : List (Move S)}

theorem chain (h : Lead first moves last) :
    moves.IsChain fun move next => next.before = move.after := by
  induction moves generalizing first with
  | nil => exact .nil
  | cons move rest ih =>
    cases rest with
    | nil => exact .singleton _
    | cons next rest => exact .cons_cons (Option.some.inj h.2.1).symm (ih h.2)

theorem first_eq (h : Lead first moves last) : ∀ move ∈ moves.head?, first = some move.before := by
  intro move hm
  cases moves with
  | nil => cases hm
  | cons head rest =>
    cases hm
    exact h.1

theorem last_eq (h : Lead first moves last) (hne : moves ≠ []) :
    (moves.map Move.after).getLast? = last := by
  induction moves generalizing first with
  | nil => exact absurd rfl hne
  | cons move rest ih =>
    cases rest with
    | nil => exact h.2
    | cons next rest => exact ih h.2 (List.cons_ne_nil _ _)

end Lead

end Move

/-- The path of a journal goes through the current states between which its moves lead. -/
theorem Journal.path_of_lead {j : Journal S} {first last : Option S}
    (h : Move.Lead first (j.entries.map Entry.move) last) (hne : j.entries ≠ []) :
    j.path.map some = first :: j.entries.map (fun e => some e.move.after) ∧
      j.path.getLast? = last := by
  have hlast := h.last_eq (fun he => hne (List.map_eq_nil_iff.mp he))
  cases he : j.entries with
  | nil => exact absurd he hne
  | cons e rest =>
    rw [he] at h hlast
    have hpath : j.path = e.move.before :: (e :: rest).map fun e => e.move.after := by
      rw [path, he]
      rfl
    refine ⟨?_, ?_⟩
    · rw [hpath, h.1, List.map_cons, List.map_map]
      rfl
    · rw [hpath, ← hlast, List.map_map, List.map_cons, List.getLast?_cons_cons]
      rfl

/-- A run falls into what comes up to its last reset, and the rest. -/
theorem Operation.since_reset (operations : List (Operation W S O E)) :
    ∃ before since, operations = before ++ since ∧
      (before = [] ∨ ∃ sooner, before = sooner ++ [.reset]) ∧ Operation.reset ∉ since := by
  by_cases h : Operation.reset ∈ operations
  · obtain ⟨earlier, later, rfl, hlater⟩ := Operation.last_reset h
    exact ⟨earlier ++ [.reset], later, by simp, Or.inr ⟨earlier, rfl⟩, hlater⟩
  · exact ⟨[], operations, rfl, Or.inl rfl, h⟩

namespace Session

variable [StateId S] [EventKind E]

section

variable {s : Session (Recorder S × V) S O E} {id : ObserverId}

theorem recorded_afterAll (hs : s.machine.Recorded id)
    {operations : List (Operation (Recorder S × V) S O E)}
    (hspare : ∀ operation ∈ operations, operation.Spares fun world => world.1.journal)
    (hkept : Operation.unregister id ∉ operations) :
    (s.afterAll operations).machine.Recorded id where
  numbered := numbered_afterAll hs.numbered operations
  registered := mem_observers_afterAll.mpr (Or.inl ⟨hs.registered, hkept⟩)
  others := forall_observers_afterAll hs.others fun o ho _ _ => hspare (.register o) ho

/-- Of all operations but a reset, the recorder writes down a move. -/
theorem written_after (hs : s.machine.Recorded id)
    {operation : Operation (Recorder S × V) S O E}
    (hspare : operation.Spares fun world => world.1.journal) (hn : operation ≠ .reset) :
    Recorder.written (s.after operation).world =
      Recorder.written s.world ++ (s.exchange operation).moved?.toList := by
  cases operation with
  | reset => exact absurd rfl hn
  | fire event => exact hs.fire event s.world
  | elsewhere f =>
    refine Eq.trans ?_ (List.append_nil _).symm
    exact congrArg Journal.moves (hspare s.world)
  | modifyOwner f => exact (List.append_nil _).symm
  | register o => exact (List.append_nil _).symm
  | unregister other => exact (List.append_nil _).symm

theorem written_afterAll (hs : s.machine.Recorded id)
    {operations : List (Operation (Recorder S × V) S O E)}
    (hspare : ∀ operation ∈ operations, operation.Spares fun world => world.1.journal)
    (hkept : Operation.unregister id ∉ operations) (hn : Operation.reset ∉ operations) :
    Recorder.written (s.afterAll operations).world =
      Recorder.written s.world ++ (s.dialogue operations).filterMap Exchange.moved? := by
  induction operations generalizing s with
  | nil => exact (List.append_nil _).symm
  | cons operation rest ih =>
    obtain ⟨hhead, hrest⟩ := not_or.mp (mt List.mem_cons.mpr hn)
    obtain ⟨hfirst, hlater⟩ := not_or.mp (mt List.mem_cons.mpr hkept)
    have hhere := hspare operation List.mem_cons_self
    have hone : ∀ q ∈ [operation], q.Spares fun world => world.1.journal :=
      List.forall_mem_singleton.mpr hhere
    have hnext : (s.after operation).machine.Recorded id :=
      recorded_afterAll hs hone (mt List.mem_singleton.mp hfirst)
    change Recorder.written ((s.after operation).afterAll rest).world = _
    rw [ih hnext (fun q hq => hspare q (List.mem_cons_of_mem _ hq)) hlater hrest,
      written_after hs hhere (Ne.symm hhead), List.append_assoc,
      dialogue, List.filterMap_cons]
    cases (s.exchange operation).moved? with
    | none => rfl
    | some moved => rfl

/-- What a recorder with an empty journal has written down after a run are the moves since the last
reset. -/
theorem written_since (hs : s.machine.Recorded id) (hempty : Recorder.written s.world = [])
    {before since : List (Operation (Recorder S × V) S O E)}
    (hspare : ∀ operation ∈ before ++ since, operation.Spares fun world => world.1.journal)
    (hkept : Operation.unregister id ∉ before ++ since)
    (hbefore : before = [] ∨ ∃ sooner, before = sooner ++ [.reset])
    (hn : Operation.reset ∉ since) :
    Recorder.written (s.afterAll (before ++ since)).world =
      ((s.afterAll before).dialogue since).filterMap Exchange.moved? := by
  have hrecorded {operations} (hsub : operations ⊆ before) :
      (s.afterAll operations).machine.Recorded id :=
    recorded_afterAll hs (fun operation hm => hspare operation (List.mem_append_left _ (hsub hm)))
      fun hm => hkept (List.mem_append_left _ (hsub hm))
  -- a reset clears the journal, which is empty in the beginning too
  have hbase : Recorder.written (s.afterAll before).world = [] := by
    rcases hbefore with rfl | ⟨sooner, rfl⟩
    · exact hempty
    · rw [afterAll_append]
      exact (hrecorded (List.subset_append_left _ _)).reset _
  rw [afterAll_append, written_afterAll (hrecorded (List.Subset.refl _)) ?_ ?_ hn, hbase]
  · rfl
  · exact fun operation hm => hspare operation (List.mem_append_right _ hm)
  · exact fun hm => hkept (List.mem_append_right _ hm)

/-- A recorder that registers while nobody else writes into its journal begins with an empty one. -/
theorem recorder_registered (t : Tree S O E) (name id : String) (owner : O) (clock : Instant)
    (world : V) {operations : List (Operation (Recorder S × V) S O E)}
    (hspare : ∀ operation ∈ operations, operation.Spares fun world => world.1.journal) :
    let opened := (idle t name id owner ((⟨clock, {}⟩ : Recorder S), world)).afterAll operations
    let recorder := (opened.machine.register Recorder.observer.alone).2
    let recorded := opened.after (.register Recorder.observer.alone)
    recorded.machine.Recorded recorder ∧ Recorder.written recorded.world = [] := by
  intro opened recorder recorded
  let start : Session (Recorder S × V) S O E := idle t name id owner (⟨clock, {}⟩, world)
  have hnobody : ∀ p ∈ start.machine.observers, p.2.Spares fun world => world.1.journal :=
    fun _ hp => nomatch hp
  have hopened : ∀ p ∈ opened.machine.observers, p.2.Spares fun world => world.1.journal :=
    forall_observers_afterAll hnobody fun o ho _ => hspare (.register o) ho
  refine ⟨⟨?_, List.mem_append_right _ List.mem_cons_self, ?_⟩, ?_⟩
  · exact numbered_after (numbered_afterAll (numbered_idle _ _ _ _ _) operations) _
  · intro p hp hne
    rcases List.mem_append.mp hp with hp | hp
    · exact hopened p hp
    · exact absurd (congrArg Prod.fst (List.mem_singleton.mp hp)) hne
  · exact congrArg Journal.moves (spared_afterAll hnobody hspare)

end

section

variable [DecidableEq S] {t : Tree S O E} {s : Session W S O E}

omit [DecidableEq S] in
/-- What is written down is an event that was answered by that move. -/
theorem fire_of_moved {operation : Operation W S O E} {text : String} {move : Move S}
    (h : (s.exchange operation).moved? = some (text, move)) :
    ∃ event, operation = .fire event ∧ text = EventKind.text event ∧
      (s.machine.fire event s.world).answer = .ok (.moved move) := by
  cases operation with
  | fire event =>
    refine ⟨event, rfl, ?_⟩
    change ((s.machine.fire event s.world).answer.toOption.bind Reaction.move?).map _ = _ at h
    cases ha : (s.machine.fire event s.world).answer with
    | error refusal =>
      rw [ha] at h
      cases h
    | ok reaction =>
      rw [ha] at h
      cases reaction <;> cases h
      exact ⟨rfl, rfl⟩
  | reset => cases h
  | modifyOwner f => cases h
  | register o => cases h
  | unregister id => cases h
  | elsewhere f => cases h

/-- A move tells the current states before and after it. -/
theorem current_of_moved (ht : t.Sound) (hs : s.machine.toMachine.Over t)
    {operation : Operation W S O E} {text : String} {move : Move S}
    (h : (s.exchange operation).moved? = some (text, move)) :
    s.machine.currentState? = some move.before ∧
      (s.after operation).machine.currentState? = some move.after := by
  obtain ⟨event, rfl, rfl, hanswer⟩ := fire_of_moved h
  obtain ⟨rfl, hstands⟩ := hs
  rcases s.machine.fire_cases event s.world with ⟨_, _, refusal, hr⟩ | ⟨_, hm, _, hr⟩
  · cases hanswer.symm.trans hr
  · have hmoved : (s.machine.react event).answer = .moved move :=
      Except.ok.inj (hr.symm.trans hanswer)
    obtain ⟨hbefore, hafter⟩ := Tree.react_moved_between ht hstands hmoved
    refine ⟨hbefore, ?_⟩
    change (s.machine.fire event s.world).machine.toMachine.currentState? = _
    rw [hm]
    exact hafter

/-- What is no move, and no failure that interrupts one, leaves the current state as it is. -/
theorem current_of_rest (ht : t.Sound) (hs : s.machine.toMachine.Over t)
    {operation : Operation W S O E} (hn : operation ≠ .reset)
    (hcalm : ∀ f, s.failure? operation = some f → f.leavesConsistent = true)
    (h : (s.exchange operation).moved? = none) :
    (s.after operation).machine.currentState? = s.machine.currentState? := by
  cases operation with
  | reset => exact absurd rfl hn
  | fire event =>
    change (s.machine.fire event s.world).machine.toMachine.currentState? = _
    rcases s.machine.fire_cases event s.world with ⟨hm, _⟩ | ⟨_, hm, _, hr⟩
    · rw [hm]
    · have hquiet : (s.machine.react event).answer.Quiet := by
        cases ha : (s.machine.react event).answer with
        | ignored => trivial
        | stayed state => trivial
        | moved move =>
          rw [ha] at hr
          have hsome : (s.exchange (.fire event)).moved? = some (EventKind.text event, move) := by
            change ((s.machine.fire event s.world).answer.toOption.bind Reaction.move?).map _ = _
            rw [hr]
            rfl
          cases h.symm.trans hsome
        | failed f =>
          rw [ha] at hr
          refine hcalm f ?_
          change (s.machine.fire event s.world).answer.toOption.bind Reaction.failure? = _
          rw [hr]
          rfl
      rw [hm, (Machine.react_quiet ht hs hquiet).1]
      rfl
  | modifyOwner f => rfl
  | register o => rfl
  | unregister id => rfl
  | elsewhere f => rfl

/-- Without a failure that interrupts one, the moves since a reset lead from the current state that
it left to the one that there is now. -/
theorem moves_lead (ht : t.Sound) (hs : s.machine.toMachine.Over t)
    {operations : List (Operation W S O E)} (hn : Operation.reset ∉ operations)
    (hcalm : ∀ f ∈ s.failures operations, f.leavesConsistent = true) :
    Move.Lead s.machine.currentState?
      (((s.dialogue operations).filterMap Exchange.moved?).map Prod.snd)
      (s.afterAll operations).machine.currentState? := by
  induction operations generalizing s with
  | nil => rfl
  | cons operation rest ih =>
    obtain ⟨hhead, hrest⟩ := not_or.mp (mt List.mem_cons.mpr hn)
    have hfirst : ∀ f, s.failure? operation = some f → f.leavesConsistent = true :=
      fun f hf => hcalm f (List.mem_append_left _ (Option.mem_toList.mpr hf))
    have hlead := ih (over_afterAll ht hs [operation]) hrest
      fun f hf => hcalm f (List.mem_append_right _ hf)
    -- the current state changes with each move, and with nothing else
    rw [dialogue, List.filterMap_cons]
    cases hx : (s.exchange operation).moved? with
    | none =>
      rw [← current_of_rest ht hs (Ne.symm hhead) hfirst hx]
      exact hlead
    | some moved =>
      obtain ⟨hbefore, hafter⟩ := current_of_moved ht hs hx
      rw [hbefore]
      refine ⟨rfl, ?_⟩
      rw [← hafter]
      exact hlead

/-- The current states that the moves of a run leave. -/
theorem current_after_moves (ht : t.Sound) (hs : s.machine.toMachine.Over t)
    (operations : List (Operation W S O E)) :
    ((s.dialogue operations).filter fun x => x.moved?.isSome).map (fun x => x.after.currentState?) =
      ((s.dialogue operations).filterMap Exchange.moved?).map fun moved => some moved.2.after := by
  induction operations generalizing s with
  | nil => rfl
  | cons operation rest ih =>
    have hrest := ih (over_afterAll ht hs [operation])
    rw [dialogue, List.filterMap_cons, List.filter_cons]
    cases hx : (s.exchange operation).moved? with
    | none => exact hrest
    | some moved => exact congrArg₂ List.cons (current_of_moved ht hs hx).2 hrest

end

/-- The journal of a recorder that is new when it registers, after any operations. Its entries are
the moves since the last reset, or since the registration if there was none, with the text of their
events. If no failure has interrupted a move since then, each entry begins where the one before it
ended, the first one at the state that was current in the beginning; and the path is that of the
current states since then. -/
theorem journal_tells_path [DecidableEq S] (root : S)
    (declarations : List (Declaration S O E)) (name id : String) (owner : O) (clock : Instant)
    (world : V) (earlier later : List (Operation (Recorder S × V) S O E)) :
    let start : Session (Recorder S × V) S O E :=
      idle (.build root declarations) name id owner (⟨clock, {}⟩, world)
    let opened := start.afterAll earlier
    let recorder := (opened.machine.register Recorder.observer.alone).2
    let recorded := opened.after (.register Recorder.observer.alone)
    let s := recorded.afterAll later
    let journal := s.world.1.journal
    (∀ operation ∈ earlier ++ later, operation.Spares fun world => world.1.journal) →
    Operation.unregister recorder ∉ later →
      ∃ before since, later = before ++ since ∧
        (before = [] ∨ ∃ sooner, before = sooner ++ [.reset]) ∧ Operation.reset ∉ since ∧
        let base := recorded.afterAll before
        let exchanges := base.dialogue since
        journal.entries.map (fun e => (e.event, e.move)) = exchanges.filterMap Exchange.moved? ∧
        ((∀ f ∈ base.failures since, f.phase ≠ .exit ∧ f.phase ≠ .action ∧ f.phase ≠ .entry) →
          journal.entries.IsChain (fun e next => next.move.before = e.move.after) ∧
          (∀ e ∈ journal.entries.head?, base.machine.currentState? = some e.move.before) ∧
          (journal.entries = [] → journal.path = []) ∧
          (journal.entries ≠ [] →
            journal.path.map some = base.machine.currentState? ::
              (exchanges.filter fun x => x.moved?.isSome).map (fun x => x.after.currentState?) ∧
            journal.path.getLast? = s.machine.currentState?)) := by
  intro start opened recorder recorded s journal hspare hkept
  have ht : Tree.Sound (.build root declarations : Tree S O E) := Tree.build_sound root declarations
  obtain ⟨hrecorded, hempty⟩ := recorder_registered (.build root declarations) name id owner clock
    world fun operation hm => hspare operation (List.mem_append_left _ hm)
  obtain ⟨before, since, rfl, hbefore, hsince⟩ := Operation.since_reset later
  refine ⟨before, since, rfl, hbefore, hsince, ?_⟩
  intro base exchanges
  have hnow : s = base.afterAll since := recorded.afterAll_append before since
  have hwritten : journal.entries.map (fun e => (e.event, e.move)) =
      exchanges.filterMap Exchange.moved? :=
    written_since hrecorded hempty (fun operation hm => hspare operation (List.mem_append_right _ hm))
      hkept hbefore hsince
  refine ⟨hwritten, ?_⟩
  intro hcalm
  have hover : base.machine.toMachine.Over (.build root declarations) :=
    over_afterAll ht (over_afterAll (s := opened) ht (afterAll_over ht name id owner _ earlier)
      [.register Recorder.observer.alone]) before
  have hmoves : journal.entries.map Entry.move =
      (exchanges.filterMap Exchange.moved?).map Prod.snd := by
    rw [← hwritten, List.map_map]
    rfl
  have hlead := moves_lead ht hover hsince fun f hf => f.leavesConsistent_iff.mpr (hcalm f hf)
  rw [← hmoves, ← hnow] at hlead
  refine ⟨?_, ?_, ?_, ?_⟩
  · exact (List.isChain_map _).mp hlead.chain
  · intro e he
    exact hlead.first_eq e.move (by rw [List.head?_map, Option.mem_def.mp he]; rfl)
  · intro hnone
    rw [Journal.path, hnone]
    rfl
  · intro hne
    obtain ⟨hpath, hend⟩ := Journal.path_of_lead hlead hne
    refine ⟨?_, hend⟩
    rw [hpath, current_after_moves ht hover, ← hwritten, List.map_map]
    rfl

end Session

namespace Radio

/-- The radio is switched on and tuned while a recorder watches it beside a silent observer. -/
theorem tuned_recorded :
    let earlier : List (Operation (Recorder Place × Unit) Place (List String) Button) := [.reset]
    let later : List (Operation (Recorder Place × Unit) Place (List String) Button) :=
      [.register .silent, .fire .power, .fire .band]
    let start : Session (Recorder Place × Unit) Place (List String) Button :=
      .idle (.build .root declarations) "radio" "1" [] (⟨⟨0, 0⟩, {}⟩, ())
    let opened := start.afterAll earlier
    let recorder := (opened.machine.register Recorder.observer.alone).2
    let recorded := opened.after (.register Recorder.observer.alone)
    let s := recorded.afterAll later
    let journal := s.world.1.journal
    (∀ operation ∈ earlier ++ later, operation.Spares fun world => world.1.journal) ∧
      Operation.unregister recorder ∉ later ∧ journal.path = [.off, .dab, .fm] ∧
      journal.entries.IsChain (fun e next => next.move.before = e.move.after) ∧
      recorded.machine.currentState? = some .off ∧ journal.path.getLast? = s.machine.currentState? := by
  intro earlier later start opened recorder recorded s journal
  have hspare : ∀ operation ∈ earlier ++ later,
      operation.Spares fun world : Recorder Place × Unit => world.1.journal := by
    simp [earlier, later, Operation.Spares, Observer.spares_silent]
  have hkept : Operation.unregister recorder ∉ later := by simp [later]
  have hpath : journal.path = [.off, .dab, .fm] := by decide +kernel
  have hcurrent : recorded.machine.currentState? = some .off := by decide +kernel
  have hcalm : recorded.failures later = [] := by decide +kernel
  have hentries : journal.entries ≠ [] := by
    intro hnone
    rw [Journal.path, hnone] at hpath
    cases hpath
  obtain ⟨before, since, hlater, hbefore, _, _, hjoined⟩ := Session.journal_tells_path Place.root
    declarations "radio" "1" [] ⟨0, 0⟩ () earlier later hspare hkept
  -- there is no reset after the registration
  have hnone : before = [] := by
    rcases hbefore with h | ⟨sooner, rfl⟩
    · exact h
    · have hreset : Operation.reset ∈ later := by simp [hlater]
      simp [later] at hreset
  subst hnone
  obtain rfl : later = since := hlater
  have hfailures : ∀ f ∈ recorded.failures later,
      f.phase ≠ .exit ∧ f.phase ≠ .action ∧ f.phase ≠ .entry := by
    rw [hcalm]
    exact fun _ hf => absurd hf List.not_mem_nil
  obtain ⟨hchain, _, _, hends⟩ := hjoined hfailures
  with_reducible
    exact ⟨hspare, hkept, hpath, hchain, hcurrent, (hends hentries).2⟩

end Radio

end StateTree
