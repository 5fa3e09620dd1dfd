import Mathlib.Data.List.Basic
import StateTree.Proofs.Run

/-!
Events that move nothing. An event that is refused, ignored, answered in place or stopped by a guard
changes at most the owner: only a transition that was selected, and leads to a target, exits and
enters states.
-/

namespace StateTree

variable {W S O E : Type}

/-- The calls of actions, as distinct from those of guards. -/
def actionsOf (trail : List (Mark E)) : List (Site × Option E) :=
  (callsOf trail).filter fun call => !call.1.isGuard

theorem actionsOf_append (xs ys : List (Mark E)) :
    actionsOf (xs ++ ys) = actionsOf xs ++ actionsOf ys := by
  simp only [actionsOf, callsOf, List.filterMap_append, List.filter_append]

theorem Reaction.quiet_in_place {reaction : Reaction S} {state : S}
    (h : reaction = .stayed state ∨ ∃ e, reaction = .failed ⟨.stayAction, state, e⟩) :
    reaction.Quiet := by
  rcases h with rfl | ⟨e, rfl⟩
  · trivial
  · rfl

theorem Reaction.quiet_unchosen {reaction : Reaction S}
    (h : reaction = .ignored ∨ ∃ state e, reaction = .failed ⟨.guard, state, e⟩) :
    reaction.Quiet := by
  rcases h with rfl | ⟨state, e, rfl⟩
  · trivial
  · rfl

namespace Tree

variable [EventKind E] {t : Tree S O E} {event : E} {c : Configuration O}

/-- The search for a transition runs no action. -/
theorem actionsOf_select (t : Tree S O E) (event : E) (c : Configuration O) :
    actionsOf (t.select event c).1.trail = [] := by
  apply List.filter_eq_nil_iff.mpr
  intro call hcall
  obtain ⟨mark, hmark, hm⟩ := List.mem_filterMap.mp hcall
  rcases Work.choose_trail hmark with h | ⟨i, n, rfl⟩
  · exact absurd h List.not_mem_nil
  · cases hm
    simp [Site.isGuard]

/-- What the transition `x` does where it stays: it runs its own action, if it has one, and nothing
else. -/
structure StaysBy (t : Tree S O E) (event : E) (c : Configuration O) (x : Candidate S O E) :
    Prop where
  selected : (t.select event c).2 = .ok (some x)
  stays : x.transition.kind = .stays
  actions : actionsOf (t.react event c).1.trail =
    (x.transition.action.map fun _ => (Site.action x.state x.position, some event)).toList
  owner : (t.react event c).1.owner =
    (x.transition.action.elim (t.select event c).1.owner fun a =>
      (a.run (t.select event c).1.owner (some event)).2)

theorem staysBy_of_selected {x : Candidate S O E} (hs : (t.select event c).2 = .ok (some x))
    (hk : x.transition.kind = .stays) :
    t.StaysBy event c x ∧ ((t.react event c).2 = .stayed (t.node x.state).id ∨
      ∃ e, (t.react event c).2 = .failed ⟨.stayAction, (t.node x.state).id, e⟩) := by
  have hreact := react_stays hs hk
  have hnone := actionsOf_select t event c
  -- the one call comes after those of the search
  have hcalled (a : Action O E) : actionsOf ((t.select event c).1.called
      (a.run (t.select event c).1.owner (some event)).2 (.action x.state x.position)
      (some event)).trail = [(Site.action x.state x.position, some event)] := by
    simp only [Work.called, actionsOf_append, hnone]
    rfl
  rcases Work.stay_cases t event (t.select event c).1 x with
    ⟨ha, h⟩ | ⟨a, ha, ⟨_, h⟩ | ⟨e, _, h⟩⟩
  · refine ⟨⟨hs, hk, ?_, ?_⟩, Or.inl ?_⟩
    · rw [hreact, h, ha, Work.note, actionsOf_append, hnone]
      rfl
    · rw [hreact, h, ha]
      rfl
    · rw [hreact, h]
  · refine ⟨⟨hs, hk, ?_, ?_⟩, Or.inl ?_⟩
    · rw [hreact, h, ha, Work.note, actionsOf_append, hcalled]
      rfl
    · rw [hreact, h, ha]
      rfl
    · rw [hreact, h]
  · refine ⟨⟨hs, hk, ?_, ?_⟩, Or.inr ⟨e, ?_⟩⟩
    · rw [hreact, h, ha, hcalled]
      rfl
    · rw [hreact, h, ha]
      rfl
    · rw [hreact, h]

theorem not_quiet_of_moves [DecidableEq S] (ht : t.Sound) (hst : t.Stands c.standing)
    {x : Candidate S O E} {id : S} {target : Nat} (hs : (t.select event c).2 = .ok (some x))
    (hk : x.transition.kind = .moves id target) : ¬(t.react event c).2.Quiet := by
  intro hq
  rcases react_passage ht hst hs hk with ⟨v, f, _, hf, hr⟩ | ⟨v, before, _, _, hr⟩
  · rw [hr] at hq
    cases hf.symm.trans hq
  · rw [hr] at hq
    exact hq

/-- A quiet reaction changes no standing, and no state is crossed. -/
theorem react_rests [DecidableEq S] (ht : t.Sound) (hst : t.Stands c.standing)
    (hq : (t.react event c).2.Quiet) :
    (t.react event c).1.standing = c.standing ∧
      ∀ mark ∈ (t.react event c).1.trail, mark.crossed? = none := by
  rcases react_cases t event c with ⟨hstanding, _, htrail⟩ | ⟨x, id, target, hs, hk⟩
  · exact ⟨hstanding, htrail⟩
  · exact absurd hq (not_quiet_of_moves ht hst hs hk)

/-- A quiet reaction has found nothing, has failed in the search, or takes a transition that
stays. -/
theorem react_quiet [DecidableEq S] (ht : t.Sound) (hst : t.Stands c.standing)
    (hq : (t.react event c).2.Quiet) :
    (((t.react event c).2 = .ignored ∨
          ∃ f, (t.react event c).2 = .failed f ∧ f.phase = .guard) ∧
        actionsOf (t.react event c).1.trail = [] ∧
        (t.react event c).1.owner = (t.select event c).1.owner) ∨
      ∃ x, t.StaysBy event c x ∧ ((t.react event c).2 = .stayed (t.node x.state).id ∨
        ∃ e, (t.react event c).2 = .failed ⟨.stayAction, (t.node x.state).id, e⟩) := by
  have hnone := actionsOf_select t event c
  cases hs : (t.select event c).2 with
  | error f =>
    rw [react_of_error hs]
    exact Or.inl ⟨Or.inr ⟨f, rfl, Work.choose_error hs⟩, hnone, rfl⟩
  | ok found =>
    cases found with
    | none =>
      rw [react_of_none hs]
      refine Or.inl ⟨Or.inl rfl, ?_, rfl⟩
      rw [Work.note, actionsOf_append, hnone]
      rfl
    | some x =>
      cases hk : x.transition.kind with
      | stays => exact Or.inr ⟨x, staysBy_of_selected hs hk⟩
      | moves id target => exact absurd hq (not_quiet_of_moves ht hst hs hk)

/-- A reaction in place comes from a transition of the state that it reports. -/
theorem react_in_place [DecidableEq S] (ht : t.Sound) (hst : t.Stands c.standing) {state : S}
    (h : (t.react event c).2 = .stayed state ∨
      ∃ e, (t.react event c).2 = .failed ⟨.stayAction, state, e⟩) :
    ∃ x, t.StaysBy event c x ∧ (t.node x.state).id = state := by
  rcases react_quiet ht hst (Reaction.quiet_in_place h) with
    ⟨hnone | ⟨f, hf, hguard⟩, _⟩ | ⟨x, hx, hanswer⟩
  · -- neither reports a state as ignored events do
    rcases h with h | ⟨e, h⟩ <;> cases hnone.symm.trans h
  · rcases h with h | ⟨e, h⟩
    · cases hf.symm.trans h
    · cases hf.symm.trans h
      cases hguard
  · refine ⟨x, hx, ?_⟩
    rcases hanswer with ha | ⟨e', ha⟩ <;> rcases h with h | ⟨e, h⟩ <;> cases ha.symm.trans h <;> rfl

/-- Where an event finds no transition, or a guard fails, no action is run. -/
theorem react_unchosen [DecidableEq S] (ht : t.Sound) (hst : t.Stands c.standing)
    (h : (t.react event c).2 = .ignored ∨
      ∃ state e, (t.react event c).2 = .failed ⟨.guard, state, e⟩) :
    actionsOf (t.react event c).1.trail = [] ∧
      (t.react event c).1.owner = (t.select event c).1.owner := by
  rcases react_quiet ht hst (Reaction.quiet_unchosen h) with ⟨_, hresult⟩ | ⟨x, _, hanswer⟩
  · exact hresult
  · rcases hanswer with ha | ⟨e', ha⟩ <;> rcases h with h | ⟨state, e, h⟩ <;> cases ha.symm.trans h

end Tree

theorem Machine.carry_of_quiet {before : Option (Failure S)} {reaction : Reaction S}
    (hq : reaction.Quiet) : carry before reaction = before := by
  cases reaction with
  | ignored => rfl
  | stayed state => rfl
  | moved move => exact hq.elim
  | failed f => exact if_pos hq

theorem Configuration.eq_of_standing {c d : Configuration O} (h : d.standing = c.standing) :
    d = { c with owner := d.owner } := by
  cases c
  cases d
  cases h
  rfl

/-- A quiet reaction changes nothing of a machine but its owner. -/
theorem Machine.react_quiet [DecidableEq S] [StateId S] [EventKind E] {t : Tree S O E}
    (ht : t.Sound) {m : Machine S O E} (hm : m.Over t) {event : E}
    (hq : (m.react event).answer.Quiet) :
    (m.react event).machine = { m with owner := (m.react event).machine.owner } ∧
      ∀ mark ∈ (m.react event).trail, mark.crossed? = none := by
  obtain ⟨rfl, hstands⟩ := hm
  obtain ⟨hstanding, hmarks⟩ := Tree.react_rests ht hstands hq
  have hnow : (m.react event).machine.toConfiguration =
      { m.toConfiguration with owner := (m.react event).machine.owner } :=
    Configuration.eq_of_standing hstanding
  have hcarry : (m.react event).machine.inconsistency = m.inconsistency := carry_of_quiet hq
  refine ⟨?_, hmarks⟩
  change { m with
    toConfiguration := (m.react event).machine.toConfiguration
    inconsistency := (m.react event).machine.inconsistency } = _
  rw [hnow, hcarry]

namespace Observed

variable [StateId S] [EventKind E] {m : Observed W S O E} {event : E} {world : W}

/-- An event without a reaction was fired at a machine that is not alive, or refused by one of its
observers. Nothing was called. -/
theorem fire_error {refusal : Refusal} (h : (m.fire event world).answer = .error refusal) :
    (m.fire event world).machine = m ∧ (m.fire event world).trail = [] ∧
      if m.alive then
        (Observer.consult m.name event m.inconsistency m.watchers world).2 = some refusal
      else refusal = .notAlive m.name := by
  cases ha : m.alive with
  | false =>
    rw [fire_dead ha] at h ⊢
    cases h
    exact ⟨rfl, rfl, rfl⟩
  | true =>
    cases hc : (Observer.consult m.name event m.inconsistency m.watchers world).2 with
    | none =>
      rw [fire_passed ha hc] at h
      cases h
    | some other =>
      rw [fire_refused ha hc] at h ⊢
      cases h
      exact ⟨rfl, rfl, rfl⟩

theorem fire_ok {reaction : Reaction S} (h : (m.fire event world).answer = .ok reaction) :
    (m.fire event world).machine = { m with toMachine := (m.react event).machine } ∧
      (m.fire event world).trail = (m.react event).trail ∧ reaction = (m.react event).answer := by
  cases ha : m.alive with
  | false =>
    rw [fire_dead ha] at h
    cases h
  | true =>
    cases hc : (Observer.consult m.name event m.inconsistency m.watchers world).2 with
    | none =>
      rw [fire_passed ha hc] at h ⊢
      cases h
      exact ⟨rfl, rfl, rfl⟩
    | some refusal =>
      rw [fire_refused ha hc] at h
      cases h

end Observed

theorem Machine.isActive_of_mem [DecidableEq S] {t : Tree S O E} {m : Machine S O E}
    (hm : m.tree = t) {i : Nat} (hi : i ∈ m.active) : m.isActive (t.node i).id = true := by
  subst hm
  exact decide_eq_true (List.mem_map_of_mem (List.mem_reverse.mpr hi))

namespace Session

variable [DecidableEq S] [StateId S] [EventKind E]

/-- Only a transition that was selected and leads to a target moves a machine. An event that is
refused leaves the machine as it was, and nothing is called. An event that is ignored, answered in
place or stopped in a way that leaves the machine consistent changes at most the owner, and nothing
is exited or entered: a transition that stays belongs to an active state and runs its own action
once, if it has one; and where none is taken, no action is run at all. -/
theorem only_moves_move (root : S) (declarations : List (Declaration S O E)) (name id : String)
    (owner : O) (world : W) (operations : List (Operation W S O E)) (event : E) (seen : W) :
    let t := Tree.build root declarations
    let m := ((idle t name id owner world).afterAll operations).machine
    let chosen := t.select event m.toConfiguration
    let reply := m.fire event seen
    (∀ refusal, reply.answer = .error refusal →
      reply.machine = m ∧ reply.trail = [] ∧
        if m.alive then
          (Observer.consult name event m.inconsistency m.watchers seen).2 = some refusal
        else refusal = .notAlive name) ∧
    (∀ reaction, reply.answer = .ok reaction → reaction.Quiet →
      reply.machine = { m with owner := reply.machine.owner } ∧
        ∀ mark ∈ reply.trail, mark.crossed? = none) ∧
    (∀ reaction state, reply.answer = .ok reaction →
      (reaction = .stayed state ∨ ∃ e, reaction = .failed ⟨.stayAction, state, e⟩) →
      m.isActive state = true ∧ reply.machine.isActive state = true ∧
        ∃ x, chosen.2 = .ok (some x) ∧ x.transition.kind = .stays ∧ (t.node x.state).id = state ∧
          actionsOf reply.trail =
            (x.transition.action.map fun _ =>
              (Site.action x.state x.position, some event)).toList ∧
          reply.machine.owner =
            x.transition.action.elim chosen.1.owner fun a =>
              (a.run chosen.1.owner (some event)).2) ∧
    ∀ reaction, reply.answer = .ok reaction →
      (reaction = .ignored ∨ ∃ state e, reaction = .failed ⟨.guard, state, e⟩) →
      actionsOf reply.trail = [] ∧ reply.machine.owner = chosen.1.owner := by
  intro t m chosen reply
  have ht : t.Sound := Tree.build_sound root declarations
  have hm : m.toMachine.Over t := afterAll_over ht name id owner world operations
  have hname : m.name = name := afterAll_name _ _
  have hrest : ∀ reaction, reply.answer = .ok reaction → reaction.Quiet →
      reply.machine = { m with owner := reply.machine.owner } ∧
        ∀ mark ∈ reply.trail, mark.crossed? = none := by
    intro reaction h hq
    obtain ⟨hnow, htrail, rfl⟩ := Observed.fire_ok h
    obtain ⟨hmachine, hmarks⟩ := Machine.react_quiet ht hm hq
    refine ⟨?_, htrail ▸ hmarks⟩
    change (m.fire event seen).machine = _
    rw [hnow, hmachine]
  refine ⟨?_, hrest, ?_, ?_⟩
  · intro refusal h
    rw [← hname]
    exact Observed.fire_error h
  · intro reaction state h hplace
    have hafter := (hrest reaction h (Reaction.quiet_in_place hplace)).1
    obtain ⟨_, hnow, htrail, rfl⟩ := Observed.fire_reacts hm h
    obtain ⟨x, hx, rfl⟩ := Tree.react_in_place ht hm.stands hplace
    -- the machine is as before but for its owner, so what is active is still active
    have hactive := Machine.isActive_of_mem hm.tree (Tree.select_mem hx.selected).1
    refine ⟨hactive, ?_, x, hx.selected, hx.stays, rfl, ?_, ?_⟩
    · rw [hafter]
      exact hactive
    · rw [htrail]
      exact hx.actions
    · exact (congrArg (fun c => c.owner) hnow).trans hx.owner
  · intro reaction h hunchosen
    obtain ⟨_, hnow, htrail, rfl⟩ := Observed.fire_reacts hm h
    obtain ⟨hactions, howner⟩ := Tree.react_unchosen ht hm.stands hunchosen
    exact ⟨htrail ▸ hactions, (congrArg (fun c => c.owner) hnow).trans howner⟩

end Session

namespace Radio

/-- While the radio is off, the band button is locked. -/
def locked : List (Declaration Place (List String) Button) :=
  declarations ++ [.inState .off ⟨[], some ⟨.band, none, [.action (noted "locked")]⟩⟩]

theorem locked_stays_put :
    let operations : List (Operation Unit Place (List String) Button) :=
      [.reset, .fire .power, .fire .band, .fire .power]
    let start : Session Unit Place (List String) Button :=
      .idle (.build .root locked) "radio" "1" [] ()
    let m := (start.afterAll operations).machine
    let reply := m.fire .band ()
    reply.answer = .ok (.stayed .off) ∧ reply.machine.isActive .off = true ∧
      m.history.records = [(2, [4])] ∧ reply.machine.history = m.history ∧
      ∃ x : Candidate Place (List String) Button, x.transition.kind = .stays ∧
        actionsOf reply.trail =
          (x.transition.action.map fun _ =>
            (Site.action x.state x.position, some .band)).toList := by
  intro operations start m reply
  have hanswer : reply.answer = .ok (.stayed .off) := by decide +kernel
  have hrecords : m.history.records = [(2, [4])] := by decide +kernel
  obtain ⟨_, hrest, hplace, _⟩ :=
    Session.only_moves_move Place.root locked "radio" "1" [] () operations Button.band ()
  obtain ⟨hmachine, _⟩ := hrest _ hanswer trivial
  obtain ⟨_, hactive, x, _, hstays, _, hactions, _⟩ := hplace _ Place.off hanswer (Or.inl rfl)
  have hhistory := congrArg (fun m => m.history) hmachine
  -- both sides name the same runs, so none is carried out to compare them
  with_reducible
    exact ⟨hanswer, hactive, hrecords, hhistory, x, hstays, hactions⟩

end Radio

end StateTree
