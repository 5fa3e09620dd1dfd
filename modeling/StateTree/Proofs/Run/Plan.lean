import StateTree.Proofs.Run

/-!
The plan of a transition: the calls of host code that taking it makes where none fails. Whatever
the calls do, those that are made are the plan up to the first one that fails.
-/

namespace StateTree

variable {S O E : Type}

/-- All calls are made, or those up to the first one that fails. -/
theorem Call.runAll_cases (event : Option E) (cs : List (Call S O E)) (owner : O) :
    let ran := runAll event cs owner
    (ran.failure? = none ∧ ran.made = cs) ∨
      ∃ done c rest e, cs = done ++ c :: rest ∧ ran.made = done ++ [c] ∧
        (runAll event done owner).failure? = none ∧
        (c.action.run (runAll event done owner).owner event).1.settle = .error e ∧
        ran.failure? = some ⟨c.phase, c.state, e⟩ := by
  -- each call may change the owner that the next one starts from
  induction cs generalizing owner with
  | nil => exact Or.inl ⟨rfl, rfl⟩
  | cons c cs ih =>
    cases hc : (c.action.run owner event).1.settle with
    | error e =>
      refine Or.inr ⟨[], c, cs, e, rfl, ?_⟩
      simp [runAll, hc]
    | ok u =>
      rcases ih (c.action.run owner event).2 with ⟨hf, hm⟩ | ⟨done, d, rest, e, hs, hm, hd, he, hf⟩
      · refine Or.inl ?_
        simp [runAll, hc, hf, hm]
      · refine Or.inr ⟨c :: done, d, rest, e, by rw [hs, List.cons_append], ?_⟩
        simp [runAll, hc, hm, hd, he, hf]

namespace Tree

def exitCalls (t : Tree S O E) (is : List Nat) : List (Call S O E) :=
  is.filterMap fun i => (t.node i).exit.map fun a => ⟨.exit i, a, .exit, (t.node i).id⟩

def entryCalls (t : Tree S O E) (is : List Nat) : List (Call S O E) :=
  is.filterMap fun i => (t.node i).entry.map fun a => ⟨.entry i, a, .entry, (t.node i).id⟩

def actionCalls (t : Tree S O E) (x : Candidate S O E) : List (Call S O E) :=
  (x.transition.action.map fun a =>
    ⟨.action x.state x.position, a, .action, (t.node x.state).id⟩).toList

/-- Exits below the deepest state around source and target, then the action, then entries: down to
the target, of what is restored, and of initial substates from the last state entered on. -/
def plan (t : Tree S O E) (x : Candidate S O E) (target : Nat) (st : Standing) :
    List (Call S O E) :=
  let limit := t.commonAncestor x.state target
  let entered := (t.path target).filter (t.below limit) ++ t.restored target st
  t.exitCalls (st.active.filter (t.below limit)) ++ t.actionCalls x ++
    t.entryCalls (entered ++ t.initialLine (entered.getLast?.getD target))

variable {t : Tree S O E}

theorem calls_leaves (is : List Nat) (f : Nat → List Nat) :
    (is.map fun i => (Stride.leave i (f i) : Stride S O E)).filterMap (Stride.call? t) =
      t.exitCalls is := by
  rw [List.filterMap_map]
  rfl

theorem calls_enters (is : List Nat) :
    (is.map (Stride.enter : Nat → Stride S O E)).filterMap (Stride.call? t) = t.entryCalls is := by
  rw [List.filterMap_map]
  rfl

theorem calls_settling (i : Nat) :
    (t.settling i).filterMap (Stride.call? t) = t.entryCalls (t.initialLine i) := by
  simp only [settling, List.filterMap_append, calls_enters]
  split
  · exact List.append_nil _
  · exact List.append_nil _

theorem calls_entering (limit target : Nat) (recorded : List Nat) :
    (t.entering limit target recorded).filterMap (Stride.call? t) =
      t.entryCalls ((t.path target).filter (t.below limit) ++
        (recorded ++ t.initialLine (recorded.getLast?.getD target))) := by
  -- giving up a record and noting that one is restored call nothing
  have hforget : (if (t.node target).history then
      [(.forget target : Stride S O E)] else []).filterMap (Stride.call? t) = [] := by
    split
    · rfl
    · rfl
  have hnote : (if recorded = [] then [] else
      [(.restoring target recorded.length : Stride S O E)]).filterMap (Stride.call? t) = [] := by
    split
    · rfl
    · rfl
  simp only [entering, finishing, List.filterMap_append, hforget, hnote, calls_enters,
    calls_settling, List.nil_append]
  simp only [entryCalls, List.filterMap_append]

/-- The strides of an itinerary make the calls of the plan. -/
theorem calls_itinerary (ht : t.Linked) {st : Standing} {x : Candidate S O E} {target : Nat}
    (hsource : x.state < t.size) (htarget : target < t.size) :
    (t.itinerary x target st).filterMap (Stride.call? t) = t.plan x target st := by
  obtain ⟨_, seg, hseg⟩ := commonAncestor_leads ht hsource htarget
  -- the way down to the target ends in the target, or is empty where the target is the limit
  have hlast : (seg ++ t.restored target st).getLast?.getD target =
      (t.restored target st).getLast?.getD target := by
    have hend := hseg.last
    rw [List.getLast?_append]
    cases (t.restored target st).getLast? with
    | some i => rfl
    | none =>
      cases hs : seg.getLast? with
      | none => rfl
      | some i =>
        rw [hs] at hend
        exact hend
  have hact : [(.act x : Stride S O E)].filterMap (Stride.call? t) = t.actionCalls x := by
    simp only [actionCalls]
    cases h : x.transition.action with
    | none => simp [Stride.call?, h]
    | some a => simp [Stride.call?, h]
  simp only [itinerary, plan]
  rw [List.append_cons, List.filterMap_append, List.filterMap_append, hact, calls_entering, leaving,
    calls_leaves, filter_below ht hseg, hlast, List.append_assoc seg]

variable [DecidableEq S] [EventKind E] {event : E}

/-- A reaction that takes a transition to a target makes the calls of its plan in turn, up to the
first one that fails. -/
theorem react_follows_plan (ht : t.Sound) {c : Configuration O} (hst : t.Stands c.standing)
    {x : Candidate S O E} {id : S} {target : Nat} (hs : (t.select event c).2 = .ok (some x))
    (hk : x.transition.kind = .moves id target) :
    let chosen := (t.select event c).1
    let ran := Call.runAll (some event) (t.plan x target c.standing) chosen.owner
    callsOf (t.react event c).1.trail =
        callsOf chosen.trail ++ ran.made.map (fun call => (call.site, some event)) ∧
      (t.react event c).1.owner = ran.owner ∧
      ((ran.failure? = none ∧ ∃ move, (t.react event c).2 = .moved move) ∨
        ∃ f, ran.failure? = some f ∧ (t.react event c).2 = .failed f) := by
  intro chosen ran
  obtain ⟨_, hsource, htarget⟩ := select_bounds ht hst hs hk
  -- the march makes the calls of its strides, which are those of the plan
  have hran : (t.passage event c x target).failure? = ran.failure? ∧
      (t.passage event c x target).work.owner = ran.owner ∧
      callsOf (t.passage event c x target).work.trail =
        callsOf chosen.trail ++ ran.made.map fun call => (call.site, some event) := by
    simp only [ran]
    rw [← calls_itinerary ht.toLinked hsource htarget]
    exact Work.march_ran _ chosen
  obtain ⟨hf, howner, hcalls⟩ := hran
  obtain ⟨hwork, last, htrail, hlast⟩ := react_work ht hst hs hk
  refine ⟨?_, ?_, ?_⟩
  · -- the mark of a completed move is not a call
    have hnone : callsOf last = [] :=
      List.filterMap_eq_nil_iff.mpr fun mark hm => (hlast mark hm).1
    rw [htrail, callsOf, List.filterMap_append]
    change callsOf _ ++ callsOf last = _
    rw [hnone, List.append_nil, hcalls]
  · rw [congrArg Configuration.owner hwork]
    exact howner
  · rw [← hf]
    rcases react_passage ht hst hs hk with ⟨v, f, hp, _, hr⟩ | ⟨v, before, hp, _, hr⟩
    · rw [hp, hr]
      exact Or.inr ⟨f, rfl, rfl⟩
    · rw [hp, hr]
      exact Or.inl ⟨rfl, _, rfl⟩

end Tree

namespace Session

variable {W : Type} [DecidableEq S] [StateId S] [EventKind E]

/-- Where an event is dispatched and selects a transition to a target, the calls after the search
are those of the plan, each with the event, up to the first one that fails. The move is completed or
that failure is the answer. -/
theorem fire_follows_plan (root : S) (declarations : List (Declaration S O E)) (name id : String)
    (owner : O) (world : W) (operations : List (Operation W S O E)) (event : E) (seen : W) :
    let t := Tree.build root declarations
    let m := ((idle t name id owner world).afterAll operations).machine
    let chosen := t.select event m.toConfiguration
    let reply := m.fire event seen
    ∀ x target place reaction, chosen.2 = .ok (some x) → x.transition.kind = .moves target place →
      reply.answer = .ok reaction →
      let plan := t.plan x place m.standing
      let ran := Call.runAll (some event) plan chosen.1.owner
      ran.made <+: plan ∧
      callsOf reply.trail =
        callsOf chosen.1.trail ++ ran.made.map (fun call => (call.site, some event)) ∧
      reply.machine.owner = ran.owner ∧
      ((ran.made = plan ∧ ran.failure? = none ∧ ∃ move, reaction = .moved move) ∨
        ∃ done call rest e, plan = done ++ call :: rest ∧ ran.made = done ++ [call] ∧
          (Call.runAll (some event) done chosen.1.owner).failure? = none ∧
          (call.action.run (Call.runAll (some event) done chosen.1.owner).owner
            (some event)).1.settle = .error e ∧
          reaction = .failed ⟨call.phase, call.state, e⟩) := by
  intro t m chosen reply x target place reaction hs hk hanswer plan ran
  have ht : t.Sound := Tree.build_sound root declarations
  have hm : m.toMachine.Over t := afterAll_over ht name id owner world operations
  obtain ⟨hcalls, howner, hend⟩ := Tree.react_follows_plan ht hm.stands hs hk
  obtain ⟨_, hnow, htrail, hreaction⟩ := Observed.fire_reacts hm hanswer
  have hleft : reply.machine.owner = (t.react event m.toConfiguration).1.owner :=
    congrArg (fun c => c.owner) hnow
  rw [← htrail] at hcalls
  rw [← hleft] at howner
  rw [← hreaction] at hend
  -- the reaction is a move or a failure, and the calls say which
  rcases Call.runAll_cases (some event) plan chosen.1.owner with
    ⟨hf, hmade⟩ | ⟨done, call, rest, e, hplan, hmade, hdone, he, hf⟩
  · have hall : ran.made <+: plan := ⟨[], (List.append_nil ran.made).trans hmade⟩
    rcases hend with ⟨_, hmoved⟩ | ⟨f, hfail, _⟩
    · exact ⟨hall, hcalls, howner, Or.inl ⟨hmade, hf, hmoved⟩⟩
    · have habsurd := hf.symm.trans hfail
      cases habsurd
  · have hstart : ran.made <+: plan := by
      refine ⟨rest, ?_⟩
      rw [show ran.made = done ++ [call] from hmade, hplan, List.append_assoc]
      rfl
    rcases hend with ⟨hnone, _⟩ | ⟨f, hfail, hr⟩
    · have habsurd := hnone.symm.trans hf
      cases habsurd
    · have hblame : reaction = .failed ⟨call.phase, call.state, e⟩ := by
        rw [hr, Option.some.inj (hfail.symm.trans hf)]
      exact ⟨hstart, hcalls, howner,
        Or.inr ⟨done, call, rest, e, hplan, hmade, hdone, he, hblame⟩⟩

end Session

namespace Radio

def switchOn : Candidate Place (List String) Button :=
  ⟨1, 0, ⟨.off, .power, .moves .on 2, none, some (noted "offToOn"), none⟩⟩

theorem switchOn_follows_plan :
    let t := Tree.build .root declarations
    let m := (session.afterAll [.reset]).machine
    let chosen := t.select .power m.toConfiguration
    let plan := t.plan switchOn 2 m.standing
    chosen.2 = .ok (some switchOn) ∧
      (m.fire .power ()).answer = .ok (.moved ⟨.off, .on, .off, .dab⟩) ∧
      plan.map Call.site = [.exit 1, .action 1 0, .entry 2, .entry 3] ∧
      (Call.runAll (some .power) plan chosen.1.owner).made <+: plan := by
  intro t m chosen plan
  have hselect : chosen.2 = .ok (some switchOn) := rfl
  have hanswer : (m.fire .power ()).answer = .ok (.moved ⟨.off, .on, .off, .dab⟩) := rfl
  have hsites : plan.map Call.site = [.exit 1, .action 1 0, .entry 2, .entry 3] := by
    decide +kernel
  obtain ⟨hplan, _⟩ :=
    Session.fire_follows_plan Place.root declarations "radio" "1" [] () [Operation.reset]
      Button.power () switchOn .on 2 _ hselect rfl hanswer
  exact ⟨hselect, hanswer, hsites, hplan⟩

end Radio

end StateTree
