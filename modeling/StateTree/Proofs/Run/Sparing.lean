import StateTree.Proofs.Run.Roster

/-!
A part of the world that observers leave alone. If all of them do, a run does not change it; if all
but one do, what that one learns is all that changes it.
-/

namespace StateTree

variable {J K W S O E : Type}

namespace Observer

/-- Leaves alone what `get` reads in the world. -/
structure Spares (o : Observer W S E) (get : W → J) : Prop where
  wasReset : ∀ machine active failure world,
    get (o.wasReset machine active failure world).1 = get world
  beforeFire : ∀ machine event inconsistency world,
    get (o.beforeFire machine event inconsistency world).1 = get world
  fired : ∀ machine event reaction world,
    get (o.fired machine event reaction world).1 = get world

theorem Spares.map {o : Observer W S E} {get : W → J} (h : o.Spares get) (f : J → K) :
    o.Spares fun world => f (get world) where
  wasReset machine active failure world := congrArg f (h.wasReset machine active failure world)
  beforeFire machine event inconsistency world :=
    congrArg f (h.beforeFire machine event inconsistency world)
  fired machine event reaction world := congrArg f (h.fired machine event reaction world)

theorem spares_silent (get : W → J) : (silent : Observer W S E).Spares get :=
  ⟨fun _ _ _ _ => rfl, fun _ _ _ _ => rfl, fun _ _ _ _ => rfl⟩

section

variable (machine : String) (event : E) (inconsistency : Option (Failure S))

/-- What no observer changes when it is asked stays. -/
theorem consult_spares (get : W → J) {os : List (Observer W S E)}
    (h : ∀ o ∈ os, ∀ world, get (o.beforeFire machine event inconsistency world).1 = get world)
    (world : W) : get (consult machine event inconsistency os world).1 = get world := by
  induction os generalizing world with
  | nil => rfl
  | cons o rest ih =>
    have hrest := fun q hq => h q (List.mem_cons_of_mem o hq)
    simp only [consult]
    cases (o.beforeFire machine event inconsistency world).2 with
    | some refusal => exact h o List.mem_cons_self world
    | none => exact (ih hrest _).trans (h o List.mem_cons_self world)

end

section

variable (get : W → J) {tell : Observer W S E → W → W × List Line}

theorem notify_spares {os : List (Observer W S E)}
    (h : ∀ o ∈ os, ∀ world, get (tell o world).1 = get world) (world : W) :
    get (notify tell os world).1 = get world := by
  induction os generalizing world with
  | nil => rfl
  | cons o rest ih =>
    simp only [notify]
    rw [ih fun q hq => h q (List.mem_cons_of_mem _ hq)]
    exact h o List.mem_cons_self world

/-- What only one observer changes when it is told is what it learns. -/
theorem notify_learns (learn : J → J) {o : Observer W S E}
    (ho : ∀ world, get (tell o world).1 = learn (get world)) {before after : List (Observer W S E)}
    (hbefore : ∀ q ∈ before, ∀ world, get (tell q world).1 = get world)
    (hafter : ∀ q ∈ after, ∀ world, get (tell q world).1 = get world) (world : W) :
    get (notify tell (before ++ o :: after) world).1 = learn (get world) := by
  induction before generalizing world with
  | nil =>
    simp only [List.nil_append, notify]
    rw [notify_spares get hafter, ho]
  | cons p rest ih =>
    simp only [List.cons_append, notify]
    rw [ih fun q hq => hbefore q (List.mem_cons_of_mem _ hq), hbefore p List.mem_cons_self]

end

end Observer

/-- Does nothing `elsewhere`, and registers nobody, to change what `get` reads in the world. -/
def Operation.Spares (get : W → J) : Operation W S O E → Prop
  | .register o => o.Spares get
  | .elsewhere f => ∀ world, get (f world) = get world
  | .reset | .fire _ | .modifyOwner _ | .unregister _ => True

namespace Session

variable [StateId S] [EventKind E] {get : W → J}

theorem spared_after {s : Session W S O E} (hs : ∀ p ∈ s.machine.observers, p.2.Spares get)
    {operation : Operation W S O E} (hspare : operation.Spares get) :
    get (s.after operation).world = get s.world := by
  have hwatchers : ∀ o ∈ s.machine.watchers, o.Spares get := by
    intro o ho
    obtain ⟨p, hp, rfl⟩ := List.mem_map.mp ho
    exact hs p hp
  cases operation with
  | reset => exact Observer.notify_spares get (fun o ho => (hwatchers o ho).wasReset _ _ _) s.world
  | fire event =>
    change get (s.machine.fire event s.world).world = get s.world
    cases ha : s.machine.alive with
    | false => rw [Observed.fire_dead ha]
    | true =>
      have hasked := Observer.consult_spares s.machine.name event s.machine.inconsistency get
        (fun o ho => (hwatchers o ho).beforeFire _ _ _) s.world
      cases hc : (Observer.consult s.machine.name event s.machine.inconsistency
          s.machine.watchers s.world).2 with
      | some refusal =>
        rw [Observed.fire_refused ha hc]
        exact hasked
      | none =>
        rw [Observed.fire_passed ha hc]
        exact (Observer.notify_spares get (fun o ho => (hwatchers o ho).fired _ _ _) _).trans hasked
  | modifyOwner f => rfl
  | register o => rfl
  | unregister id => rfl
  | elsewhere f => exact hspare s.world

theorem spared_afterAll {s : Session W S O E} (hs : ∀ p ∈ s.machine.observers, p.2.Spares get)
    {operations : List (Operation W S O E)}
    (hspare : ∀ operation ∈ operations, operation.Spares get) :
    get (s.afterAll operations).world = get s.world := by
  induction operations generalizing s with
  | nil => rfl
  | cons operation rest ih =>
    have hhead := hspare operation List.mem_cons_self
    have hfirst : ∀ o, .register o ∈ [operation] → o.Spares get := by
      intro o ho
      rw [← List.mem_singleton.mp ho] at hhead
      exact hhead
    have hnext : ∀ p ∈ (s.afterAll [operation]).machine.observers, p.2.Spares get :=
      forall_observers_afterAll hs fun o ho _ => hfirst o ho
    exact (ih hnext fun q hq => hspare q (List.mem_cons_of_mem _ hq)).trans
      (spared_after hs hhead)

end Session

end StateTree
