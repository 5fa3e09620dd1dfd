import StateTree.Proofs.Run.Sparing

/-!
One observer beside others. It has a world to itself, and whatever the others do, only what the
machine asks it and tells it changes that world.
-/

namespace StateTree

variable {G V W S O E : Type}

namespace Observer

/-- An observer that has the first part of a world to itself. -/
def alone (o : Observer G S E) : Observer (G × V) S E := o.zoom Prod.fst fun g world => (g, world.2)

/-- An observer of the second part of a world. -/
def beside (o : Observer V S E) : Observer (G × V) S E := o.zoom Prod.snd fun v world => (world.1, v)

theorem spares_beside (o : Observer V S E) : (o.beside : Observer (G × V) S E).Spares Prod.fst :=
  ⟨fun _ _ _ _ => rfl, fun _ _ _ _ => rfl, fun _ _ _ _ => rfl⟩

/-- The answer of the observer with number `id`, where it is asked: none before it refuses. -/
def answer? (machine : String) (event : E) (inconsistency : Option (Failure S)) (id : ObserverId) :
    List (ObserverId × Observer W S E) → W → Option (Option Refusal)
  | [], _ => none
  | o :: rest, world =>
    let asked := o.2.beforeFire machine event inconsistency world
    if o.1 = id then some asked.2
    else
      match asked.2 with
      | some _ => none
      | none => answer? machine event inconsistency id rest asked.1

section

variable (machine : String) (event : E) (inconsistency : Option (Failure S))

theorem consult_append (xs ys : List (Observer W S E)) (world : W) :
    let asked := consult machine event inconsistency xs world
    consult machine event inconsistency (xs ++ ys) world =
      match asked.2 with
      | some refusal => (asked.1, some refusal)
      | none => consult machine event inconsistency ys asked.1 := by
  induction xs generalizing world with
  | nil => rfl
  | cons o rest ih =>
    simp only [List.cons_append, consult]
    cases (o.beforeFire machine event inconsistency world).2 with
    | some refusal => rfl
    | none => exact ih _

theorem consult_beside {os : List (Observer (G × V) S E)}
    (hos : ∀ o ∈ os, ∃ q : Observer V S E, o = q.beside) (world : G × V) :
    (consult machine event inconsistency os world).1.1 = world.1 := by
  refine consult_spares machine event inconsistency Prod.fst ?_ world
  intro o ho world
  obtain ⟨q, rfl⟩ := hos o ho
  rfl

/-- Once an observer with a part of its own is asked, the others leave that part alone; and if it
refuses, that is the answer. -/
theorem consult_alone (o : Observer G S E) {after : List (Observer (G × V) S E)}
    (hafter : ∀ q ∈ after, ∃ q' : Observer V S E, q = q'.beside) (world : G × V) :
    let own := o.beforeFire machine event inconsistency world.1
    let asked := consult machine event inconsistency (o.alone :: after) world
    asked.1.1 = own.1 ∧ ∀ refusal, own.2 = some refusal → asked.2 = some refusal := by
  intro own asked
  have hown : o.alone.beforeFire machine event inconsistency world =
      ((own.1, world.2), own.2) := rfl
  cases ho : own.2 with
  | some refusal =>
    have hasked : asked = ((own.1, world.2), some refusal) := by
      simp only [asked, consult, hown, ho]
    rw [hasked]
    exact ⟨rfl, fun _ => id⟩
  | none =>
    have hasked : asked = consult machine event inconsistency after (own.1, world.2) := by
      simp only [asked, consult, hown, ho]
    rw [hasked]
    refine ⟨consult_beside machine event inconsistency hafter _, ?_⟩
    intro refusal h
    cases h

theorem answer?_append {id : ObserverId} {before : List (ObserverId × Observer W S E)}
    (hbefore : ∀ o ∈ before, o.1 ≠ id) (o : Observer W S E)
    (after : List (ObserverId × Observer W S E)) (world : W) :
    let asked := consult machine event inconsistency (before.map Prod.snd) world
    answer? machine event inconsistency id (before ++ (id, o) :: after) world =
      match asked.2 with
      | some _ => none
      | none => some (o.beforeFire machine event inconsistency asked.1).2 := by
  induction before generalizing world with
  | nil => simp [answer?, consult]
  | cons p rest ih =>
    have hp : p.1 ≠ id := hbefore p List.mem_cons_self
    simp only [List.cons_append, answer?, hp, if_false, List.map_cons, consult]
    cases (p.2.beforeFire machine event inconsistency world).2 with
    | some refusal => rfl
    | none => exact ih (fun o ho => hbefore o (List.mem_cons_of_mem _ ho)) _

end

section

variable {tell : Observer (G × V) S E → G × V → (G × V) × List Line}

/-- What is told to one observer among others is all that changes its world. -/
theorem notify_alone
    (htell : ∀ (q : Observer V S E) (world : G × V), (tell q.beside world).1.1 = world.1)
    {learn : G → G} {o : Observer (G × V) S E} (ho : ∀ world, (tell o world).1.1 = learn world.1)
    {before after : List (Observer (G × V) S E)}
    (hbefore : ∀ o ∈ before, ∃ q : Observer V S E, o = q.beside)
    (hafter : ∀ o ∈ after, ∃ q : Observer V S E, o = q.beside) (world : G × V) :
    (notify tell (before ++ o :: after) world).1.1 = learn world.1 := by
  refine notify_learns Prod.fst learn ho ?_ ?_ world
  · intro q hq world
    obtain ⟨q, rfl⟩ := hbefore q hq
    exact htell q world
  · intro q hq world
    obtain ⟨q, rfl⟩ := hafter q hq
    exact htell q world

end

end Observer

/-- The same operation on a world that has another part besides. -/
def Operation.beside : Operation V S O E → Operation (G × V) S O E
  | .reset => .reset
  | .fire event => .fire event
  | .modifyOwner f => .modifyOwner f
  | .register o => .register o.beside
  | .unregister id => .unregister id
  | .elsewhere f => .elsewhere fun world => (world.1, f world.2)

theorem Operation.spares_beside (operation : Operation V S O E) :
    (operation.beside : Operation (G × V) S O E).Spares Prod.fst := by
  cases operation with
  | register o => exact o.spares_beside
  | elsewhere f => exact fun _ => rfl
  | reset => trivial
  | fire event => trivial
  | modifyOwner f => trivial
  | unregister id => trivial

namespace Observed

/-- Observers with numbers that were given out, none of which has the first part of the world. -/
def Aside (m : Observed (G × V) S O E) (os : List (ObserverId × Observer (G × V) S E)) : Prop :=
  ∀ p ∈ os, p.1.number < m.next ∧ ∃ q : Observer V S E, p.2 = q.beside

/-- The observer `o` has the number `id` and the first part of the world to itself. -/
structure Hosts (m : Observed (G × V) S O E) (id : ObserverId) (o : Observer G S E) : Prop where
  given : id.number < m.next
  place : ∃ before after, m.observers = before ++ (id, o.alone) :: after ∧
    m.Aside (before ++ after) ∧ ∀ p ∈ before ++ after, p.1 ≠ id

/-- The answer of the observer with number `id` to an event that is fired, where it is asked. -/
def answerOf? (m : Observed W S O E) (id : ObserverId) (event : E) (world : W) :
    Option (Option Refusal) :=
  if m.alive then Observer.answer? m.name event m.inconsistency id m.observers world else none

theorem Aside.watchers {m : Observed (G × V) S O E}
    {os : List (ObserverId × Observer (G × V) S E)} (h : m.Aside os) :
    ∀ o ∈ os.map Prod.snd, ∃ q : Observer V S E, o = q.beside := by
  intro o ho
  obtain ⟨p, hp, rfl⟩ := List.mem_map.mp ho
  exact (h p hp).2

theorem Aside.register {m : Observed (G × V) S O E}
    {os : List (ObserverId × Observer (G × V) S E)} (h : m.Aside os) (q : Observer V S E) :
    (m.register q.beside).1.Aside (os ++ [(⟨m.next⟩, q.beside)]) := by
  intro p hp
  rcases List.mem_append.mp hp with hp | hp
  · exact ⟨Nat.lt_succ_of_lt (h p hp).1, (h p hp).2⟩
  · rw [List.mem_singleton] at hp
    subst hp
    exact ⟨Nat.lt_succ_self m.next, q, rfl⟩

theorem Aside.unregister {m : Observed (G × V) S O E}
    {os : List (ObserverId × Observer (G × V) S E)} (h : m.Aside os) (id : ObserverId) :
    (m.unregister id).1.Aside (os.filter fun p => p.1 != id) :=
  fun p hp => h p (List.mem_filter.mp hp).1

/-- An observer that registers has the last place and a number of its own. -/
theorem hosts_register {m : Observed (G × V) S O E} (h : m.Aside m.observers)
    (o : Observer G S E) : (m.register o.alone).1.Hosts (m.register o.alone).2 o := by
  refine ⟨Nat.lt_succ_self m.next, m.observers, [], rfl, ?_, ?_⟩
  · intro p hp
    rw [List.append_nil] at hp
    exact ⟨Nat.lt_succ_of_lt (h p hp).1, (h p hp).2⟩
  · intro p hp hid
    rw [List.append_nil] at hp
    have hlt := (h p hp).1
    rw [hid] at hlt
    exact absurd hlt (Nat.lt_irrefl m.next)

namespace Hosts

variable {m : Observed (G × V) S O E} {id : ObserverId} {o : Observer G S E}

theorem isRegistered (h : m.Hosts id o) : m.isRegistered id = true := by
  obtain ⟨_, before, after, hobservers, _⟩ := h
  simp [Observed.isRegistered, hobservers]

theorem register (h : m.Hosts id o) (q : Observer V S E) :
    (m.register q.beside).1.Hosts id o := by
  obtain ⟨hgiven, before, after, hobservers, haside, hother⟩ := h
  refine ⟨Nat.lt_succ_of_lt hgiven, before, after ++ [(⟨m.next⟩, q.beside)], ?_, ?_, ?_⟩
  · simp [Observed.register, hobservers]
  · rw [← List.append_assoc]
    exact haside.register q
  · intro p hp
    rw [← List.append_assoc] at hp
    rcases List.mem_append.mp hp with hp | hp
    · exact hother p hp
    · -- the new number has not been given out before
      rw [List.mem_singleton] at hp
      subst hp
      rintro rfl
      exact Nat.lt_irrefl m.next hgiven

theorem unregister (h : m.Hosts id o) {other : ObserverId} (hother : other ≠ id) :
    (m.unregister other).1.Hosts id o := by
  obtain ⟨hgiven, before, after, hobservers, haside, hapart⟩ := h
  refine ⟨hgiven, before.filter (fun p => p.1 != other), after.filter (fun p => p.1 != other),
    ?_, ?_, ?_⟩
  · have hkept : ((id, o.alone (V := V)).1 != other) = true := by simpa using hother.symm
    simp [Observed.unregister, hobservers, hkept]
  · rw [← List.filter_append]
    exact haside.unregister other
  · intro p hp
    rw [← List.filter_append] at hp
    exact hapart p (List.mem_filter.mp hp).1

/-- Only what the observer is asked changes its world, and only if an observer before it refuses is
it not asked. -/
theorem consult (h : m.Hosts id o) (event : E) (world : G × V) :
    let asked := Observer.consult m.name event m.inconsistency m.watchers world
    let answer := Observer.answer? m.name event m.inconsistency id m.observers world
    let own := o.beforeFire m.name event m.inconsistency world.1
    (answer = none ∧ asked.1.1 = world.1 ∧ ∃ refusal, asked.2 = some refusal) ∨
      (answer = some own.2 ∧ asked.1.1 = own.1 ∧ ∀ refusal, own.2 = some refusal →
        asked.2 = some refusal) := by
  intro asked answer own
  obtain ⟨_, before, after, hobservers, haside, hother⟩ := h
  have hfirst : m.Aside before := fun p hp => haside p (List.mem_append_left _ hp)
  have hlast : m.Aside after := fun p hp => haside p (List.mem_append_right _ hp)
  let earlier := Observer.consult m.name event m.inconsistency (before.map Prod.snd) world
  have hearlier : earlier.1.1 = world.1 := Observer.consult_beside _ _ _ hfirst.watchers world
  have hanswer : answer = match earlier.2 with
      | some _ => none
      | none => some (o.alone.beforeFire m.name event m.inconsistency earlier.1).2 := by
    have hbefore : ∀ p ∈ before, p.1 ≠ id := fun p hp => hother p (List.mem_append_left _ hp)
    simp only [answer, hobservers]
    exact Observer.answer?_append m.name event m.inconsistency hbefore o.alone after world
  have hasked : asked = match earlier.2 with
      | some refusal => (earlier.1, some refusal)
      | none => Observer.consult m.name event m.inconsistency (o.alone :: after.map Prod.snd)
          earlier.1 := by
    simp only [asked, watchers, hobservers, List.map_append, List.map_cons]
    exact Observer.consult_append _ _ _ _ _ world
  cases he : earlier.2 with
  | some refusal =>
    rw [he] at hanswer hasked
    rw [hasked]
    exact Or.inl ⟨hanswer, hearlier, refusal, rfl⟩
  | none =>
    rw [he] at hanswer hasked
    rw [hasked]
    -- those before the observer have left its part of the world as it was
    have hown : own = o.beforeFire m.name event m.inconsistency earlier.1.1 := by
      rw [hearlier]
    rw [hown]
    exact Or.inr ⟨hanswer,
      Observer.consult_alone m.name event m.inconsistency o hlast.watchers earlier.1⟩

/-- Of all that the observers are told, only what the observer itself is told changes its world. -/
theorem notify (h : m.Hosts id o) {tell : Observer (G × V) S E → G × V → (G × V) × List Line}
    (htell : ∀ (q : Observer V S E) (world : G × V), (tell q.beside world).1.1 = world.1)
    (learn : G → G) (hlearn : ∀ world, (tell o.alone world).1.1 = learn world.1)
    (world : G × V) : (Observer.notify tell m.watchers world).1.1 = learn world.1 := by
  obtain ⟨_, before, after, hobservers, haside, _⟩ := h
  have hfirst : m.Aside before := fun p hp => haside p (List.mem_append_left _ hp)
  have hlast : m.Aside after := fun p hp => haside p (List.mem_append_right _ hp)
  simp only [watchers, hobservers, List.map_append, List.map_cons]
  exact Observer.notify_alone htell hlearn hfirst.watchers hlast.watchers world

variable [StateId S] [EventKind E]

theorem reset (h : m.Hosts id o) (world : G × V) :
    (m.reset world).world.1 =
      (o.wasReset m.name m.toMachine.reset.machine.activeStates m.toMachine.reset.answer
        world.1).1 := by
  let told (q : Observer (G × V) S E) := q.wasReset m.name
    m.toMachine.reset.machine.activeStates m.toMachine.reset.answer
  have hbeside (q : Observer V S E) (w : G × V) : (told q.beside w).1.1 = w.1 := rfl
  exact h.notify hbeside (fun g => (o.wasReset m.name m.toMachine.reset.machine.activeStates
    m.toMachine.reset.answer g).1) (fun _ => rfl) world

/-- What an event does to the world of the observer: nothing if it is not asked, else what it is
asked, and then what it is told of the reaction. -/
theorem fire (h : m.Hosts id o) (event : E) (world : G × V) :
    let reply := m.fire event world
    let asked := o.beforeFire m.name event m.inconsistency world.1
    let reacted := m.react event
    (m.answerOf? id event world = none ∧ reply.world.1 = world.1 ∧ reply.machine = m ∧
        ∃ refusal, reply.answer = .error refusal) ∨
      (m.answerOf? id event world = some asked.2 ∧ reply.world.1 = asked.1 ∧ reply.machine = m ∧
        ∃ refusal, reply.answer = .error refusal ∧ ∀ own, asked.2 = some own → own = refusal) ∨
      (m.answerOf? id event world = some none ∧ asked.2 = none ∧
        reply.machine = { m with toMachine := reacted.machine } ∧
        reply.answer = .ok reacted.answer ∧
        reply.world.1 = (o.fired m.name event reacted.answer asked.1).1) := by
  intro reply asked reacted
  cases ha : m.alive with
  | false =>
    have hunasked : m.answerOf? id event world = none := by simp [answerOf?, ha]
    have hreply : reply = _ := fire_dead ha event world
    rw [hreply]
    exact Or.inl ⟨hunasked, rfl, rfl, _, rfl⟩
  | true =>
    have hanswer : m.answerOf? id event world =
        Observer.answer? m.name event m.inconsistency id m.observers world := by
      simp [answerOf?, ha]
    rw [hanswer]
    cases hc : (Observer.consult m.name event m.inconsistency m.watchers world).2 with
    | some refusal =>
      have hreply : reply = _ := fire_refused ha hc
      rw [hreply]
      rcases h.consult event world with ⟨hnone, hworld, _⟩ | ⟨hown, hworld, hsame⟩
      · exact Or.inl ⟨hnone, hworld, rfl, refusal, rfl⟩
      · refine Or.inr (Or.inl ⟨hown, hworld, rfl, refusal, rfl, ?_⟩)
        intro own hrefused
        exact Option.some.inj ((hsame own hrefused).symm.trans hc)
    | none =>
      have hreply : reply = _ := fire_passed ha hc
      rw [hreply]
      rcases h.consult event world with ⟨_, _, refusal, hr⟩ | ⟨hown, hworld, hsame⟩
      · cases hc.symm.trans hr
      -- a refusal of its own would have been the answer
      have hpassed : asked.2 = none := by
        cases hasked : asked.2 with
        | none => rfl
        | some own => cases hc.symm.trans (hsame own hasked)
      refine Or.inr (Or.inr ⟨hown.trans (congrArg some hpassed), hpassed, rfl, rfl, ?_⟩)
      let told (q : Observer (G × V) S E) := q.fired m.name event reacted.answer
      have hbeside (q : Observer V S E) (w : G × V) : (told q.beside w).1.1 = w.1 := rfl
      let learn (g : G) := (o.fired m.name event reacted.answer g).1
      exact (h.notify hbeside learn (fun _ => rfl) _).trans (congrArg learn hworld)

end Hosts

end Observed

namespace Session

variable [StateId S] [EventKind E]

theorem aside_after {s : Session (G × V) S O E} (hs : s.machine.Aside s.machine.observers)
    (operation : Operation V S O E) :
    let next := s.after operation.beside
    next.machine.Aside next.machine.observers ∧ next.world.1 = s.world.1 := by
  have hspare : ∀ p ∈ s.machine.observers, p.2.Spares Prod.fst := by
    intro p hp
    obtain ⟨q, hq⟩ := (hs p hp).2
    rw [hq]
    exact q.spares_beside
  refine ⟨?_, spared_after hspare operation.spares_beside⟩
  cases operation with
  | reset => exact hs
  | fire event =>
    obtain ⟨hobservers, hnext⟩ := s.machine.fire_roster event s.world
    intro p hp
    have hold := hs p (hobservers ▸ hp)
    exact ⟨hnext ▸ hold.1, hold.2⟩
  | modifyOwner f => exact hs
  | register q => exact hs.register q
  | unregister id => exact hs.unregister id
  | elsewhere f => exact hs

/-- While nobody has the first part of the world, it stays as it is. -/
theorem afterAll_aside {s : Session (G × V) S O E} (hs : s.machine.Aside s.machine.observers)
    (operations : List (Operation V S O E)) :
    let next := s.afterAll (operations.map Operation.beside)
    next.machine.Aside next.machine.observers ∧ next.world.1 = s.world.1 := by
  induction operations generalizing s with
  | nil => exact ⟨hs, rfl⟩
  | cons operation rest ih =>
    obtain ⟨haside, hworld⟩ := aside_after hs operation
    obtain ⟨hlast, hsame⟩ := ih haside
    exact ⟨hlast, hsame.trans hworld⟩

variable {id : ObserverId} {o : Observer G S E}

theorem hosts_after {s : Session (G × V) S O E} (hs : s.machine.Hosts id o)
    {operation : Operation V S O E} (hn : operation ≠ .unregister id) :
    (s.after operation.beside).machine.Hosts id o := by
  cases operation with
  | reset => exact ⟨hs.given, hs.place⟩
  | fire event =>
    obtain ⟨hobservers, hnext⟩ := s.machine.fire_roster event s.world
    obtain ⟨hgiven, before, after, hplace, haside, hother⟩ := hs
    refine ⟨?_, before, after, ?_, ?_, hother⟩
    · exact hnext ▸ hgiven
    · exact hobservers.trans hplace
    · intro p hp
      exact ⟨hnext ▸ (haside p hp).1, (haside p hp).2⟩
  | modifyOwner f => exact ⟨hs.given, hs.place⟩
  | register q => exact hs.register q
  | unregister other => exact hs.unregister fun h => hn (h ▸ rfl)
  | elsewhere f => exact hs

/-- An invariant of a machine and of an observer with a world of its own is kept by every run if it
is kept by whatever the observer is asked and told. -/
theorem hosts_keeps {P : Machine S O E → G → Prop} {operations : List (Operation V S O E)}
    (hreset : Operation.reset ∈ operations → ∀ m g, P m g →
      P m.reset.machine (o.wasReset m.name m.reset.machine.activeStates m.reset.answer g).1)
    (hasked : ∀ m event g, P m g → P m (o.beforeFire m.name event m.inconsistency g).1)
    (hfired : ∀ m event g, P m g →
      let asked := o.beforeFire m.name event m.inconsistency g
      asked.2 = none →
        P (m.react event).machine (o.fired m.name event (m.react event).answer asked.1).1)
    (howner : ∀ m f g, P m g → P (m.modifyOwner f) g)
    {s : Session (G × V) S O E} (hs : s.machine.Hosts id o)
    (hP : P s.machine.toMachine s.world.1) (hn : Operation.unregister id ∉ operations) :
    let next := s.afterAll (operations.map Operation.beside)
    next.machine.Hosts id o ∧ P next.machine.toMachine next.world.1 := by
  induction operations generalizing s with
  | nil => exact ⟨hs, hP⟩
  | cons operation rest ih =>
    obtain ⟨hhead, hrest⟩ := not_or.mp (mt List.mem_cons.mpr hn)
    refine ih (fun hm => hreset (List.mem_cons_of_mem _ hm)) (hosts_after hs (Ne.symm hhead)) ?_
      hrest
    cases operation with
    | reset =>
      change P s.machine.toMachine.reset.machine (s.machine.reset s.world).world.1
      rw [hs.reset]
      exact hreset List.mem_cons_self _ _ hP
    | fire event =>
      change P (s.machine.fire event s.world).machine.toMachine (s.machine.fire event s.world).world.1
      rcases hs.fire event s.world with
        ⟨_, hworld, hm, _⟩ | ⟨_, hworld, hm, _⟩ | ⟨_, hpassed, hm, _, hworld⟩
      · rw [hm, hworld]
        exact hP
      · rw [hm, hworld]
        exact hasked _ event _ hP
      · rw [hm, hworld]
        exact hfired _ event _ hP hpassed
    | modifyOwner f => exact howner _ f _ hP
    | register q => exact hP
    | unregister other => exact hP
    | elsewhere f => exact hP

end Session

end StateTree
