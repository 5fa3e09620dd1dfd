import StateTree.Proofs.Run

/-!
Who observes a machine after a run: those that the run has registered and not removed again, in the
order of their registration. Numbers are given out in ascending order, so none is given out twice.
-/

namespace StateTree

variable {W S O E : Type}

def Operation.isRegistration : Operation W S O E → Bool
  | .register _ => true
  | _ => false

namespace Observed

/-- The observers stand in the order of their numbers, and later ones will get later numbers. -/
structure Numbered (m : Observed W S O E) : Prop where
  ascending : m.observers.Pairwise fun p q => p.1.number < q.1.number
  given : ∀ p ∈ m.observers, p.1.number < m.next

theorem isRegistered_iff {m : Observed W S O E} {id : ObserverId} :
    m.isRegistered id = true ↔ ∃ o, (id, o) ∈ m.observers := by
  rw [isRegistered, List.any_eq_true]
  constructor
  · rintro ⟨p, hp, hid⟩
    exact ⟨p.2, eq_of_beq hid ▸ hp⟩
  · rintro ⟨o, ho⟩
    exact ⟨(id, o), ho, beq_self_eq_true id⟩

/-- Removing takes out the observer with that number, and no other. -/
theorem unregister_spec (m : Observed W S O E) (id : ObserverId) :
    let removed := m.unregister id
    removed.2 = m.isRegistered id ∧ removed.1.isRegistered id = false ∧
      removed.1.toMachine = m.toMachine ∧
      ∀ p, p ∈ removed.1.observers ↔ p ∈ m.observers ∧ p.1 ≠ id := by
  intro removed
  have hmem (p : ObserverId × Observer W S E) :
      p ∈ removed.1.observers ↔ p ∈ m.observers ∧ p.1 ≠ id := by
    have hkept : removed.1.observers = m.observers.filter fun p => p.1 != id := rfl
    rw [hkept, List.mem_filter, bne_iff_ne]
  refine ⟨rfl, ?_, rfl, hmem⟩
  rw [← Bool.not_eq_true, isRegistered_iff]
  rintro ⟨o, ho⟩
  exact ((hmem _).mp ho).2 rfl

/-- An observer among others, each with a number of its own. -/
theorem Numbered.split {m : Observed W S O E} (h : m.Numbered) {p : ObserverId × Observer W S E}
    (hp : p ∈ m.observers) :
    ∃ before after, m.observers = before ++ p :: after ∧ ∀ q ∈ before ++ after, q.1 ≠ p.1 := by
  obtain ⟨before, after, hsplit⟩ := List.append_of_mem hp
  refine ⟨before, after, hsplit, ?_⟩
  have hascending := h.ascending
  rw [hsplit, List.pairwise_append, List.pairwise_cons] at hascending
  obtain ⟨_, ⟨hlater, _⟩, hearlier⟩ := hascending
  intro q hq he
  rcases List.mem_append.mp hq with hq | hq
  · have hlt := hearlier q hq p List.mem_cons_self
    rw [he] at hlt
    exact Nat.lt_irrefl _ hlt
  · have hlt := hlater q hq
    rw [he] at hlt
    exact Nat.lt_irrefl _ hlt

variable [StateId S] [EventKind E]

theorem fire_roster (m : Observed W S O E) (event : E) (world : W) :
    (m.fire event world).machine.observers = m.observers ∧
      (m.fire event world).machine.next = m.next := by
  cases ha : m.alive with
  | false =>
    rw [fire_dead ha]
    exact ⟨rfl, rfl⟩
  | true =>
    cases hc : (Observer.consult m.name event m.inconsistency m.watchers world).2 with
    | some refusal =>
      rw [fire_refused ha hc]
      exact ⟨rfl, rfl⟩
    | none =>
      rw [fire_passed ha hc]
      exact ⟨rfl, rfl⟩

end Observed

namespace Session

theorem numbered_idle (t : Tree S O E) (name id : String) (owner : O) (world : W) :
    (idle t name id owner world).machine.Numbered := ⟨.nil, nofun⟩

variable [StateId S] [EventKind E]

/-- What an operation does to the observers of a machine. -/
theorem roster_after (s : Session W S O E) (operation : Operation W S O E) :
    let m := s.machine
    let next := (s.after operation).machine
    (∃ o, operation = .register o ∧ next.observers = m.observers ++ [(⟨m.next⟩, o)] ∧
        next.next = m.next + 1) ∨
      (∃ id, operation = .unregister id ∧ next.observers = m.observers.filter (fun p => p.1 != id) ∧
        next.next = m.next) ∨
      (operation.isRegistration = false ∧ (∀ id, operation ≠ .unregister id) ∧
        next.observers = m.observers ∧ next.next = m.next) := by
  cases operation with
  | register o => exact Or.inl ⟨o, rfl, rfl, rfl⟩
  | unregister id => exact Or.inr (Or.inl ⟨id, rfl, rfl, rfl⟩)
  | reset => exact Or.inr (Or.inr ⟨rfl, nofun, rfl, rfl⟩)
  | fire event =>
    obtain ⟨hobservers, hnext⟩ := s.machine.fire_roster event s.world
    exact Or.inr (Or.inr ⟨rfl, nofun, hobservers, hnext⟩)
  | modifyOwner f => exact Or.inr (Or.inr ⟨rfl, nofun, rfl, rfl⟩)
  | elsewhere f => exact Or.inr (Or.inr ⟨rfl, nofun, rfl, rfl⟩)

theorem numbered_after {s : Session W S O E} (hs : s.machine.Numbered)
    (operation : Operation W S O E) : (s.after operation).machine.Numbered := by
  rcases s.roster_after operation with ⟨o, _, ho, hn⟩ | ⟨id, _, ho, hn⟩ | ⟨_, _, ho, hn⟩
  · refine ⟨?_, ?_⟩
    · -- the new number is beyond all that were given out
      rw [ho, List.pairwise_append]
      refine ⟨hs.ascending, List.pairwise_singleton _ _, ?_⟩
      intro p hp q hq
      rw [List.mem_singleton.mp hq]
      exact hs.given p hp
    · intro p hp
      rw [ho, List.mem_append, List.mem_singleton] at hp
      rw [hn]
      rcases hp with hp | rfl
      · exact Nat.lt_succ_of_lt (hs.given p hp)
      · exact Nat.lt_succ_self _
  · refine ⟨?_, ?_⟩
    · rw [ho]
      exact hs.ascending.filter _
    · intro p hp
      rw [ho] at hp
      rw [hn]
      exact hs.given p (List.mem_filter.mp hp).1
  · refine ⟨?_, ?_⟩
    · rw [ho]
      exact hs.ascending
    · intro p hp
      rw [ho] at hp
      rw [hn]
      exact hs.given p hp

theorem numbered_afterAll {s : Session W S O E} (hs : s.machine.Numbered)
    (operations : List (Operation W S O E)) : (s.afterAll operations).machine.Numbered := by
  induction operations generalizing s with
  | nil => exact hs
  | cons operation rest ih => exact ih (numbered_after hs operation)

theorem next_afterAll (s : Session W S O E) (operations : List (Operation W S O E)) :
    (s.afterAll operations).machine.next =
      s.machine.next + operations.countP Operation.isRegistration := by
  induction operations generalizing s with
  | nil => rfl
  | cons operation rest ih =>
    change ((s.after operation).afterAll rest).machine.next = _
    rw [ih, List.countP_cons]
    rcases s.roster_after operation with ⟨o, rfl, _, hn⟩ | ⟨id, rfl, _, hn⟩ | ⟨hr, _, _, hn⟩
    · rw [hn, if_pos (by rfl)]
      omega
    · rw [hn, if_neg (by simp [Operation.isRegistration])]
      rfl
    · rw [hn, if_neg (by simp [hr])]
      rfl

/-- Who observes after an operation: those who did and are not removed, and who is registered. -/
theorem mem_observers_after {s : Session W S O E} {operation : Operation W S O E}
    {p : ObserverId × Observer W S E} :
    p ∈ (s.after operation).machine.observers ↔
      (p ∈ s.machine.observers ∧ operation ≠ .unregister p.1) ∨
        (operation = .register p.2 ∧ (s.machine.register p.2).2 = p.1) := by
  rcases s.roster_after operation with ⟨o, rfl, ho, _⟩ | ⟨id, rfl, ho, _⟩ | ⟨hr, hu, ho, _⟩
  · rw [ho, List.mem_append, List.mem_singleton]
    refine or_congr ⟨fun hp => ⟨hp, nofun⟩, And.left⟩ ⟨?_, ?_⟩
    · rintro rfl
      exact ⟨rfl, rfl⟩
    · rintro ⟨he, hid⟩
      cases he
      exact Prod.ext hid.symm rfl
  · rw [ho, List.mem_filter, bne_iff_ne]
    refine ⟨?_, ?_⟩
    · rintro ⟨hp, hne⟩
      exact Or.inl ⟨hp, fun h => hne (Operation.unregister.inj h).symm⟩
    · rintro (⟨hp, hne⟩ | ⟨he, _⟩)
      · exact ⟨hp, fun h => hne (congrArg Operation.unregister h.symm)⟩
      · cases he
  · rw [ho]
    refine ⟨fun hp => Or.inl ⟨hp, hu p.1⟩, ?_⟩
    rintro (⟨hp, _⟩ | ⟨rfl, _⟩)
    · exact hp
    · cases hr

/-- Who observes after a run: those who did and are not removed by it, and those whom it registers
and does not remove later. -/
theorem mem_observers_afterAll {s : Session W S O E} {operations : List (Operation W S O E)}
    {p : ObserverId × Observer W S E} :
    p ∈ (s.afterAll operations).machine.observers ↔
      (p ∈ s.machine.observers ∧ Operation.unregister p.1 ∉ operations) ∨
        ∃ before after, operations = before ++ .register p.2 :: after ∧
          ((s.afterAll before).machine.register p.2).2 = p.1 ∧
          Operation.unregister p.1 ∉ after := by
  induction operations generalizing s with
  | nil => simp [afterAll]
  | cons operation rest ih =>
    change p ∈ ((s.after operation).afterAll rest).machine.observers ↔ _
    -- the rest of the run finds the observer or registers it; what it finds, the first operation
    -- has left or registered
    rw [ih, mem_observers_after]
    constructor
    · rintro (⟨⟨hp, hne⟩ | ⟨rfl, hid⟩, hrest⟩ | ⟨before, after, rfl, hid, hafter⟩)
      · exact Or.inl ⟨hp, fun hm => (List.mem_cons.mp hm).elim (fun h => hne h.symm) hrest⟩
      · exact Or.inr ⟨[], rest, rfl, hid, hrest⟩
      · exact Or.inr ⟨operation :: before, after, rfl, hid, hafter⟩
    · rintro (⟨hp, hnot⟩ | ⟨before, after, hops, hid, hafter⟩)
      · obtain ⟨hhead, hrest⟩ := not_or.mp (mt List.mem_cons.mpr hnot)
        exact Or.inl ⟨Or.inl ⟨hp, Ne.symm hhead⟩, hrest⟩
      · cases before with
        | nil =>
          obtain ⟨rfl, rfl⟩ := List.cons.inj hops
          exact Or.inl ⟨Or.inr ⟨rfl, hid⟩, hafter⟩
        | cons first before =>
          obtain ⟨rfl, rfl⟩ := List.cons.inj hops
          exact Or.inr ⟨before, after, rfl, hid, hafter⟩

/-- What holds of all observers, and of all that a run registers, holds of all that are there after
it. -/
theorem forall_observers_afterAll {P : ObserverId × Observer W S E → Prop} {s : Session W S O E}
    (hs : ∀ p ∈ s.machine.observers, P p) {operations : List (Operation W S O E)}
    (hnew : ∀ o, .register o ∈ operations → ∀ n, P (n, o)) :
    ∀ p ∈ (s.afterAll operations).machine.observers, P p := by
  intro p hp
  rcases mem_observers_afterAll.mp hp with ⟨hold, _⟩ | ⟨before, after, rfl, _, _⟩
  · exact hs p hold
  · exact hnew p.2 (List.mem_append_right _ List.mem_cons_self) p.1

/-- The number that an operation gives out, if it registers an observer. -/
def given? (s : Session W S O E) : Operation W S O E → Option ObserverId
  | .register o => some (s.machine.register o).2
  | _ => none

/-- The numbers that a run gives out, in order. -/
def given (s : Session W S O E) : List (Operation W S O E) → List ObserverId
  | [] => []
  | operation :: rest => (s.given? operation).toList ++ (s.after operation).given rest

/-- Numbers are given out one after the other. -/
theorem given_eq (s : Session W S O E) (operations : List (Operation W S O E)) :
    s.given operations =
      (List.range' s.machine.next (operations.countP Operation.isRegistration)).map
        ObserverId.mk := by
  induction operations generalizing s with
  | nil => rfl
  | cons operation rest ih =>
    -- the rest of the run goes on from the next number
    rw [given, ih, List.countP_cons]
    rcases s.roster_after operation with ⟨o, rfl, _, hn⟩ | ⟨id, rfl, _, hn⟩ | ⟨hr, _, _, hn⟩
    · rw [hn, if_pos (by rfl), List.range'_succ]
      rfl
    · rw [hn, if_neg (by simp [Operation.isRegistration])]
      rfl
    · have hnone : s.given? operation = none := by
        cases operation with
        | register o => cases hr
        | reset => rfl
        | fire event => rfl
        | modifyOwner f => rfl
        | unregister id => rfl
        | elsewhere f => rfl
      rw [hn, if_neg (by simp [hr]), hnone]
      rfl

theorem given_nodup (s : Session W S O E) (operations : List (Operation W S O E)) :
    (s.given operations).Nodup := by
  rw [given_eq]
  refine List.Pairwise.map _ ?_ List.nodup_range'
  intro i j hne he
  exact hne (congrArg ObserverId.number he)

/-- Observers stand in the order in which their numbers were given out. -/
theorem observers_sublist (s : Session W S O E) (operations : List (Operation W S O E)) :
    ((s.afterAll operations).machine.observers.map Prod.fst).Sublist
      (s.machine.observers.map Prod.fst ++ s.given operations) := by
  induction operations generalizing s with
  | nil =>
    rw [given, List.append_nil]
    exact List.Sublist.refl _
  | cons operation rest ih =>
    refine (ih (s.after operation)).trans ?_
    -- a registration adds its number at the end, a removal only takes one out
    rw [given, ← List.append_assoc]
    refine List.Sublist.append ?_ (List.Sublist.refl _)
    rcases s.roster_after operation with ⟨o, rfl, ho, _⟩ | ⟨id, rfl, ho, _⟩ | ⟨_, _, ho, _⟩
    · rw [ho, List.map_append]
      exact List.Sublist.refl _
    · rw [ho]
      exact (List.filter_sublist.map Prod.fst).trans (List.sublist_append_left _ _)
    · rw [ho]
      exact List.sublist_append_left _ _

theorem given_lt {s : Session W S O E} {operations : List (Operation W S O E)} {id : ObserverId}
    (h : id ∈ s.given operations) :
    id.number < s.machine.next + operations.countP Operation.isRegistration := by
  rw [given_eq] at h
  obtain ⟨n, hn, rfl⟩ := List.mem_map.mp h
  exact (List.mem_range'_1.mp hn).2

end Session

end StateTree
