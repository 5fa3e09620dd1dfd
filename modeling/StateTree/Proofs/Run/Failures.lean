import StateTree.Proofs.Run

/-!
Failures over runs. A failure that interrupts a crossing is left behind by the operation it ends;
until the next reset nothing but another such failure takes its place.
-/

namespace StateTree

variable {W S O E : Type}

theorem Failure.leavesConsistent_iff (f : Failure S) :
    f.leavesConsistent = true ↔ f.phase ≠ .exit ∧ f.phase ≠ .action ∧ f.phase ≠ .entry := by
  unfold leavesConsistent
  cases f.phase <;> decide

theorem Machine.carry_eq_or (before : Option (Failure S)) (reaction : Reaction S) :
    carry before reaction =
      (reaction.failure?.filter fun f => !f.leavesConsistent).or before := by
  cases reaction with
  | ignored => rfl
  | stayed id => rfl
  | moved move => rfl
  | failed f =>
    -- the failure is carried on if it interrupted a crossing
    cases hf : f.leavesConsistent with
    | false => simp [carry, Reaction.failure?, Option.filter, hf]
    | true => simp [carry, Reaction.failure?, Option.filter, hf]

theorem Tree.reset_interrupts {t : Tree S O E} (ht : t.Linked) {c : Configuration O}
    {f : Failure S} (h : (t.reset c).failure? = some f) : f.leavesConsistent = false := by
  cases hr : t.reset c with
  | going v =>
    rw [hr] at h
    cases h
  | stopped v g =>
    rw [hr] at h
    cases h
    rw [Work.reset_eq_march ht] at hr
    exact Work.march_interrupts hr

namespace Session

variable [StateId S] [EventKind E]

/-- The failure of an operation, if it fails. -/
def failure? (s : Session W S O E) : Operation W S O E → Option (Failure S)
  | .reset => (s.machine.reset s.world).answer
  | .fire event => (s.machine.fire event s.world).answer.toOption.bind Reaction.failure?
  | .modifyOwner _ | .register _ | .unregister _ | .elsewhere _ => none

theorem answer_of_failure? {s : Session W S O E} {event : E} {f : Failure S}
    (h : s.failure? (.fire event) = some f) :
    (s.machine.fire event s.world).answer = .ok (.failed f) := by
  change (s.machine.fire event s.world).answer.toOption.bind Reaction.failure? = some f at h
  cases ha : (s.machine.fire event s.world).answer with
  | error refusal =>
    rw [ha] at h
    cases h
  | ok reaction =>
    rw [ha] at h
    cases reaction <;> cases h
    rfl

/-- The failures of a run, in order. -/
def failures (s : Session W S O E) : List (Operation W S O E) → List (Failure S)
  | [] => []
  | operation :: rest => (s.failure? operation).toList ++ (s.after operation).failures rest

/-- A reset forgets what was left behind. -/
theorem inconsistency_reset (s : Session W S O E) :
    (s.after .reset).machine.inconsistency = s.failure? .reset := rfl

/-- Only a new failure takes the place of one that was left behind. -/
theorem inconsistency_after (s : Session W S O E) {operation : Operation W S O E}
    (hn : operation ≠ .reset) :
    (s.after operation).machine.inconsistency =
      ((s.failure? operation).filter fun f => !f.leavesConsistent).or s.machine.inconsistency := by
  cases operation with
  | reset => exact absurd rfl hn
  | fire event =>
    change (s.machine.fire event s.world).machine.inconsistency = _
    rcases s.machine.fire_cases event s.world with ⟨hm, _, refusal, hr⟩ | ⟨_, hm, _, hr⟩
    · simp only [failure?, hr, hm]
      rfl
    · have hcarry : (s.machine.fire event s.world).machine.inconsistency =
          Machine.carry s.machine.inconsistency (s.machine.react event).answer :=
        congrArg (fun m => m.inconsistency) hm
      simp only [failure?, hr, hcarry]
      exact Machine.carry_eq_or _ _
  | modifyOwner f => rfl
  | register o => rfl
  | unregister id => rfl
  | elsewhere f => rfl

/-- Without a reset, the last failure that interrupts a crossing is left behind. -/
theorem inconsistency_afterAll (s : Session W S O E) {operations : List (Operation W S O E)}
    (hn : Operation.reset ∉ operations) :
    (s.afterAll operations).machine.inconsistency =
      ((s.failures operations).filter fun f => !f.leavesConsistent).getLast?.or
        s.machine.inconsistency := by
  induction operations generalizing s with
  | nil => rfl
  | cons operation rest ih =>
    obtain ⟨hhead, hrest⟩ := not_or.mp (mt List.mem_cons.mpr hn)
    -- what the first operation leaves behind counts if nothing follows it
    have hfirst : ((s.failure? operation).toList.filter fun f => !f.leavesConsistent).getLast? =
        (s.failure? operation).filter fun f => !f.leavesConsistent := by
      cases s.failure? operation with
      | none => rfl
      | some f => cases hf : f.leavesConsistent <;> simp [Option.filter, hf]
    change ((s.after operation).afterAll rest).machine.inconsistency = _
    rw [ih (s.after operation) hrest, inconsistency_after s (Ne.symm hhead), failures,
      List.filter_append, List.getLast?_append, hfirst, Option.or_assoc]

/-- The failures of a run without a reset are those that its events end in. -/
theorem mem_failures_iff {s : Session W S O E} {operations : List (Operation W S O E)}
    (hn : Operation.reset ∉ operations) {f : Failure S} :
    f ∈ s.failures operations ↔
      ∃ before event after, operations = before ++ .fire event :: after ∧
        let r := s.afterAll before
        (r.machine.fire event r.world).answer = .ok (.failed f) := by
  induction operations generalizing s with
  | nil => simp [failures]
  | cons operation rest ih =>
    obtain ⟨hhead, hrest⟩ := not_or.mp (mt List.mem_cons.mpr hn)
    rw [failures, List.mem_append, Option.mem_toList, ih hrest]
    constructor
    · rintro (hf | ⟨before, event, after, rfl, hanswer⟩)
      · -- only an event and a reset can fail
        cases operation with
        | reset => exact absurd rfl hhead
        | fire event => exact ⟨[], event, rest, rfl, answer_of_failure? hf⟩
        | modifyOwner _ => cases hf
        | register _ => cases hf
        | unregister _ => cases hf
        | elsewhere _ => cases hf
      · exact ⟨operation :: before, event, after, rfl, hanswer⟩
    · rintro ⟨before, event, after, hops, hanswer⟩
      cases before with
      | nil =>
        obtain ⟨rfl, _⟩ := List.cons.inj hops
        refine Or.inl ?_
        simp only [failure?, show (s.machine.fire event s.world).answer = _ from hanswer]
        rfl
      | cons first before =>
        obtain ⟨rfl, rfl⟩ := List.cons.inj hops
        exact Or.inr ⟨before, event, after, rfl, hanswer⟩

/-- A consistent machine stays so as long as no crossing is interrupted. -/
theorem inconsistency_of_calm [DecidableEq S] {t : Tree S O E} (ht : t.Sound)
    {s : Session W S O E} (hover : s.machine.toMachine.Over t)
    (hs : s.machine.inconsistency = none) {operations : List (Operation W S O E)}
    (hcalm : ∀ f ∈ s.failures operations, f.leavesConsistent = true) :
    (s.afterAll operations).machine.inconsistency = none := by
  induction operations generalizing s with
  | nil => exact hs
  | cons operation rest ih =>
    have hfirst : ∀ f, s.failure? operation = some f → f.leavesConsistent = true := by
      intro f hf
      exact hcalm f (List.mem_append_left _ (Option.mem_toList.mpr hf))
    refine ih (over_afterAll ht hover [operation]) ?_
      fun f hf => hcalm f (List.mem_append_right _ hf)
    by_cases hr : operation = .reset
    · subst hr
      rw [inconsistency_reset]
      -- no failure of a reset leaves the machine consistent, so there was none
      cases hf : s.failure? .reset with
      | none => rfl
      | some f =>
        have hreset : (t.reset s.machine.toConfiguration).failure? = some f := by
          rw [← hover.tree]
          exact hf
        cases (hfirst f hf).symm.trans (Tree.reset_interrupts ht.toLinked hreset)
    · rw [inconsistency_after s hr, hs]
      cases hf : s.failure? operation with
      | none => rfl
      | some f => simp [hfirst f hf]

end Session

end StateTree
