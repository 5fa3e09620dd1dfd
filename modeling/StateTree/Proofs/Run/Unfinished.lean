import StateTree.Proofs.Run.Failures
import StateTree.Proofs.Run.Reentry

/-!
What a machine has left unfinished. Its inconsistency is the latest failure that has interrupted a
crossing since the last reset, that of the reset itself included.
-/

namespace StateTree

variable {W S O E : Type}

theorem Failure.interrupts_iff (f : Failure S) :
    f.leavesConsistent = false ↔ f.phase = .exit ∨ f.phase = .action ∨ f.phase = .entry := by
  rw [← Bool.not_eq_true, f.leavesConsistent_iff]
  simp only [ne_eq, Classical.not_and_iff_not_or_not, Classical.not_not]

namespace Session

variable [StateId S] [EventKind E]

/-- What a reset and the operations after it leave unfinished: the failure of the reset, and then
each failure of an exit, of a transition or of an entry, in order. -/
def unfinished (s : Session W S O E) (later : List (Operation W S O E)) : List (Failure S) :=
  (s.failure? .reset).toList ++ ((s.after .reset).failures later).filter fun f =>
    f.phase = .exit ∨ f.phase = .action ∨ f.phase = .entry

theorem inconsistency_eq_unfinished (s : Session W S O E) {later : List (Operation W S O E)}
    (hlater : Operation.reset ∉ later) :
    ((s.after .reset).afterAll later).machine.inconsistency = (s.unfinished later).getLast? := by
  have hphases : ((s.after .reset).failures later).filter (fun f => !f.leavesConsistent) =
      ((s.after .reset).failures later).filter fun f =>
        f.phase = .exit ∨ f.phase = .action ∨ f.phase = .entry := by
    apply List.filter_congr
    intro f _
    rw [Bool.eq_iff_iff, Bool.not_eq_true', f.interrupts_iff, decide_eq_true_eq]
  have hreset : (s.failure? .reset).toList.getLast? = s.failure? .reset := by
    cases s.failure? .reset <;> rfl
  rw [inconsistency_afterAll _ hlater, inconsistency_reset, unfinished, hphases,
    List.getLast?_append, hreset]

theorem mem_unfinished_iff {s : Session W S O E} {later : List (Operation W S O E)}
    (hlater : Operation.reset ∉ later) {f : Failure S} :
    f ∈ s.unfinished later ↔
      (s.machine.reset s.world).answer = some f ∨
        ∃ before event after, later = before ++ .fire event :: after ∧
          (let r := (s.after .reset).afterAll before
          (r.machine.fire event r.world).answer = .ok (.failed f)) ∧
          (f.phase = .exit ∨ f.phase = .action ∨ f.phase = .entry) := by
  rw [unfinished, List.mem_append, Option.mem_toList, List.mem_filter, mem_failures_iff hlater,
    decide_eq_true_eq]
  refine or_congr Iff.rfl ⟨?_, ?_⟩
  · rintro ⟨⟨before, event, after, hops, hanswer⟩, hphase⟩
    exact ⟨before, event, after, hops, hanswer, hphase⟩
  · rintro ⟨before, event, after, hops, hanswer, hphase⟩
    exact ⟨⟨before, event, after, hops, hanswer⟩, hphase⟩

/-- Where nothing is interrupted, an event leaves the inconsistency as it was. -/
theorem inconsistency_fire (m : Observed W S O E) (event : E) (seen : W)
    (hquiet : ∀ f, (m.fire event seen).answer = .ok (.failed f) → f.leavesConsistent = true) :
    (m.fire event seen).machine.inconsistency = m.inconsistency := by
  have hfire : Operation.fire event ≠ (.reset : Operation W S O E) := nofun
  have hafter : (m.fire event seen).machine.inconsistency = _ :=
    inconsistency_after ⟨m, seen⟩ hfire
  rw [hafter]
  cases hf : failure? ⟨m, seen⟩ (.fire event) with
  | none => rfl
  | some f => simp [Option.filter, hquiet f (answer_of_failure? hf)]

/-- The inconsistency of a machine that was reset is the latest failure of what was left unfinished
since its last reset. So there is one exactly if that reset failed, or an event after it failed at
an exit, a transition or an entry; and no other answer to an event sets, clears or changes it. -/
theorem inconsistency_is_latest (t : Tree S O E) (name id : String) (owner : O) (world : W)
    (earlier later : List (Operation W S O E)) (hlater : Operation.reset ∉ later) :
    let opened := (idle t name id owner world).afterAll earlier
    let m := ((opened.after .reset).afterAll later).machine
    m.inconsistency = (opened.unfinished later).getLast? ∧
    (m.inconsistency ≠ none ↔ ∃ f,
      (opened.machine.reset opened.world).answer = some f ∨
        ∃ before event after, later = before ++ .fire event :: after ∧
          (let s := (opened.after .reset).afterAll before
          (s.machine.fire event s.world).answer = .ok (.failed f)) ∧
          (f.phase = .exit ∨ f.phase = .action ∨ f.phase = .entry)) ∧
    ∀ event seen,
      let reply := m.fire event seen
      (∀ f, reply.answer = .ok (.failed f) → f.phase = .guard ∨ f.phase = .stayAction) →
        reply.machine.inconsistency = m.inconsistency := by
  intro opened m
  have hm : m.inconsistency = (opened.unfinished later).getLast? :=
    inconsistency_eq_unfinished opened hlater
  refine ⟨hm, ?_, ?_⟩
  · -- a list has a last failure exactly if it has one at all
    rw [hm, Ne, List.getLast?_eq_none_iff, List.eq_nil_iff_forall_not_mem, not_forall_not]
    exact exists_congr fun f => mem_unfinished_iff hlater
  · intro event seen reply hquiet
    apply inconsistency_fire
    intro f hf
    simpa [Failure.leavesConsistent] using hquiet f hf

end Session

namespace Radio

/-- The radio gets stuck once when it is switched off. It moves on and off again afterwards, but it
stays inconsistent. -/
theorem layered_unfinished :
    let start : Session Unit Place (List String) Button :=
      .idle (.build .root layered) "radio" "1" [] ()
    let opened := start.afterAll [.fire .power]
    let later : List (Operation Unit Place (List String) Button) :=
      [.fire .power, .modifyOwner fun _ => ["sand"], .fire .power, .modifyOwner fun _ => [],
        .fire .power]
    let m := ((opened.after .reset).afterAll later).machine
    let reply := m.fire .power ()
    Operation.reset ∉ later ∧ m.currentState? = some .off ∧
      m.inconsistency = some ⟨.exit, .on, ⟨"stuck"⟩⟩ ∧
      reply.answer = .ok (.moved ⟨.off, .on, .off, .dab⟩) ∧
      reply.machine.inconsistency = some ⟨.exit, .on, ⟨"stuck"⟩⟩ := by
  intro start opened later m reply
  have hlater : Operation.reset ∉ later := by simp [later]
  have hcurrent : m.currentState? = some .off := by decide +kernel
  have hunfinished : opened.unfinished later = [⟨.exit, .on, ⟨"stuck"⟩⟩] := by decide +kernel
  have hanswer : reply.answer = .ok (.moved ⟨.off, .on, .off, .dab⟩) := by decide +kernel
  obtain ⟨hlatest, _, hkept⟩ :=
    Session.inconsistency_is_latest (.build Place.root layered) "radio" "1" [] () [.fire .power]
      later hlater
  have hmoved : ∀ f, reply.answer = .ok (.failed f) → f.phase = .guard ∨ f.phase = .stayAction := by
    intro f hf
    cases hanswer.symm.trans hf
  have hinconsistent : m.inconsistency = some ⟨.exit, .on, ⟨"stuck"⟩⟩ := by
    rw [show m.inconsistency = (opened.unfinished later).getLast? from hlatest, hunfinished]
    rfl
  -- both sides name the same runs, so none is carried out to compare them
  with_reducible
    exact ⟨hlater, hcurrent, hinconsistent, hanswer,
      (hkept Button.power () hmoved).trans hinconsistent⟩

end Radio

end StateTree
