import StateTree.Proofs.Run.Records
import StateTree.Proofs.Step.Story

/-!
Records as the story of a run. While a machine is consistent, each of its records is what was active
below a state when the operation began that exited the state last.
-/

namespace StateTree

variable {W S O E : Type} [StateId S] [EventKind E]

namespace Session

/-- What an operation adds to the story of a machine. -/
def moments (s : Session W S O E) (operation : Operation W S O E) : List (Moment E) :=
  let trail :=
    match operation with
    | .reset => (s.machine.reset s.world).trail
    | .fire event => (s.machine.fire event s.world).trail
    | .modifyOwner _ | .register _ | .unregister _ | .elsewhere _ => []
  trail.map (Moment.mk s.machine.active)

/-- The marks of all operations of a run, each with what was active when its operation began. -/
def story (s : Session W S O E) : List (Operation W S O E) → List (Moment E)
  | [] => []
  | operation :: rest => s.moments operation ++ (s.after operation).story rest

/-- Only a reset makes a machine alive. -/
theorem reset_mem_of_alive {s : Session W S O E} {operations : List (Operation W S O E)}
    (hs : s.machine.alive = false) (h : (s.afterAll operations).machine.alive = true) :
    Operation.reset ∈ operations := by
  by_contra hn
  have hkept : (s.afterAll operations).machine.toMachine.alive = false := by
    refine afterAll_keeps (P := fun m => m.alive = false) ?_ ?_ ?_ hs
    · intro hm
      exact absurd hm hn
    · intro m event _ hm
      exact hm
    · intro m f hm
      exact hm
  rw [hkept] at h
  cases h

/-- A reset makes a machine alive for good. -/
theorem alive_iff {s : Session W S O E} {operations : List (Operation W S O E)}
    (hs : s.machine.alive = false) :
    (s.afterAll operations).machine.alive = true ↔ Operation.reset ∈ operations := by
  refine ⟨reset_mem_of_alive hs, ?_⟩
  intro hm
  obtain ⟨before, after, rfl⟩ := List.append_of_mem hm
  rw [afterAll_append]
  exact afterAll_keeps (P := fun m => m.alive = true) (s := (s.afterAll before).after .reset)
    (fun _ _ _ => rfl) (fun _ _ ha _ => ha) (fun _ _ ha => ha) rfl

/-- Without a reset no operation makes a machine consistent. -/
theorem consistent_before {s : Session W S O E} {operations : List (Operation W S O E)}
    (hn : Operation.reset ∉ operations)
    (h : (s.afterAll operations).machine.inconsistency = none) :
    s.machine.inconsistency = none := by
  by_contra hs
  have hkept : (s.afterAll operations).machine.toMachine.inconsistency ≠ none := by
    refine afterAll_keeps (P := fun m => m.inconsistency ≠ none) ?_ ?_ ?_ hs
    · intro hm
      exact absurd hm hn
    · intro m event _ hm hnone
      exact hm (Machine.carry_eq_none hnone).1
    · intro m f hm
      exact hm
  exact hkept h

variable [DecidableEq S] {t : Tree S O E}

/-- An operation that leaves the machine consistent keeps records and story together. -/
theorem after_recounts (ht : t.Sound) {s : Session W S O E} (hs : s.machine.toMachine.Over t)
    {operation : Operation W S O E} (hn : operation ≠ .reset)
    (hconsistent : (s.after operation).machine.inconsistency = none) {story : List (Moment E)}
    {k : Nat} (h : t.Recounts story s.machine.history k) :
    t.Recounts (story ++ s.moments operation) (s.after operation).machine.history k := by
  -- only an event that is not refused adds to the story
  have hsilent : t.Recounts (story ++ []) s.machine.history k := by
    rw [List.append_nil]
    exact h
  cases operation with
  | reset => exact absurd rfl hn
  | fire event =>
    rcases s.machine.fire_cases event s.world with ⟨hm, htrail, _⟩ | ⟨_, hm, htrail, _⟩
    · change t.Recounts (story ++ (s.machine.fire event s.world).trail.map _)
        (s.machine.fire event s.world).machine.history k
      rw [hm, htrail]
      exact hsilent
    · obtain ⟨htree, hstands⟩ := hs
      change (s.machine.fire event s.world).machine.toMachine.inconsistency = none at hconsistent
      rw [hm] at hconsistent
      change t.Recounts (story ++ (s.machine.fire event s.world).trail.map _)
        (s.machine.fire event s.world).machine.toMachine.history k
      rw [hm, htrail]
      have hf := (Machine.carry_eq_none hconsistent).2
      change t.Recounts (story ++ (s.machine.tree.react event _).1.trail.map _)
        (s.machine.tree.react event _).1.history k
      rw [htree] at hf ⊢
      exact Tree.react_recounts ht hstands hf h
  | modifyOwner f => exact hsilent
  | register o => exact hsilent
  | unregister id => exact hsilent
  | elsewhere f => exact hsilent

theorem afterAll_recounts (ht : t.Sound) {s : Session W S O E} (hs : s.machine.toMachine.Over t)
    {operations : List (Operation W S O E)} (hn : Operation.reset ∉ operations)
    (hconsistent : (s.afterAll operations).machine.inconsistency = none)
    {story : List (Moment E)} {k : Nat} (h : t.Recounts story s.machine.history k) :
    t.Recounts (story ++ s.story operations) (s.afterAll operations).machine.history k := by
  induction operations generalizing s story with
  | nil =>
    rw [Session.story, List.append_nil]
    exact h
  | cons operation rest ih =>
    have hrest : Operation.reset ∉ rest := fun hm => hn (List.mem_cons_of_mem _ hm)
    have hne : operation ≠ .reset := fun he => hn (he ▸ List.mem_cons_self)
    -- a machine that is consistent at the end was so after the first operation
    have hfirst : (s.after operation).machine.inconsistency = none :=
      consistent_before hrest hconsistent
    rw [Session.story, ← List.append_assoc]
    exact ih (over_afterAll ht hs [operation]) hrest hconsistent
      (after_recounts ht hs hne hfirst h)

/-- The records of a live machine that is consistent, after any operations: a state has a record
exactly if it is a history state below the root, its last passing since the latest reset is an exit,
and something was active below it when the operation of that exit began. That is what is recorded. -/
theorem records_are_last_exits (root : S) (declarations : List (Declaration S O E))
    (name id : String) (owner : O) (world : W) (operations : List (Operation W S O E)) :
    let t := Tree.build root declarations
    let start := idle t name id owner world
    let m := (start.afterAll operations).machine
    m.alive = true → m.isConsistent = true →
    ∃ earlier later, operations = earlier ++ .reset :: later ∧ Operation.reset ∉ later ∧
      ∀ k chain, (k, chain) ∈ m.history.records ↔
        t.LeftWith (((start.afterAll earlier).after .reset).story later) k chain := by
  intro t start m halive hconsistent
  have ht : t.Sound := Tree.build_sound root declarations
  have hd : m.history.Distinct := afterAll_distinct ht name id owner world operations
  obtain ⟨earlier, later, hops, hlater⟩ := Operation.last_reset (reset_mem_of_alive rfl halive)
  refine ⟨earlier, later, hops, hlater, ?_⟩
  intro k chain
  have hover : (start.afterAll earlier).machine.toMachine.Over t :=
    afterAll_over ht name id owner world earlier
  have hreset : t.Recounts [] ((start.afterAll earlier).after .reset).machine.history k := by
    change t.Recounts [] ((start.afterAll earlier).machine.tree.reset _).work.history k
    rw [hover.tree]
    exact Tree.recounts_reset ht.toLinked _ k
  have hm : m = (((start.afterAll earlier).after .reset).afterAll later).machine := by
    simp only [m]
    rw [hops, afterAll_append]
    rfl
  have hnone : m.inconsistency = none := Option.isNone_iff_eq_none.mp hconsistent
  rw [hm] at hnone
  have hrecounts := afterAll_recounts ht (hover.reset ht.toLinked) hlater hnone hreset
  rw [History.mem_records_iff hd, hm]
  exact hrecounts chain

end Session

namespace Radio

theorem switchedOff_recounts :
    let operations : List (Operation Unit Place (List String) Button) :=
      [.reset, .fire .power, .fire .band, .fire .power]
    let t := Tree.build .root declarations
    let m := (session.afterAll operations).machine
    m.alive = true ∧ m.isConsistent = true ∧
      ∃ earlier later, operations = earlier ++ .reset :: later ∧ Operation.reset ∉ later ∧
        t.LeftWith (((session.afterAll earlier).after .reset).story later) 2 [4] := by
  intro operations t m
  have halive : m.alive = true := rfl
  have hconsistent : m.isConsistent = true := rfl
  have hrecord : (2, [4]) ∈ m.history.records := List.mem_cons_self
  obtain ⟨earlier, later, hops, hlater, hrecords⟩ :=
    Session.records_are_last_exits Place.root declarations "radio" "1" [] () operations halive
      hconsistent
  exact ⟨halive, hconsistent, earlier, later, hops, hlater, (hrecords 2 [4]).mp hrecord⟩

end Radio

end StateTree
