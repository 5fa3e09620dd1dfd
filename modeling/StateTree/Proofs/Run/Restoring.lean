import StateTree.Proofs.Run.Records
import StateTree.Proofs.Run.Settled

/-!
What history states restore. While a machine is consistent its records end in settled states, so a
target that remembers a chain becomes active with exactly that chain below it.
-/

namespace StateTree

variable {S O E : Type}

namespace Tree

/-- What is active ends in a settled state, and so does every record. -/
structure Resumable (t : Tree S O E) (st : Standing) : Prop where
  settled : t.Settled st
  records : ∀ k chain, st.history.get? k = some chain →
    ∃ j, t.Leads k chain j ∧ t.firstInitial? j = none

variable {t : Tree S O E}

theorem reset_resumable (ht : t.Linked) {c : Configuration O} {v : Work O E}
    (h : (t.reset c : Progress S O E) = .going v) : t.Resumable v.standing := by
  refine ⟨reset_settled ht h, ?_⟩
  intro k chain hg
  have hnone := reset_records ht c k
  rw [h] at hnone
  cases hnone.symm.trans hg

/-- What is active has no record. -/
theorem Stands.unrecorded {st : Standing} (hst : t.Stands st) (hd : st.history.Distinct) {k : Nat}
    (hk : k ∈ st.active) (chain : List Nat) : (k, chain) ∉ st.history.records := by
  intro hmem
  have hrecalls := hst.records k chain ((History.mem_records_iff hd).mp hmem)
  exact hrecalls.inactive hk

/-- A target with a record is settled where its record ends. -/
theorem landing_of_record {st : Standing} (hst : t.Stands st)
    (hr : t.Resumable st) {target : Nat} {chain : List Nat}
    (hg : st.history.get? target = some chain) :
    t.restored target st = chain ∧ t.Leads target chain (t.landing target chain) := by
  obtain ⟨j, hj, hnone⟩ := hr.records target chain hg
  have hrecalls := hst.records target chain hg
  refine ⟨?_, ?_⟩
  · -- a target with a record is not active, so the old record is what counts
    have hinactive : ¬ (target ≠ 0 ∧ target ∈ st.active) := fun h => hrecalls.inactive h.2
    rw [restored, if_pos hrecalls.flagged, if_neg hinactive, hg, Option.getD_some]
  · rw [landing, hj.last, lineEnd_none hnone]
    exact hj

theorem restoring_not_mem_settling {i k depth : Nat} :
    (Stride.restoring k depth : Stride S O E) ∉ t.settling i := by
  simp only [settling]
  split
  · simp
  · simp

/-- A transition restores the record of its target only. -/
theorem restoring_mem_itinerary {x : Candidate S O E} {target k depth : Nat} {st : Standing}
    (h : Stride.restoring k depth ∈ t.itinerary x target st) : k = target := by
  rw [itinerary_eq, List.mem_append] at h
  rcases h with h | h
  · exact (departs_of_departure h).elim
  · simp only [entering, finishing, List.mem_append, List.mem_map, reduceCtorEq, and_false,
      exists_false, false_or, restoring_not_mem_settling, or_false] at h
    rcases h with h | h
    · split at h
      · cases List.mem_singleton.mp h
      · exact absurd h List.not_mem_nil
    · split at h
      · exact absurd h List.not_mem_nil
      · cases List.mem_singleton.mp h
        rfl

variable [DecidableEq S] [EventKind E] {event : E}

/-- A reaction that does not interrupt a crossing leaves records that end in settled states. -/
theorem react_resumable (ht : t.Sound) {c : Configuration O} (hst : t.Stands c.standing)
    (hc : t.Resumable c.standing)
    (hf : ∀ f, (t.react event c).2 = .failed f → f.leavesConsistent = true) :
    t.Resumable (t.react event c).1.standing := by
  refine ⟨react_settled ht hst hc.settled hf, ?_⟩
  intro k chain hg
  rcases react_records ht hst hg with hold | ⟨_, leaf, hl, ha⟩
  · exact hc.records k chain hold
  · -- a new record ends where the active path ended before
    obtain ⟨i, _, hi, hnone⟩ := hc.settled
    have hleaf : leaf = i := path_injective (List.reverse_inj.mp (ha.symm.trans hi))
    exact ⟨leaf, hl, hleaf ▸ hnone⟩

theorem restoring_marks (ht : t.Sound) {c : Configuration O} (hst : t.Stands c.standing)
    {x : Candidate S O E} {id : S} {target : Nat} (hs : (t.select event c).2 = .ok (some x))
    (hk : x.transition.kind = .moves id target) {k depth : Nat}
    (hm : Mark.restoring k depth ∈ (t.react event c).1.trail) : k = target := by
  have hmarch (hm : Mark.restoring k depth ∈ (t.passage event c x target).work.trail) :
      k = target := by
    rcases Work.march_trail hm with hm | ⟨s, hs', ⟨call, _, he⟩ | hmark⟩
    · rcases Work.choose_trail hm with hm | ⟨i, n, he⟩
      · exact absurd hm List.not_mem_nil
      · cases he
    · cases he
    · cases s with
      | restoring i d =>
        cases hmark
        exact restoring_mem_itinerary hs'
      | leave i below => cases hmark
      | act y => cases hmark
      | forget i => cases hmark
      | enter i => cases hmark
      | stuck i => cases hmark
  rcases react_passage ht hst hs hk with ⟨v, f, hp, _, hr⟩ | ⟨v, before, hp, _, hr⟩
  · rw [hp] at hmarch
    rw [hr] at hm
    exact hmarch hm
  · rw [hp] at hmarch
    rw [hr] at hm
    rcases List.mem_append.mp hm with hm | hm
    · exact hmarch hm
    · cases List.mem_singleton.mp hm

end Tree

namespace Session

variable {W : Type} [DecidableEq S] [StateId S] [EventKind E]

/-- Where a consistent machine moves to a target that remembers a chain, the path to the target and
after it that chain is active, and none of the states of the chain nor the target has a record then.
No other record is restored: a state between the deepest state around source and target and the
target itself has no record either, and below it are only the states that lead to the target and the
chain. -/
theorem history_restored (root : S) (declarations : List (Declaration S O E)) (name id : String)
    (owner : O) (world : W) (operations : List (Operation W S O E)) (event : E) (seen : W)
    (move : Move S) (source target : Nat) (chain : List Nat) :
    let t := Tree.build root declarations
    let m := ((idle t name id owner world).afterAll operations).machine
    let reply := m.fire event seen
    m.isConsistent = true → reply.answer = .ok (.moved move) →
    t.place? move.source = some source → t.place? move.target = some target →
    (target, chain) ∈ m.history.records →
    reply.machine.active.reverse = t.path target ++ chain ∧
      (∀ k ∈ target :: chain, ∀ other, (k, other) ∉ reply.machine.history.records) ∧
      (∀ k depth, .restoring k depth ∈ reply.trail → k = target) ∧
      ∀ k, t.below (t.commonAncestor source target) k = true → t.below k target = true →
        (∀ other, (k, other) ∉ reply.machine.history.records) ∧
          reply.machine.active.reverse.filter (t.below k) =
            (t.path target).filter (t.below k) ++ chain := by
  intro t m reply hconsistent hmoved hsource htarget hrecord
  have ht : t.Sound := Tree.build_sound root declarations
  have hm : m.toMachine.Over t := afterAll_over ht name id owner world operations
  have hd : m.history.Distinct := afterAll_distinct ht name id owner world operations
  have hg : m.history.get? target = some chain := (History.mem_records_iff hd).mp hrecord
  obtain ⟨halive, hnow, htrail, hreact⟩ := Observed.fire_reacts hm hmoved
  have hresumable : t.Resumable m.standing :=
    afterAll_consistent ht (fun _ _ h => Tree.reset_resumable ht.toLinked h)
      (fun _ _ hst hc hf => Tree.react_resumable ht hst hc hf) name id owner world operations
      halive (Option.isNone_iff_eq_none.mp hconsistent)
  -- the ends of the transition are those that the move names
  obtain ⟨x, goal, place, hs, hk, hx, hplace, ha⟩ := Tree.react_moved ht hm.stands hreact.symm
  cases hx.symm.trans hsource
  cases hplace.symm.trans htarget
  have hin : target < t.size := (Tree.select_bounds ht hm.stands hs hk).2.2
  obtain ⟨hrestored, hleads⟩ := Tree.landing_of_record hm.stands hresumable hg
  have hafter : reply.machine.standing = (t.react event m.toConfiguration).1.standing :=
    congrArg Configuration.standing hnow
  have hactive : reply.machine.active.reverse = t.path target ++ chain := by
    rw [show reply.machine.active = _ from congrArg Standing.active hafter, ← hleads.path]
    change (t.react event m.toConfiguration).1.active.reverse = _
    rw [ha, List.reverse_reverse, hrestored]
  have hnone (k : Nat) (hk : k ∈ t.path target ++ chain) (other : List Nat) :
      (k, other) ∉ reply.machine.history.records := by
    have hstands : t.Stands reply.machine.standing := hafter ▸ Tree.react_stands ht hm.stands
    have hdistinct : reply.machine.standing.history.Distinct :=
      hafter ▸ Tree.react_distinct ht hm.stands hd
    rw [← hactive, List.mem_reverse] at hk
    exact hstands.unrecorded hdistinct hk other
  refine ⟨hactive, ?_, ?_, ?_⟩
  · intro k hk
    rcases List.mem_cons.mp hk with rfl | hk
    · exact hnone k (List.mem_append_left _ (List.mem_of_getLast? (Tree.getLast_path k)))
    · exact hnone k (List.mem_append_right _ hk)
  · intro k depth hmark
    rw [htrail] at hmark
    exact Tree.restoring_marks ht hm.stands hs hk hmark
  · intro k _ hbelow
    obtain ⟨seg, hseg⟩ := Tree.below_leads ht.toLinked hin hbelow
    refine ⟨hnone k (List.mem_append_left _ ?_), ?_⟩
    · exact (Tree.mem_path_iff ht.toLinked hin).mpr ⟨seg, hseg⟩
    · rw [hactive, ← hleads.path, Tree.filter_below ht.toLinked (hseg.trans hleads),
        Tree.filter_below ht.toLinked hseg]

end Session

namespace Radio

theorem switchedOn_restores :
    let t := Tree.build .root declarations
    let m := (session.afterAll [.reset, .fire .power, .fire .band, .fire .power]).machine
    let reply := m.fire .power ()
    (2, [4]) ∈ m.history.records ∧ reply.answer = .ok (.moved ⟨.off, .on, .off, .fm⟩) ∧
      reply.machine.active.reverse = t.path 2 ++ [4] := by
  intro t m reply
  have hrecord : (2, [4]) ∈ m.history.records := List.mem_cons_self
  have hconsistent : m.isConsistent = true := rfl
  have hmoved : reply.answer = .ok (.moved ⟨.off, .on, .off, .fm⟩) := rfl
  obtain ⟨hactive, _⟩ :=
    Session.history_restored Place.root declarations "radio" "1" [] ()
      [Operation.reset, .fire .power, .fire .band, .fire .power] Button.power ()
      ⟨.off, .on, .off, .fm⟩ 1 2 [4] hconsistent hmoved rfl rfl hrecord
  exact ⟨hrecord, hmoved, hactive⟩

end Radio

end StateTree
