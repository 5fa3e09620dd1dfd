import StateTree.Proofs.Step.Record

/-!
What a transition leaves that is completed. Its way in enters the states below the limit on the path
to where the target is settled. So a record afterwards is that of an inactive state: what was active
below the state before, where the state itself was, and else the record that was there.
-/

namespace StateTree

variable {S O E : Type}

namespace Tree

variable {t : Tree S O E}

theorem landing_leads (ht : t.Linked) {target j : Nat} {recorded : List Nat}
    (hrec : t.Leads target recorded j) :
    t.Leads target (recorded ++ t.initialLine j) (t.landing target recorded) := by
  obtain ⟨hline, _⟩ := initialLine_leads ht hrec.lt
  rw [landing, hrec.last]
  exact hrec.trans hline

/-- A state on a path through `limit` is on the path to `limit`, or below it. -/
theorem mem_path_or_below (ht : t.Linked) {limit i k : Nat} {seg : List Nat}
    (hl : t.Leads limit seg i) (hk : k ∈ t.path i) : k ∈ t.path limit ∨ t.below limit k = true := by
  have hseg := filter_below ht hl
  rw [hl.path, List.mem_append] at hk
  refine hk.imp_right ?_
  intro hk
  rw [← hseg] at hk
  exact (List.mem_filter.mp hk).2

theorem enter_mem_settling {i k : Nat} :
    (Stride.enter k : Stride S O E) ∈ t.settling i ↔ k ∈ t.initialLine i := by
  simp only [settling, List.mem_append, List.mem_map, Stride.enter.injEq, exists_eq_right,
    or_iff_left_iff_imp]
  intro h
  -- a note that the descent is stuck enters nothing
  split at h
  · cases List.mem_singleton.mp h
  · exact absurd h List.not_mem_nil

/-- The states entered are those below the limit on the path to the landing. -/
theorem enter_mem_entering (ht : t.Linked) {limit target j : Nat} {seg recorded : List Nat}
    (hlimit : t.Leads limit seg target) (hrec : t.Leads target recorded j) {k : Nat} :
    (Stride.enter k : Stride S O E) ∈ t.entering limit target recorded ↔
      k ∈ t.path (t.landing target recorded) ∧ t.below limit k = true := by
  have hway := hlimit.trans (landing_leads ht hrec)
  have hforget : (Stride.enter k : Stride S O E) ∉
      (if (t.node target).history then [.forget target] else []) := by
    split
    · simp
    · simp
  have hnote : (Stride.enter k : Stride S O E) ∉
      (if recorded = [] then [] else [.restoring target recorded.length]) := by
    split
    · simp
    · simp
  -- the way from the limit to the landing has three parts: to the target, restored, initial
  rw [← List.mem_filter, filter_below ht hway, entering, finishing, filter_below ht hlimit,
    hrec.last]
  simp only [List.mem_append, hforget, hnote, false_or, List.mem_map, Stride.enter.injEq,
    exists_eq_right, enter_mem_settling]

/-- All that a transition enters is active once it is completed. -/
theorem enter_mem_itinerary (ht : t.Linked) {st : Standing} (hst : t.Stands st)
    {x : Candidate S O E} {target k : Nat} (hsource : x.state ∈ st.active)
    (htarget : target < t.size) (h : Stride.enter k ∈ t.itinerary x target st) :
    k ∈ t.path (t.landing target (t.restored target st)) := by
  obtain ⟨leaf, seg, hl, _⟩ := active_leads ht hst hsource
  obtain ⟨_, ys, hys⟩ := commonAncestor_leads ht (hl.source_lt ht) htarget
  obtain ⟨j, hj⟩ := restored_leads ht hst htarget
  rw [itinerary_eq] at h
  rcases List.mem_append.mp h with h | h
  · exact (departs_of_departure h).elim
  · exact ((enter_mem_entering ht hys hj).mp h).1

/-- On the way out the states below the limit write their records. -/
theorem records_departure (x : Candidate S O E) (target : Nat) (st : Standing) (k : Nat) :
    ((t.departure x target st.active).foldl (Stride.pass t) st).history.get? k =
      if k ∈ st.active.filter (t.below (t.commonAncestor x.state target)) ∧
        (t.node k).history = true ∧ st.active.reverse.filter (t.below k) ≠ []
      then some (st.active.reverse.filter (t.below k)) else st.history.get? k := by
  rw [departure, List.foldl_append]
  exact Stride.history_leaves _ _ st k

/-- On the way in records are only taken away. -/
theorem records_entering (limit target : Nat) (recorded : List Nat) (st : Standing) {k : Nat}
    {chain : List Nat} :
    ((t.entering limit target recorded : List (Stride S O E)).foldl
        (Stride.pass t) st).history.get? k = some chain ↔
      ((Stride.enter k : Stride S O E) ∉ t.entering limit target recorded ∧
        (Stride.forget k : Stride S O E) ∉ t.entering limit target recorded) ∧
      st.history.get? k = some chain := by
  refine Stride.record_passAll ?_ st
  intro below hm
  rcases entering_cases hm with h | ⟨h, _⟩
  · exact h
  · cases h

/-- The records after a transition that is completed. -/
theorem itinerary_records (ht : t.Linked) {st : Standing} (hst : t.Stands st)
    {x : Candidate S O E} {target : Nat} (hsource : x.state ∈ st.active) (htarget : target < t.size)
    (k : Nat) (chain : List Nat) :
    let after := (t.itinerary x target st).foldl (Stride.pass t) st
    after.history.get? k = some chain ↔
      k ∉ after.active ∧
        ((k ∈ st.active ∧ (t.node k).history = true ∧
            chain = st.active.reverse.filter (t.below k) ∧ chain ≠ []) ∨
          (k ∉ st.active ∧ st.history.get? k = some chain)) := by
  intro after
  let limit := t.commonAncestor x.state target
  let recorded := t.restored target st
  obtain ⟨leaf, seg, hl, ha⟩ := active_leads ht hst hsource
  obtain ⟨⟨xs, hxs⟩, ⟨ys, hys⟩⟩ := commonAncestor_leads ht (hl.source_lt ht) htarget
  obtain ⟨j, hj⟩ := restored_leads ht hst htarget
  obtain ⟨hfit, hreach⟩ := reaches_itinerary ht hst hsource htarget
  have hlanding := landing_leads ht hj
  have hactive (i : Nat) : i ∈ after.active ↔ i ∈ t.path (t.landing target recorded) := by
    rw [show after.active = _ from hreach, List.mem_reverse]
  have hrecords : after.history.get? k = some chain ↔
      ((Stride.enter k : Stride S O E) ∉ t.entering limit target recorded ∧
        (Stride.forget k : Stride S O E) ∉ t.entering limit target recorded) ∧
      (if k ∈ st.active.filter (t.below limit) ∧ (t.node k).history = true ∧
          st.active.reverse.filter (t.below k) ≠ []
        then some (st.active.reverse.filter (t.below k)) else st.history.get? k) = some chain := by
    rw [← records_departure, ← records_entering, ← List.foldl_append, ← itinerary_eq]
  constructor
  · intro hg
    refine ⟨((hst.passAll ht hfit).records k chain hg).inactive, ?_⟩
    have hbefore := (hrecords.mp hg).2
    split at hbefore
    · next hleft =>
      cases hbefore
      exact Or.inl ⟨(List.mem_filter.mp hleft.1).1, hleft.2.1, rfl, hleft.2.2⟩
    · exact Or.inr ⟨(hst.records k chain hbefore).inactive, hbefore⟩
  · rintro ⟨hinactive, h⟩
    rw [hactive] at hinactive
    have henter : (Stride.enter k : Stride S O E) ∉ t.entering limit target recorded :=
      fun hm => hinactive ((enter_mem_entering ht hys hj).mp hm).1
    -- the target itself is active afterwards
    have hforget : (Stride.forget k : Stride S O E) ∉ t.entering limit target recorded := by
      intro hm
      rcases entering_cases hm with h | ⟨h, _⟩
      · exact h
      · cases h
        exact hinactive ((mem_path_iff ht hlanding.lt).mpr ⟨_, hlanding⟩)
    refine hrecords.mpr ⟨⟨henter, hforget⟩, ?_⟩
    rcases h with ⟨hk, hf, rfl, hne⟩ | ⟨hk, hg⟩
    · -- what is not active any more was left, so it was below the limit
      have hbelow : t.below limit k = true := by
        rw [ha, List.mem_reverse] at hk
        refine (mem_path_or_below ht (hxs.trans hl) hk).resolve_left ?_
        intro hlimit
        rw [(hys.trans hlanding).path] at hinactive
        exact hinactive (List.mem_append_left _ hlimit)
      rw [if_pos ⟨List.mem_filter.mpr ⟨hk, hbelow⟩, hf, hne⟩]
    · rw [if_neg (fun hleft => hk (List.mem_filter.mp hleft.1).1), hg]

variable [DecidableEq S] [EventKind E] {event : E}

/-- A transition that is not interrupted passes its whole itinerary. -/
theorem react_standing (ht : t.Sound) {c : Configuration O} (hst : t.Stands c.standing)
    {x : Candidate S O E} {id : S} {target : Nat} (hs : (t.select event c).2 = .ok (some x))
    (hk : x.transition.kind = .moves id target)
    (hf : ∀ f, (t.react event c).2 = .failed f → f.leavesConsistent = true) :
    (t.react event c).1.standing =
      (t.itinerary x target c.standing).foldl (Stride.pass t) c.standing := by
  rcases react_passage ht hst hs hk with ⟨v, f, _, hinterrupts, hr⟩ | ⟨v, before, hp, _, hr⟩
  · -- a march that stops interrupts a crossing
    rw [hr] at hf
    cases hinterrupts.symm.trans (hf f rfl)
  · rw [hr]
    change v.standing = _
    rw [Work.march_going hp, select_standing]

end Tree

end StateTree
