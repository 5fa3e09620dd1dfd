import StateTree.Proofs.Step.Move

/-!
What a step does to the record of one state. Leaving a state writes its record, forgetting or
entering it takes the record away, and nothing else touches it.
-/

namespace StateTree

variable {S O E : Type}

/-- The state whose entry was reached: its entry action was called, or it was entered. -/
def Mark.enters? : Mark E → Option Nat
  | entered i | called (.entry i) _ => some i
  | _ => none

theorem Mark.crossed?_of_enters {mark : Mark E} {k : Nat} (h : mark.enters? = some k) :
    mark.crossed? = some k := by
  cases mark with
  | entered i => exact h
  | called site event =>
    cases site with
    | entry i => exact h
    | guard i n => cases h
    | exit i => cases h
    | action i n => cases h
  | unmatched event => cases h
  | stayed i => cases h
  | exited i => cases h
  | restoring i depth => cases h
  | stuck i => cases h
  | moved source target before after => cases h

namespace Stride

variable {t : Tree S O E} {event : Option E}

theorem record_before (s : Stride S O E) (st : Standing) {k : Nat} {chain : List Nat} :
    (s.before st).history.get? k = some chain ↔
      s ≠ .enter k ∧ st.history.get? k = some chain := by
  cases s with
  | enter i =>
    change (st.history.erase i).get? k = some chain ↔ _
    rw [History.get?_erase]
    by_cases h : k = i
    · simp [h]
    · simp [h, Ne.symm h]
  | leave i below => simp [before]
  | act x => simp [before]
  | forget i => simp [before]
  | restoring i depth => simp [before]
  | stuck i => simp [before]

theorem record_pass {s : Stride S O E} {k : Nat} (hs : ∀ below, s ≠ .leave k below)
    (st : Standing) {chain : List Nat} :
    (s.pass t st).history.get? k = some chain ↔
      (s ≠ .enter k ∧ s ≠ .forget k) ∧ st.history.get? k = some chain := by
  cases s with
  | leave i below =>
    have hne : k ≠ i := fun he => hs below (he ▸ rfl)
    rw [history_leave, if_neg (fun h => hne h.1)]
    simp
  | enter i =>
    -- all of it happens before the call
    refine (record_before (.enter i : Stride S O E) st).trans ?_
    simp
  | forget i =>
    change (st.history.erase i).get? k = some chain ↔ _
    rw [History.get?_erase]
    by_cases h : k = i
    · simp [h]
    · simp [h, Ne.symm h]
  | act x => simp [pass, before, after]
  | restoring i depth => simp [pass, before, after]
  | stuck i => simp [pass, before, after]

/-- A stride writes no record but that of a state it leaves. -/
theorem record_of_pass {s : Stride S O E} {st : Standing} {k : Nat} {chain : List Nat}
    (h : (s.pass t st).history.get? k = some chain) :
    s = .leave k chain ∨ st.history.get? k = some chain := by
  by_cases hs : ∃ below, s = .leave k below
  · obtain ⟨below, rfl⟩ := hs
    rw [history_leave] at h
    split at h
    · cases h
      exact Or.inl rfl
    · exact Or.inr h
  · have hother (below : List Nat) : s ≠ .leave k below := fun he => hs ⟨below, he⟩
    exact Or.inr ((record_pass hother st).mp h).2

/-- The record of a state that is not left outlasts the strides that neither enter the state nor
forget it. -/
theorem record_passAll {ss : List (Stride S O E)} {k : Nat}
    (hleft : ∀ below, Stride.leave k below ∉ ss) (st : Standing) {chain : List Nat} :
    (ss.foldl (pass t) st).history.get? k = some chain ↔
      (Stride.enter k ∉ ss ∧ Stride.forget k ∉ ss) ∧ st.history.get? k = some chain := by
  induction ss generalizing st with
  | nil => simp
  | cons s rest ih =>
    have hs (below : List Nat) : s ≠ .leave k below :=
      fun he => hleft below (he ▸ List.mem_cons_self)
    have hrest (below : List Nat) : Stride.leave k below ∉ rest :=
      fun hm => hleft below (List.mem_cons_of_mem s hm)
    rw [List.foldl_cons, ih hrest, record_pass hs]
    simp only [List.mem_cons, not_or, eq_comm (b := s), ne_eq, and_assoc, and_left_comm]

theorem enters?_of_call {s : Stride S O E} {c : Call S O E} (h : s.call? t = some c)
    (event : Option E) {k : Nat} :
    (Mark.called c.site event).enters? = some k ↔ s = .enter k := by
  rcases call?_cases h with ⟨i, below, hs, hsite, _⟩ | ⟨x, hs, hsite, _⟩ | ⟨i, hs, hsite, _⟩
  · simp [hs, hsite, Mark.enters?]
  · simp [hs, hsite, Mark.enters?]
  · simp [hs, hsite, Mark.enters?]

/-- Entering a state leaves a mark of it also where it has no entry action. -/
theorem enters?_marks {s : Stride S O E} {k : Nat} :
    (∃ mark ∈ s.marks t event, mark.enters? = some k) ↔ s = .enter k := by
  constructor
  · rintro ⟨mark, hm, hk⟩
    rcases mem_marks.mp hm with ⟨c, hc, he⟩ | hmark
    · rw [he] at hk
      exact (enters?_of_call hc event).mp hk
    · cases s with
      | enter i =>
        cases hmark
        cases hk
        rfl
      | leave i below =>
        cases hmark
        cases hk
      | restoring i depth =>
        cases hmark
        cases hk
      | stuck i =>
        cases hmark
        cases hk
      | act x => cases hmark
      | forget i => cases hmark
  · intro hs
    subst hs
    exact ⟨.entered k, mem_marks.mpr (Or.inr rfl), rfl⟩

theorem enters?_flatMap {ss : List (Stride S O E)} {k : Nat} :
    (∃ mark ∈ ss.flatMap (marks t event), mark.enters? = some k) ↔ Stride.enter k ∈ ss := by
  constructor
  · rintro ⟨mark, hm, hk⟩
    obtain ⟨s, hs, hm⟩ := List.mem_flatMap.mp hm
    exact enters?_marks.mp ⟨mark, hm, hk⟩ ▸ hs
  · intro hs
    have hmarks : ∃ mark ∈ (Stride.enter k : Stride S O E).marks t event, mark.enters? = some k :=
      enters?_marks.mpr rfl
    obtain ⟨mark, hm, hk⟩ := hmarks
    exact ⟨mark, List.mem_flatMap.mpr ⟨_, hs, hm⟩, hk⟩

/-- Belongs to the way out of a transition: leaves a state, or acts. -/
def Departs : Stride S O E → Prop
  | leave _ _ | act _ => True
  | forget _ | enter _ | restoring _ _ | stuck _ => False

/-- Belongs to the way in: enters a state, or notes something of the states entered. -/
def Arrives : Stride S O E → Prop
  | enter _ | restoring _ _ | stuck _ => True
  | leave _ _ | act _ | forget _ => False

/-- What fails on the way in is the entry of a state. -/
theorem Arrives.enters {s : Stride S O E} (hs : s.Arrives) {c : Call S O E}
    (hc : s.call? t = some c) : ∃ i, s = .enter i := by
  cases s with
  | enter i => exact ⟨i, rfl⟩
  | restoring i depth => cases hc
  | stuck i => cases hc
  | leave i below => exact hs.elim
  | act x => exact hs.elim
  | forget i => exact hs.elim

end Stride

namespace Tree

variable {t : Tree S O E}

theorem arrives_settling {i : Nat} {s : Stride S O E} (hs : s ∈ t.settling i) : s.Arrives := by
  simp only [settling, List.mem_append, List.mem_map] at hs
  rcases hs with ⟨j, _, rfl⟩ | hs
  · trivial
  · split at hs
    · rw [List.mem_singleton.mp hs]
      trivial
    · exact absurd hs List.not_mem_nil

theorem arrives_finishing {i : Nat} {recorded : List Nat} {s : Stride S O E}
    (hs : s ∈ t.finishing i recorded) : s.Arrives := by
  simp only [finishing, List.mem_append, List.mem_map] at hs
  rcases hs with hs | ⟨j, _, rfl⟩ | hs
  · split at hs
    · exact absurd hs List.not_mem_nil
    · rw [List.mem_singleton.mp hs]
      trivial
  · trivial
  · exact arrives_settling hs

/-- Between the way out and the way in, a history target is forgotten. -/
theorem entering_cases {limit target : Nat} {recorded : List Nat} {s : Stride S O E}
    (hs : s ∈ t.entering limit target recorded) :
    s.Arrives ∨ (s = .forget target ∧ (t.node target).history = true) := by
  simp only [entering, List.mem_append, List.mem_map] at hs
  rcases hs with hs | ⟨j, _, rfl⟩ | hs
  · split at hs
    · next hf => exact Or.inr ⟨List.mem_singleton.mp hs, hf⟩
    · exact absurd hs List.not_mem_nil
  · exact Or.inl trivial
  · exact Or.inl (arrives_finishing hs)

/-- A history target is forgotten first on the way in. -/
theorem entering_of_history {limit target : Nat} {recorded : List Nat}
    (hf : (t.node target).history = true) :
    (t.entering limit target recorded : List (Stride S O E)) =
      (.forget target :: ((t.path target).filter (t.below limit)).map .enter) ++
        t.finishing target recorded := by
  simp only [entering, hf, if_true, List.cons_append, List.nil_append]

theorem enter_target_mem {limit target : Nat} {recorded : List Nat}
    (hbelow : t.below limit target = true) :
    (Stride.enter target : Stride S O E) ∈ t.entering limit target recorded := by
  have hseg : target ∈ (t.path target).filter (t.below limit) :=
    List.mem_filter.mpr ⟨List.mem_of_getLast? (getLast_path target), hbelow⟩
  exact List.mem_append_right _ (List.mem_append_left _ (List.mem_map_of_mem hseg))

/-- The way out to the deepest state around source and target, with the action of the transition. -/
def departure (t : Tree S O E) (x : Candidate S O E) (target : Nat) (active : List Nat) :
    List (Stride S O E) :=
  t.leaving (t.commonAncestor x.state target) active ++ [.act x]

theorem itinerary_eq (x : Candidate S O E) (target : Nat) (st : Standing) :
    t.itinerary x target st =
      t.departure x target st.active ++
        t.entering (t.commonAncestor x.state target) target (t.restored target st) := by
  rw [itinerary, departure, List.append_assoc]
  rfl

theorem departure_cases {x : Candidate S O E} {target : Nat} {active : List Nat}
    {s : Stride S O E} (hs : s ∈ t.departure x target active) :
    s = .act x ∨ ∃ i ∈ active, s = .leave i (active.reverse.filter (t.below i)) := by
  simp only [departure, leaving, List.mem_append, List.mem_map, List.mem_singleton] at hs
  rcases hs with ⟨i, hi, rfl⟩ | hs
  · exact Or.inr ⟨i, (List.mem_filter.mp hi).1, rfl⟩
  · exact Or.inl hs

theorem departs_of_departure {x : Candidate S O E} {target : Nat} {active : List Nat}
    {s : Stride S O E} (hs : s ∈ t.departure x target active) : s.Departs := by
  rcases departure_cases hs with rfl | ⟨i, _, rfl⟩
  · trivial
  · trivial

/-- A transition leaves active states only, each with what is active below it. -/
theorem leave_mem_itinerary {x : Candidate S O E} {target k : Nat} {st : Standing}
    {chain : List Nat} (h : Stride.leave k chain ∈ t.itinerary x target st) :
    k ∈ st.active ∧ chain = st.active.reverse.filter (t.below k) := by
  rw [itinerary_eq] at h
  rcases List.mem_append.mp h with h | h
  · rcases departure_cases h with he | ⟨i, hi, he⟩
    · cases he
    · cases he
      exact ⟨hi, rfl⟩
  · rcases entering_cases h with h | ⟨h, _⟩
    · exact h.elim
    · cases h

theorem forget_mem_itinerary {x : Candidate S O E} {target k : Nat} {st : Standing}
    (h : Stride.forget k ∈ t.itinerary x target st) :
    k = target ∧ (t.node target).history = true := by
  rw [itinerary_eq] at h
  rcases List.mem_append.mp h with h | h
  · exact (departs_of_departure h).elim
  · rcases entering_cases h with h | ⟨h, hf⟩
    · exact h.elim
    · cases h
      exact ⟨rfl, hf⟩

end Tree

namespace Work

variable {t : Tree S O E} {event : Option E}

/-- What is remembered after a march was remembered before it, or belongs to a state it leaves. -/
theorem march_records {ss : List (Stride S O E)} {w : Work O E}
    (hfit : Stride.FitAll t w.standing ss) {k : Nat} {chain : List Nat}
    (h : (w.march t event ss).work.history.get? k = some chain) :
    w.history.get? k = some chain ∨ Stride.leave k chain ∈ ss := by
  let Known (st : Standing) : Prop := ∀ k chain, st.history.get? k = some chain →
    w.history.get? k = some chain ∨ Stride.leave k chain ∈ ss
  refine march_keeps (P := Known) ?_ ?_ (fun _ _ => Or.inl) hfit k chain h
  · intro st s _ hst k chain hg
    exact hst k chain ((Stride.record_before s st).mp hg).2
  · intro st s hs hst _ k chain hg
    rcases Stride.record_of_pass hg with he | hg
    · exact Or.inr (he ▸ hs)
    · exact hst k chain hg

/-- Work that reached some strides, where `old` was remembered before them. The states entered among
them are those whose entry was reached, and the record of a state that is not left among them is kept
unless it is entered or forgotten among them. -/
structure Reached (old : History) (reached : List (Stride S O E)) (w : Work O E) : Prop where
  entered : ∀ k, (∃ mark ∈ w.trail, mark.enters? = some k) ↔ Stride.enter k ∈ reached
  records : ∀ k chain, (∀ below, Stride.leave k below ∉ reached) →
    (w.history.get? k = some chain ↔
      (Stride.enter k ∉ reached ∧ Stride.forget k ∉ reached) ∧ old.get? k = some chain)

theorem Reached.note {old : History} {reached : List (Stride S O E)} {w : Work O E}
    (h : w.Reached old reached) {mark : Mark E} (hmark : mark.enters? = none) :
    (w.note mark).Reached old reached := by
  refine ⟨?_, h.records⟩
  intro k
  rw [← h.entered k]
  simp [Work.note, or_and_right, exists_or, hmark]

/-- A march that goes through has reached all of its strides. -/
theorem reached_of_going {ss : List (Stride S O E)} {w v : Work O E}
    (hw : ∀ k, ¬ ∃ mark ∈ w.trail, mark.enters? = some k) (h : w.march t event ss = .going v) :
    v.Reached w.history ss := by
  refine ⟨?_, ?_⟩
  · intro k
    rw [trail_march_going h]
    simp only [List.mem_append, or_and_right, exists_or, hw, false_or, Stride.enters?_flatMap]
  · intro k chain hleft
    have hhistory : v.history = _ := congrArg Standing.history (march_going h)
    rw [hhistory, Stride.record_passAll hleft]
    rfl

/-- A march that stops has reached the failing stride as well: its mark is there, and what it changes
before its call is changed. -/
theorem reached_of_stopped {ss : List (Stride S O E)} {w v : Work O E} {f : Failure S}
    (hw : ∀ k, ¬ ∃ mark ∈ w.trail, mark.enters? = some k) (h : w.march t event ss = .stopped v f) :
    ∃ reached rest s c, ss = reached ++ rest ∧ reached.getLast? = some s ∧ s.call? t = some c ∧
      f.phase = c.phase ∧ f.state = c.state ∧ v.Reached w.history reached := by
  obtain ⟨done, s, rest, he, hstanding, c, hcall, hphase, hstate, htrail⟩ := march_stopped h
  refine ⟨done ++ [s], rest, s, c, ?_, List.getLast?_concat, hcall, hphase, hstate, ?_, ?_⟩
  · rw [he, List.append_assoc]
    rfl
  · intro k
    rw [htrail]
    simp only [List.mem_append, List.mem_singleton, or_and_right, exists_or, hw, false_or,
      Stride.enters?_flatMap, exists_eq_left, Stride.enters?_of_call hcall, eq_comm (a := s)]
  · intro k chain hleft
    have hdone (below : List Nat) : Stride.leave k below ∉ done :=
      fun hm => hleft below (List.mem_append_left _ hm)
    -- a stride that forgets makes no call that could fail
    have hforget : Stride.forget k ≠ s := by
      rintro rfl
      cases hcall
    have hhistory : v.history = _ := congrArg Standing.history hstanding
    rw [hhistory, Stride.record_before, Stride.record_passAll hdone]
    simp only [List.mem_append, List.mem_singleton, not_or, hforget, not_false_eq_true, and_true,
      eq_comm (a := s), ne_eq, and_assoc, and_left_comm]
    rfl

end Work

namespace Tree

variable {t : Tree S O E}

/-- After a reset nothing is remembered, whether it succeeds or not. -/
theorem reset_records (ht : t.Linked) (c : Configuration O) (k : Nat) :
    (t.reset c : Progress S O E).work.history.get? k = none := by
  rw [Work.reset_eq_march ht, Option.eq_none_iff_forall_ne_some]
  intro chain hg
  -- nothing is remembered before, and no state is left
  rcases Work.march_records (reaches_reset ht).1 hg with hold | hleft
  · cases hold
  · rcases List.mem_cons.mp hleft with he | hleft
    · cases he
    · exact arrives_settling hleft

variable [DecidableEq S] [EventKind E] {event : E}

/-- What is remembered after a reaction was remembered before it, or is what was active below a state
that it left. -/
theorem react_records (ht : t.Sound) {c : Configuration O} (hst : t.Stands c.standing) {k : Nat}
    {chain : List Nat} (hg : (t.react event c).1.history.get? k = some chain) :
    c.history.get? k = some chain ∨
      k ∈ c.active ∧ ∃ leaf, t.Leads k chain leaf ∧ c.active = (t.path leaf).reverse := by
  rcases react_cases t event c with ⟨hq, _⟩ | ⟨x, id, target, hs, hk⟩
  · have hhistory : (t.react event c).1.history = c.history := congrArg Standing.history hq
    rw [hhistory] at hg
    exact Or.inl hg
  · have hhistory := congrArg Configuration.history (react_work ht hst hs hk).1
    rw [hhistory] at hg
    rcases Work.march_records (passage_fits ht hst hs hk).1 hg with hold | hleft
    · rw [select_history] at hold
      exact Or.inl hold
    · -- a state that is left records the rest of the active path
      obtain ⟨hactive, hchain⟩ := leave_mem_itinerary hleft
      obtain ⟨leaf, seg, hseg, ha⟩ := active_leads ht.toLinked hst hactive
      have hseg' : chain = seg := by
        rw [hchain, ha, List.reverse_reverse, filter_below ht.toLinked hseg]
      exact Or.inr ⟨hactive, leaf, hseg' ▸ hseg, ha⟩

/-- The part of its itinerary that a transition reaches: all of it, or up to the stride that
fails. -/
theorem react_reached (ht : t.Sound) {c : Configuration O} (hst : t.Stands c.standing)
    {x : Candidate S O E} {id : S} {target : Nat} (hs : (t.select event c).2 = .ok (some x))
    (hk : x.transition.kind = .moves id target) :
    ∃ reached rest, t.itinerary x target c.standing = reached ++ rest ∧
      (t.react event c).1.Reached c.history reached ∧
      ((rest = [] ∧ ∃ move, (t.react event c).2 = .moved move) ∨
        ∃ s call f, reached.getLast? = some s ∧ s.call? t = some call ∧
          (t.react event c).2 = .failed f ∧ f.phase = call.phase ∧ f.state = call.state) := by
  -- the search for the transition enters nothing
  have hsearch (k : Nat) : ¬ ∃ mark ∈ (t.select event c).1.trail, mark.enters? = some k := by
    rintro ⟨mark, hm, henters⟩
    cases (select_marks hm).symm.trans (Mark.crossed?_of_enters henters)
  rcases react_passage ht hst hs hk with ⟨v, f, hp, _, hr⟩ | ⟨v, before, hp, _, hr⟩
  · obtain ⟨reached, rest, s, call, he, hlast, hcall, hphase, hstate, hv⟩ :=
      Work.reached_of_stopped hsearch hp
    rw [select_history] at hv
    rw [hr]
    exact ⟨reached, rest, he, hv, Or.inr ⟨s, call, f, hlast, hcall, rfl, hphase, hstate⟩⟩
  · have hv := Work.reached_of_going hsearch hp
    rw [select_history] at hv
    rw [hr]
    exact ⟨_, [], (List.append_nil _).symm, hv.note rfl, Or.inl ⟨rfl, _, rfl⟩⟩

end Tree

end StateTree
