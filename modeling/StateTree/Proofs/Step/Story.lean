import StateTree.Proofs.Step.Record

/-!
Records and stories. A story is a list of marks, each with what was active when its operation began.
Every stride keeps the record of a state and what the story tells of its last exit together, but for
a stride that forgets the state; and a target that is forgotten is entered soon after.
-/

namespace StateTree

variable {S O E : Type}

/-- A mark, with what was active when the operation that left it began. -/
structure Moment (E : Type) where
  active : List Nat
  mark : Mark E

/-- The state that was exited or entered. -/
def Mark.passed? : Mark E → Option Nat
  | exited i | entered i => some i
  | _ => none

theorem Mark.crossed?_of_passed {mark : Mark E} {k : Nat} (h : mark.passed? = some k) :
    mark.crossed? = some k := by
  cases mark with
  | exited i => exact h
  | entered i => exact h
  | called site event => cases h
  | unmatched event => cases h
  | stayed i => cases h
  | restoring i depth => cases h
  | stuck i => cases h
  | moved source target before after => cases h

/-- The last moment of a story at which the state at `k` was exited or entered. -/
def lastPassing? (k : Nat) (story : List (Moment E)) : Option (Moment E) :=
  (story.filter fun moment => moment.mark.passed? == some k).getLast?

theorem lastPassing?_append (k : Nat) (xs ys : List (Moment E)) :
    lastPassing? k (xs ++ ys) = (lastPassing? k ys).or (lastPassing? k xs) := by
  rw [lastPassing?, List.filter_append, List.getLast?_append]
  rfl

theorem lastPassing?_eq_none {k : Nat} {story : List (Moment E)}
    (h : ∀ moment ∈ story, moment.mark.passed? ≠ some k) : lastPassing? k story = none := by
  rw [lastPassing?, List.getLast?_eq_none_iff, List.filter_eq_nil_iff]
  intro moment hm
  simpa using h moment hm

/-- Marks that cross nothing do not change which passing is the last. -/
theorem lastPassing?_of_quiet {k : Nat} {active : List Nat} {trail : List (Mark E)}
    (h : ∀ mark ∈ trail, mark.crossed? = none) :
    lastPassing? k (trail.map (Moment.mk active)) = none := by
  apply lastPassing?_eq_none
  intro moment hm hk
  obtain ⟨mark, hmark, rfl⟩ := List.mem_map.mp hm
  have hnone := h mark hmark
  rw [Mark.crossed?_of_passed hk] at hnone
  cases hnone

theorem lastPassing?_marks (t : Tree S O E) (event : Option E) (s : Stride S O E) (k : Nat)
    (active : List Nat) :
    lastPassing? k ((s.marks t event).map (Moment.mk active)) =
      if s.crossed? = some k then s.mark?.map (Moment.mk active) else none := by
  -- the mark of the call passes no state, so only the stride's own mark counts
  have hcalls : lastPassing? k
      (((s.call? t).map fun c => (.called c.site event : Mark E)).toList.map
        (Moment.mk active)) = none := by
    apply lastPassing?_eq_none
    intro moment hm
    obtain ⟨mark, hmark, rfl⟩ := List.mem_map.mp hm
    obtain ⟨c, _, rfl⟩ := Option.map_eq_some_iff.mp (Option.mem_toList.mp hmark)
    nofun
  rw [Stride.marks, List.map_append, lastPassing?_append, hcalls, Option.or_none]
  cases s with
  | leave i below =>
    by_cases h : i = k
    · simp [lastPassing?, Stride.mark?, Stride.crossed?, Mark.passed?, h]
    · simp [lastPassing?, Stride.mark?, Stride.crossed?, Mark.passed?, h]
  | enter i =>
    by_cases h : i = k
    · simp [lastPassing?, Stride.mark?, Stride.crossed?, Mark.passed?, h]
    · simp [lastPassing?, Stride.mark?, Stride.crossed?, Mark.passed?, h]
  | act x => rfl
  | forget i => rfl
  | restoring i depth => rfl
  | stuck i => rfl

namespace Tree

/-- The last passing of the history state at `k` is an exit, and `chain` was active below the state
when the operation of that exit began. -/
structure LeftWith (t : Tree S O E) (story : List (Moment E)) (k : Nat) (chain : List Nat) :
    Prop where
  ne_root : k ≠ 0
  inside : k < t.size
  flagged : (t.node k).history = true
  exited : ∃ active, lastPassing? k story = some ⟨active, .exited k⟩ ∧
    chain = active.reverse.filter (t.below k)
  ne_nil : chain ≠ []

/-- The record of the state at `k` is what the story tells of its last exit. -/
def Recounts (t : Tree S O E) (story : List (Moment E)) (history : History) (k : Nat) : Prop :=
  ∀ chain, history.get? k = some chain ↔ t.LeftWith story k chain

variable {t : Tree S O E}

theorem recounts_congr {story story' : List (Moment E)} {history history' : History} {k : Nat}
    (hlast : lastPassing? k story' = lastPassing? k story)
    (hget : history'.get? k = history.get? k) (h : t.Recounts story history k) :
    t.Recounts story' history' k := by
  intro chain
  rw [hget, h chain]
  constructor
  · rintro ⟨h0, hk, hf, hexit, hne⟩
    exact ⟨h0, hk, hf, hlast ▸ hexit, hne⟩
  · rintro ⟨h0, hk, hf, hexit, hne⟩
    exact ⟨h0, hk, hf, hlast ▸ hexit, hne⟩

/-- A state that is no history state below the root has no record, and no story gives it one. -/
theorem recounts_of_forgetful {st : Standing} (hst : t.Stands st) {k : Nat}
    (hk : k = 0 ∨ (t.node k).history = false) (story : List (Moment E)) :
    t.Recounts story st.history k := by
  have hforgetful (h0 : k ≠ 0) (hf : (t.node k).history = true) : False := by
    rcases hk with h | h
    · exact h0 h
    · rw [h] at hf
      cases hf
  intro chain
  constructor
  · intro hg
    have hrecalls := hst.records k chain hg
    exact (hforgetful hrecalls.ne_root hrecalls.flagged).elim
  · intro hleft
    exact (hforgetful hleft.ne_root hleft.flagged).elim

theorem recounts_entered {story : List (Moment E)} {history : History} {k : Nat}
    {active : List Nat} (hlast : lastPassing? k story = some ⟨active, .entered k⟩)
    (hget : history.get? k = none) : t.Recounts story history k := by
  intro chain
  rw [hget]
  constructor
  · nofun
  · rintro ⟨_, _, _, ⟨_, hexit, _⟩, _⟩
    cases hlast.symm.trans hexit

theorem recounts_exited {story : List (Moment E)} {history : History} {k : Nat}
    {active : List Nat} (h0 : k ≠ 0) (hk : k < t.size)
    (hlast : lastPassing? k story = some ⟨active, .exited k⟩)
    (hget : history.get? k =
      if (t.node k).history = true ∧ active.reverse.filter (t.below k) ≠ []
      then some (active.reverse.filter (t.below k)) else none) :
    t.Recounts story history k := by
  intro chain
  rw [hget]
  constructor
  · intro hg
    split at hg
    · next hf =>
      cases hg
      exact ⟨h0, hk, hf.1, ⟨active, hlast, rfl⟩, hf.2⟩
    · cases hg
  · rintro ⟨_, _, hf, ⟨_, hexit, rfl⟩, hne⟩
    cases hlast.symm.trans hexit
    rw [if_pos ⟨hf, hne⟩]

end Tree

namespace Stride

variable {t : Tree S O E} (event : Option E)

/-- The states that strides leave have the right states of `active` below them. -/
def LeavesFrom (t : Tree S O E) (active : List Nat) (ss : List (Stride S O E)) : Prop :=
  ∀ i below, leave i below ∈ ss → below = active.reverse.filter (t.below i)

/-- A stride that does not forget the state at `k` keeps record and story of it together. -/
theorem recounts_pass {st : Standing} (hst : t.Stands st) {s : Stride S O E} (hfit : s.Fits t st)
    {active : List Nat} (hfrom : LeavesFrom t active [s]) {k : Nat} (hforget : s ≠ .forget k)
    {story : List (Moment E)} (h : t.Recounts story st.history k ∨ s = .enter k) :
    t.Recounts (story ++ (s.marks t event).map (Moment.mk active)) (s.pass t st).history k := by
  have hlast := lastPassing?_marks t event s k active
  -- a stride that does not touch the state changes neither
  have hsame (hcross : s.crossed? ≠ some k) (hget : (s.pass t st).history.get? k =
      st.history.get? k) (henter : s ≠ .enter k) :
      t.Recounts (story ++ (s.marks t event).map (Moment.mk active)) (s.pass t st).history k := by
    refine Tree.recounts_congr ?_ hget (h.resolve_right henter)
    rw [lastPassing?_append, hlast, if_neg hcross, Option.none_or]
  have hnowhere : (none : Option Nat) ≠ some k := (Option.some_ne_none k).symm
  cases s with
  | leave i below =>
    by_cases hik : i = k
    · subst hik
      obtain ⟨h0, hi, ha, _⟩ := hfit
      have hbelow := hfrom i below List.mem_cons_self
      have hnone : st.history.get? i = none := by
        rw [Option.eq_none_iff_forall_ne_some]
        intro chain hg
        -- the state is the innermost active one, so it has no record yet
        refine (hst.records i chain hg).inactive ?_
        rw [ha, List.mem_reverse]
        exact List.mem_of_getLast? (Tree.getLast_path i)
      have hexited : lastPassing? i (story ++ ((leave i below).marks t event).map
          (Moment.mk active)) = some ⟨active, .exited i⟩ := by
        rw [lastPassing?_append, hlast]
        simp [crossed?, mark?]
      refine Tree.recounts_exited h0 hi hexited ?_
      rw [history_leave, hnone, hbelow]
      simp
    · refine hsame (fun hc => hik (Option.some.inj hc)) ?_ (by simp)
      rw [history_leave, if_neg (fun hk => hik hk.1.symm)]
  | enter i =>
    by_cases hik : i = k
    · subst hik
      have hentered : lastPassing? i (story ++ ((enter i : Stride S O E).marks t event).map
          (Moment.mk active)) = some ⟨active, .entered i⟩ := by
        rw [lastPassing?_append, hlast]
        simp [crossed?, mark?]
      refine Tree.recounts_entered hentered ?_
      change (st.history.erase i).get? i = none
      rw [History.get?_erase, if_pos rfl]
    · refine hsame (fun hc => hik (Option.some.inj hc)) ?_ (fun he => hik (Stride.enter.inj he))
      change (st.history.erase i).get? k = _
      rw [History.get?_erase, if_neg (Ne.symm hik)]
  | forget i =>
    have hik : i ≠ k := fun he => hforget (he ▸ rfl)
    refine hsame hnowhere ?_ (by simp)
    change (st.history.erase i).get? k = _
    rw [History.get?_erase, if_neg (Ne.symm hik)]
  | act x => exact hsame hnowhere rfl (by simp)
  | restoring i depth => exact hsame hnowhere rfl (by simp)
  | stuck i => exact hsame hnowhere rfl (by simp)

theorem recounts_passAll (ht : t.Linked) {st : Standing} {ss : List (Stride S O E)}
    (hst : t.Stands st) (hfit : FitAll t st ss) {active : List Nat}
    (hfrom : LeavesFrom t active ss) {k : Nat} (hforget : forget k ∉ ss)
    {story : List (Moment E)} (h : t.Recounts story st.history k) :
    t.Recounts (story ++ (ss.flatMap (marks t event)).map (Moment.mk active))
      (ss.foldl (pass t) st).history k := by
  induction ss generalizing st story with
  | nil =>
    rw [List.flatMap_nil, List.map_nil, List.append_nil]
    exact h
  | cons s rest ih =>
    have hone : LeavesFrom t active [s] := fun i below hm =>
      hfrom i below (List.mem_singleton.mp hm ▸ List.mem_cons_self)
    have hs : s ≠ .forget k := fun he => hforget (he ▸ List.mem_cons_self)
    have hpass := recounts_pass event hst hfit.1 hone hs (Or.inl h)
    rw [List.flatMap_cons, List.map_append, ← List.append_assoc]
    exact ih (hst.pass ht hfit.1) hfit.2
      (fun i below hm => hfrom i below (List.mem_cons_of_mem s hm))
      (fun hm => hforget (List.mem_cons_of_mem s hm)) hpass

/-- Whatever the record was, story and record are together again once the state is entered. -/
theorem recounts_passAll_enter (ht : t.Linked) {st : Standing} {ss later : List (Stride S O E)}
    {k : Nat} (hst : t.Stands st) (hfit : FitAll t st (ss ++ .enter k :: later))
    {active : List Nat} (hfrom : LeavesFrom t active later) (hforget : forget k ∉ later)
    (story : List (Moment E)) :
    t.Recounts
      (story ++ ((ss ++ .enter k :: later).flatMap (marks t event)).map (Moment.mk active))
      ((ss ++ .enter k :: later).foldl (pass t) st).history k := by
  obtain ⟨hbefore, henter, hafter⟩ := (fitAll_append _ _ _).mp hfit
  have hstands := hst.passAll ht hbefore
  have hnone : LeavesFrom t active [(.enter k : Stride S O E)] := by
    intro i below hm
    cases List.mem_singleton.mp hm
  have hentered : t.Recounts
      (story ++ (ss.flatMap (marks t event)).map (Moment.mk active) ++
        ((.enter k : Stride S O E).marks t event).map (Moment.mk active))
      (pass t (ss.foldl (pass t) st) (.enter k)).history k :=
    recounts_pass event hstands henter hnone nofun (Or.inr rfl)
  have hlast := recounts_passAll event ht (hstands.pass ht henter) hafter hfrom hforget hentered
  rw [List.flatMap_append, List.flatMap_cons, List.map_append, List.map_append, List.foldl_append,
    List.foldl_cons, ← List.append_assoc, ← List.append_assoc]
  exact hlast

end Stride

namespace Tree

variable {t : Tree S O E}

theorem leavesFrom_itinerary (x : Candidate S O E) (target : Nat) (st : Standing) :
    Stride.LeavesFrom t st.active (t.itinerary x target st) :=
  fun _ _ hm => (leave_mem_itinerary hm).2

/-- A target that is forgotten is entered later on, and not forgotten again. -/
theorem enter_after_forget (ht : t.Linked) {st : Standing} (hst : t.Stands st)
    {x : Candidate S O E} {target k : Nat} (hsource : x.state ∈ st.active)
    (htarget : target < t.size) (h0 : k ≠ 0)
    (hforget : Stride.forget k ∈ t.itinerary x target st) :
    ∃ earlier later, t.itinerary x target st = earlier ++ .enter k :: later ∧
      Stride.forget k ∉ later := by
  obtain ⟨rfl, hf⟩ := forget_mem_itinerary hforget
  obtain ⟨leaf, seg, hl, _⟩ := active_leads ht hst hsource
  have hbelow := commonAncestor_below_target ht (hl.source_lt ht) htarget h0
  have hin : (Stride.enter k : Stride S O E) ∈
      ((t.path k).filter (t.below (t.commonAncestor x.state k))).map .enter ++
        t.finishing k (t.restored k st) := by
    refine List.mem_append_left _ (List.mem_map_of_mem (List.mem_filter.mpr ⟨?_, hbelow⟩))
    exact List.mem_of_getLast? (getLast_path k)
  obtain ⟨earlier, later, hsplit⟩ := List.append_of_mem hin
  refine ⟨t.departure x k st.active ++ .forget k :: earlier, later, ?_, ?_⟩
  · rw [itinerary_eq, entering_of_history hf, List.cons_append, hsplit, List.append_assoc]
    rfl
  · intro hm
    have hm' : (Stride.forget k : Stride S O E) ∈ earlier ++ .enter k :: later :=
      List.mem_append_right _ (List.mem_cons_of_mem _ hm)
    rw [← hsplit, List.mem_append, List.mem_map] at hm'
    rcases hm' with ⟨_, _, he⟩ | hm'
    · cases he
    · exact arrives_finishing hm'

/-- The strides of an itinerary keep records and story together. -/
theorem recounts_itinerary (ht : t.Linked) {st : Standing} (hst : t.Stands st)
    {x : Candidate S O E} {target : Nat} (hsource : x.state ∈ st.active) (htarget : target < t.size)
    (event : Option E) {story : List (Moment E)} {k : Nat} (h : t.Recounts story st.history k) :
    t.Recounts
      (story ++ ((t.itinerary x target st).flatMap (Stride.marks t event)).map
        (Moment.mk st.active))
      ((t.itinerary x target st).foldl (Stride.pass t) st).history k := by
  have hfit := (reaches_itinerary ht hst hsource htarget).1
  have hfrom := leavesFrom_itinerary (t := t) x target st
  by_cases h0 : k = 0
  · exact recounts_of_forgetful (hst.passAll ht hfit) (Or.inl h0) _
  by_cases hforget : Stride.forget k ∈ t.itinerary x target st
  · obtain ⟨earlier, later, he, hlater⟩ := enter_after_forget ht hst hsource htarget h0 hforget
    rw [he] at hfit hfrom ⊢
    refine Stride.recounts_passAll_enter event ht hst hfit ?_ hlater story
    intro i below hm
    exact hfrom i below (List.mem_append_right _ (List.mem_cons_of_mem _ hm))
  · exact Stride.recounts_passAll event ht hst hfit hfrom hforget h

/-- After a reset nothing is remembered, and a story that starts there tells of no exit. -/
theorem recounts_reset (ht : t.Linked) (c : Configuration O) (k : Nat) :
    t.Recounts [] (t.reset c : Progress S O E).work.history k := by
  intro chain
  rw [reset_records ht c k]
  constructor
  · nofun
  · rintro ⟨_, _, _, ⟨_, hexit, _⟩, _⟩
    cases hexit

variable [DecidableEq S] [EventKind E] {event : E}

/-- A reaction that does not interrupt a crossing keeps records and story together. -/
theorem react_recounts (ht : t.Sound) {c : Configuration O} (hst : t.Stands c.standing)
    (hf : ∀ f, (t.react event c).2 = .failed f → f.leavesConsistent = true)
    {story : List (Moment E)} {k : Nat} (h : t.Recounts story c.history k) :
    t.Recounts (story ++ (t.react event c).1.trail.map (Moment.mk c.active))
      (t.react event c).1.history k := by
  -- marks that cross nothing may stand anywhere in the story
  have hquiet {trail : List (Mark E)} (hq : ∀ mark ∈ trail, mark.crossed? = none)
      {story : List (Moment E)} {history : History} (h : t.Recounts story history k) :
      t.Recounts (story ++ trail.map (Moment.mk c.active)) history k := by
    refine recounts_congr ?_ rfl h
    rw [lastPassing?_append, lastPassing?_of_quiet hq, Option.none_or]
  rcases react_cases t event c with ⟨hq, _, hmarks⟩ | ⟨x, id, target, hs, hk⟩
  · rw [show (t.react event c).1.history = c.history from congrArg Standing.history hq]
    exact hquiet hmarks h
  · obtain ⟨hsource, _, htarget⟩ := select_bounds ht hst hs hk
    rcases react_passage ht hst hs hk with ⟨v, f, _, hinterrupts, hr⟩ | ⟨v, before, hp, _, hr⟩
    · -- a march that stops interrupts a crossing
      rw [hr] at hf
      cases hinterrupts.symm.trans (hf f rfl)
    · have hstanding : v.standing =
          (t.itinerary x target c.standing).foldl (Stride.pass t) c.standing := by
        rw [Work.march_going hp, select_standing]
      have htrail : v.trail = (t.select event c).1.trail ++
          (t.itinerary x target c.standing).flatMap (Stride.marks t (some event)) :=
        Work.trail_march_going hp
      have hsearch : t.Recounts (story ++ (t.select event c).1.trail.map (Moment.mk c.active))
          c.history k := hquiet (fun mark hm => select_marks hm) h
      have hmarch := recounts_itinerary ht.toLinked hst hsource htarget (some event) hsearch
      rw [← hstanding] at hmarch
      rw [hr]
      change t.Recounts (story ++ (v.trail ++ [_]).map (Moment.mk c.active)) v.history k
      rw [List.map_append, ← List.append_assoc, htrail, List.map_append, ← List.append_assoc]
      refine hquiet ?_ hmarch
      intro mark hm
      rw [List.mem_singleton.mp hm]
      rfl

end Tree

end StateTree
