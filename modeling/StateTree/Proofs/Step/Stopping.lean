import StateTree.Proofs.Step.Record

/-!
Where a step stops. The stride that fails is the exit of an active state, the action of the
transition, or the entry of a state whose parent is the innermost active one; the strides before it
have been taken, and their calls and its own have changed the owner.
-/

namespace StateTree

variable {S O E : Type}

/-- Of the calls that are planned, those before one at `site` succeed, and that one fails: it stops
the calls and leaves `after` of an owner that was `before`. -/
def Call.FailsAt (event : Option E) (planned : List (Call S O E)) (site : Site) (before after : O)
    (f : Failure S) : Prop :=
  ∃ done call rest e, planned = done ++ call :: rest ∧ call.site = site ∧
    (Call.runAll event done before).failure? = none ∧
    (call.action.run (Call.runAll event done before).owner event).1.settle = .error e ∧
    after = (call.action.run (Call.runAll event done before).owner event).2 ∧
    f = ⟨call.phase, call.state, e⟩

namespace Work

variable {t : Tree S O E} {event : Option E}

/-- A march that stops makes the failing call last of all. -/
theorem march_fails {ss : List (Stride S O E)} {w w' : Work O E} {f : Failure S}
    (h : w.march t event ss = .stopped w' f) :
    ∃ done s rest c, ss = done ++ s :: rest ∧ s.call? t = some c ∧
      w'.standing = s.before (done.foldl (Stride.pass t) w.standing) ∧
      w'.trail.getLast? = some (.called c.site event) ∧
      f.phase = c.phase ∧ f.state = c.state ∧
      Call.FailsAt event (ss.filterMap (Stride.call? t)) c.site w.owner w'.owner f := by
  obtain ⟨done, s, rest, v, he, hdone, hstop⟩ := march_stops h
  obtain ⟨hstanding, c, e, hc, herror, hf⟩ := stride_stopped hstop
  -- the calls before the failing one leave the owner from which it starts
  let ran := Call.runAll event (done.filterMap (Stride.call? t)) w.owner
  have hran : (w.march t event done).failure? = ran.failure? ∧
      (w.march t event done).work.owner = ran.owner :=
    ⟨(march_ran done w).1, (march_ran done w).2.1⟩
  rw [hdone] at hran
  have howner : v.owner = ran.owner := hran.2
  refine ⟨done, s, rest, c, he, hc, ?_, ?_, by rw [hf], by rw [hf], ?_⟩
  · rw [hstanding, march_going hdone]
  · rw [trail_stride_stopped hstop hc, List.getLast?_concat]
  · refine ⟨done.filterMap (Stride.call? t), c, rest.filterMap (Stride.call? t), e, ?_, rfl,
      hran.1.symm, ?_, ?_, hf⟩
    · rw [he, List.filterMap_append, List.filterMap_cons_some hc]
    · change (c.action.run ran.owner event).1.settle = _
      rw [← howner]
      exact herror
    · change _ = (c.action.run ran.owner event).2
      rw [← howner]
      exact owner_stride_stopped hstop hc

end Work

namespace Stride

variable {t : Tree S O E}

theorem Departs.not_arrives {s : Stride S O E} (hs : s.Departs) : ¬ s.Arrives := by
  cases s with
  | leave i below => exact id
  | act x => exact id
  | forget i => exact hs.elim
  | enter i => exact hs.elim
  | restoring i depth => exact hs.elim
  | stuck i => exact hs.elim

/-- A state that is entered has its parent innermost, unless it is the root. -/
theorem Fits.enter_parent (ht : t.Linked) {i : Nat} {st : Standing}
    (h : (enter i : Stride S O E).Fits t st) :
    (i = 0 ∧ st.active = []) ∨ ∃ p, (t.node i).parent = some p ∧ st.active = (t.path p).reverse := by
  obtain ⟨hi, hpath⟩ := h
  by_cases h0 : i = 0
  · subst h0
    exact Or.inl ⟨rfl, (List.cons.inj hpath).2⟩
  · obtain ⟨p, _, hparent⟩ := ht.parent i (by omega) hi
    rw [Tree.path_child ht hi hparent, List.reverse_concat] at hpath
    exact Or.inr ⟨p, hparent, (List.cons.inj hpath).2⟩

end Stride

namespace Tree

variable {t : Tree S O E}

theorem departs_not_mem_entering {s : Stride S O E} (hs : s.Departs) {limit target : Nat}
    {recorded : List Nat} : s ∉ t.entering limit target recorded := by
  intro hm
  rcases entering_cases hm with h | ⟨h, _⟩
  · exact hs.not_arrives h
  · exact (h ▸ hs : (Stride.forget target : Stride S O E).Departs)

theorem act_not_mem_leaving {x : Candidate S O E} {limit : Nat} {active : List Nat} :
    .act x ∉ t.leaving limit active := by
  simp [leaving]

/-- The states that are left before the one at `i` are those below it. -/
theorem leaving_split (ht : t.Linked) {limit leaf i : Nat} {seg active below : List Nat}
    {done rest : List (Stride S O E)} (hl : t.Leads limit seg leaf)
    (ha : active = (t.path leaf).reverse)
    (h : t.leaving limit active = done ++ .leave i below :: rest) :
    i ∈ active ∧ t.below limit i = true ∧ done = t.leaving i active := by
  obtain ⟨inner, others, hfilter, hdone, hothers⟩ := List.map_eq_append_iff.mp h
  obtain ⟨j, outer, rfl, hj, _⟩ := List.map_eq_cons_iff.mp hothers
  cases hj
  have hi : i ∈ active.filter (t.below limit) := hfilter ▸ List.mem_append_right _ List.mem_cons_self
  have hseg : seg = outer.reverse ++ i :: inner.reverse := by
    rw [ha, List.filter_reverse, filter_below ht hl] at hfilter
    rw [← List.reverse_reverse seg, hfilter]
    simp
  -- what comes after `i` on the active path is below `i`
  obtain ⟨_, hinner⟩ := (hseg ▸ hl).split ht
  have hbelow : active.filter (t.below i) = inner := by
    rw [ha, List.filter_reverse, filter_below ht hinner, List.reverse_reverse]
  refine ⟨(List.mem_filter.mp hi).1, (List.mem_filter.mp hi).2, ?_⟩
  rw [leaving, hbelow, hdone]

/-- A stride on the way out is one of the exits, or the action after all of them. -/
theorem departs_split {x : Candidate S O E} {limit target : Nat} {active recorded : List Nat}
    {done rest : List (Stride S O E)} {s : Stride S O E} (hs : s.Departs)
    (h : t.leaving limit active ++ .act x :: t.entering limit target recorded =
      done ++ s :: rest) :
    (∃ more, t.leaving limit active = done ++ s :: more) ∨
      (s = .act x ∧ done = t.leaving limit active) := by
  rcases List.append_eq_append_iff.mp h with ⟨later, hdone, hlater⟩ | ⟨more, hleaving, hmore⟩
  · cases later with
    | nil =>
      obtain ⟨he, _⟩ := List.cons.inj hlater
      rw [List.append_nil] at hdone
      exact Or.inr ⟨he.symm, hdone⟩
    | cons s' later =>
      -- nothing on the way in departs
      have hm : s ∈ t.entering limit target recorded :=
        (List.cons.inj hlater).2 ▸ List.mem_append_right _ List.mem_cons_self
      exact absurd hm (departs_not_mem_entering hs)
  · cases more with
    | nil =>
      obtain ⟨he, _⟩ := List.cons.inj hmore
      rw [List.append_nil] at hleaving
      exact Or.inr ⟨he, hleaving.symm⟩
    | cons s' more =>
      obtain ⟨rfl, _⟩ := List.cons.inj hmore
      exact Or.inl ⟨more, hleaving⟩

/-- The stride at which an itinerary stops is an exit, after those of all states below; the action,
after all exits; or an entry, after which only the parent of the state entered is innermost. -/
theorem itinerary_split (ht : t.Linked) {st : Standing} (hst : t.Stands st)
    {x : Candidate S O E} {target : Nat} (hsource : x.state ∈ st.active) (htarget : target < t.size)
    {done rest : List (Stride S O E)} {s : Stride S O E}
    (h : t.itinerary x target st = done ++ s :: rest) {c : Call S O E} (hc : s.call? t = some c) :
    (∃ i below, s = .leave i below ∧ i ∈ st.active ∧
        t.below (t.commonAncestor x.state target) i = true ∧ done = t.leaving i st.active) ∨
      (s = .act x ∧ done = t.leaving (t.commonAncestor x.state target) st.active) ∨
      ∃ i p, s = .enter i ∧ i < t.size ∧ (t.node i).parent = some p ∧
        (done.foldl (Stride.pass t) st).active = (t.path p).reverse := by
  obtain ⟨leaf, seg, hl, ha⟩ := active_leads ht hst hsource
  obtain ⟨⟨xs, hxs⟩, _⟩ := commonAncestor_leads ht (hl.source_lt ht) htarget
  have hfit := (reaches_itinerary ht hst hsource htarget).1
  rcases Stride.call?_cases hc with ⟨i, below, rfl, _, _⟩ | ⟨y, rfl, _, _⟩ | ⟨i, rfl, _, _⟩
  · have hs : (Stride.leave i below : Stride S O E).Departs := trivial
    rcases departs_split hs h with ⟨more, hleaving⟩ | ⟨he, _⟩
    · obtain ⟨hi, hbelow, hdone⟩ := leaving_split ht (hxs.trans hl) ha hleaving
      exact Or.inl ⟨i, below, rfl, hi, hbelow, hdone⟩
    · cases he
  · have hs : (Stride.act y : Stride S O E).Departs := trivial
    rcases departs_split hs h with ⟨more, hleaving⟩ | ⟨he, hdone⟩
    · have hm : Stride.act y ∈ t.leaving (t.commonAncestor x.state target) st.active :=
        hleaving ▸ List.mem_append_right _ List.mem_cons_self
      exact absurd hm act_not_mem_leaving
    · exact Or.inr (Or.inl ⟨he, hdone⟩)
  · -- an entry fits, and no transition enters the root
    rw [h] at hfit
    have h0 : i ≠ 0 := by
      intro h0
      exact Stride.fitAll_apart ht hfit (List.ne_nil_of_mem hsource) (.enter i)
        (List.mem_append_right _ List.mem_cons_self) (congrArg some h0)
    obtain ⟨_, henter, _⟩ := (Stride.fitAll_append _ _ _).mp hfit
    rcases henter.enter_parent ht with ⟨hi, _⟩ | ⟨p, hparent, hactive⟩
    · exact absurd hi h0
    · exact Or.inr (Or.inr ⟨i, p, rfl, henter.1, hparent, hactive⟩)

end Tree

end StateTree
