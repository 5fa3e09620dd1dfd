import StateTree.Proofs.Step.Itinerary

/-!
What a march keeps. A stride fits a standing where it leaves the innermost state or enters a child
of it; what every fitting stride keeps is kept by a march, wherever it stops.
-/

namespace StateTree

variable {S O E : Type} {t : Tree S O E}

namespace Stride

def Fits (t : Tree S O E) (st : Standing) : Stride S O E → Prop
  | leave i below => i ≠ 0 ∧ i < t.size ∧ st.active = (t.path i).reverse ∧ ∃ j, t.Leads i below j
  | enter i => i < t.size ∧ i :: st.active = (t.path i).reverse
  | act _ | forget _ | restoring _ _ | stuck _ => True

/-- Each stride fits the standing that the strides before it lead to. -/
def FitAll (t : Tree S O E) : Standing → List (Stride S O E) → Prop
  | _, [] => True
  | st, s :: rest => s.Fits t st ∧ FitAll t (s.pass t st) rest

theorem fitAll_append (st : Standing) (xs ys : List (Stride S O E)) :
    FitAll t st (xs ++ ys) ↔ FitAll t st xs ∧ FitAll t (xs.foldl (pass t) st) ys := by
  induction xs generalizing st with
  | nil => simp [FitAll]
  | cons s xs ih => simp only [List.cons_append, FitAll, ih, List.foldl_cons, and_assoc]

/-- The strides fit, and lead to where the path to the state at `i` is active. -/
def Reaches (t : Tree S O E) (st : Standing) (ss : List (Stride S O E)) (i : Nat) : Prop :=
  FitAll t st ss ∧ (ss.foldl (pass t) st).active = (t.path i).reverse

theorem Reaches.append {st : Standing} {xs ys : List (Stride S O E)} {i j : Nat}
    (hx : Reaches t st xs i) (hy : ∀ st', st'.active = (t.path i).reverse → Reaches t st' ys j) :
    Reaches t st (xs ++ ys) j := by
  obtain ⟨hfit, ha⟩ := hx
  obtain ⟨hfit', ha'⟩ := hy _ ha
  refine ⟨(fitAll_append st xs ys).mpr ⟨hfit, hfit'⟩, ?_⟩
  rw [List.foldl_append]
  exact ha'

/-- Neither leaves nor enters a state. -/
def Stays : Stride S O E → Prop
  | leave _ _ | enter _ => False
  | act _ | forget _ | restoring _ _ | stuck _ => True

theorem reaches_of_stays (s : Stride S O E) (hs : s.Stays) {st : Standing} {i : Nat}
    (ha : st.active = (t.path i).reverse) : Reaches t st [s] i := by
  cases s with
  | leave i below => exact hs.elim
  | enter i => exact hs.elim
  | act c => exact ⟨⟨trivial, trivial⟩, ha⟩
  | forget i => exact ⟨⟨trivial, trivial⟩, ha⟩
  | restoring i depth => exact ⟨⟨trivial, trivial⟩, ha⟩
  | stuck i => exact ⟨⟨trivial, trivial⟩, ha⟩

theorem reaches_nil {st : Standing} {i : Nat} (ha : st.active = (t.path i).reverse) :
    Reaches t st [] i := ⟨trivial, ha⟩

theorem fitAll_enters (ht : t.Linked) {i j : Nat} {seg : List Nat} (hl : t.Leads i seg j)
    {st : Standing} (ha : st.active = (t.path i).reverse) : FitAll t st (seg.map .enter) := by
  induction seg generalizing i st with
  | nil => trivial
  | cons k seg ih =>
    obtain ⟨hk, hrest⟩ := hl.cons ht
    have hpath : k :: st.active = (t.path k).reverse := by rw [ha, hk.path, List.reverse_concat]
    exact ⟨⟨hk.lt, hpath⟩, ih hrest hpath⟩

theorem reaches_enters (ht : t.Linked) {i j : Nat} {seg : List Nat} (hl : t.Leads i seg j)
    {st : Standing} (ha : st.active = (t.path i).reverse) : Reaches t st (seg.map .enter) j := by
  refine ⟨fitAll_enters ht hl ha, ?_⟩
  rw [active_enters, ha, hl.path, List.reverse_append]

theorem fitAll_leaving (ht : t.Linked) {limit i leaf : Nat} {seg below : List Nat}
    (hlimit : t.Leads limit seg i) (hleaf : t.Leads i below leaf) {st : Standing}
    (ha : st.active = (t.path i).reverse) :
    FitAll t st (((t.path i).reverse.filter (t.below limit)).map fun j =>
      .leave j ((t.path leaf).filter (t.below j))) := by
  -- from the innermost state upwards: once it is left, the path to its parent is active
  induction i using Nat.strongRecOn generalizing seg below st with
  | ind i ih =>
    have hi := hlimit.lt
    rcases List.eq_nil_or_concat seg with hn | ⟨seg', k, hs⟩
    · have hnone : (t.path i).reverse.filter (t.below limit) = [] := by
        rw [List.filter_reverse, Tree.filter_below ht hlimit, hn, List.reverse_nil]
      rw [hnone]
      trivial
    · rw [List.concat_eq_append] at hs
      have hk : k = i := by
        have hlast := hlimit.last
        rw [hs, List.getLast?_concat, Option.getD_some] at hlast
        exact hlast
      subst hk
      have hb : t.below limit k = true := (Tree.below_iff ht hi).mpr ⟨seg, by simp [hs], hlimit⟩
      have hlt := Tree.below_lt ht hi hb
      obtain ⟨p, hp, hparent⟩ := ht.parent k (by omega) hi
      have hchild := Tree.Leads.child ht hi hparent
      have hup : t.Leads limit seg' p := by
        refine ⟨by omega, ?_⟩
        have hpath := hlimit.path
        rw [hchild.path, hs, ← List.append_assoc] at hpath
        exact (List.append_inj' hpath rfl).1
      have hrev : (t.path k).reverse = k :: (t.path p).reverse := by
        rw [hchild.path, List.reverse_concat]
      rw [hrev, List.filter_cons_of_pos hb, List.map_cons, Tree.filter_below ht hleaf]
      refine ⟨⟨by omega, hi, ha, leaf, hleaf⟩, ?_⟩
      apply ih p hp hup (hchild.trans hleaf)
      change st.active.tail = _
      rw [ha, hrev, List.tail_cons]

end Stride

namespace Tree

theorem Stands.before {st : Standing} (h : t.Stands st) (s : Stride S O E) :
    t.Stands (s.before st) := by
  cases s with
  | enter i =>
    refine ⟨h.chain, ?_⟩
    intro k chain hg
    change (st.history.erase i).get? k = some chain at hg
    rw [History.get?_erase] at hg
    split at hg
    · cases hg
    · exact h.records k chain hg
  | leave i below => exact h
  | act c => exact h
  | forget i => exact h
  | restoring i depth => exact h
  | stuck i => exact h

/-- A stride that fits leads from one path to another, and keeps records apart from it. -/
theorem Stands.pass (ht : t.Linked) {st : Standing} (h : t.Stands st) {s : Stride S O E}
    (hs : s.Fits t st) : t.Stands (s.pass t st) := by
  cases s with
  | leave i below =>
    obtain ⟨h0, hi, ha, hl⟩ := hs
    obtain ⟨p, hp, hparent⟩ := ht.parent i (by omega) hi
    have htail : st.active.tail = (t.path p).reverse := by
      rw [ha, path_child ht hi hparent, List.reverse_concat, List.tail_cons]
    refine ⟨Or.inr ⟨p, by omega, htail⟩, ?_⟩
    intro k chain hg
    -- a record stands for a state that is not active, which leaving others does not change
    have hold (hg : st.history.get? k = some chain) : t.Recalls st.active.tail k chain :=
      have hr := h.records k chain hg
      ⟨hr.ne_root, hr.flagged, fun hm => hr.inactive (List.mem_of_mem_tail hm), hr.ne_nil, hr.leads⟩
    change (if (t.node i).history && !below.isEmpty then st.history.insert i below
      else st.history).get? k = some chain at hg
    change t.Recalls st.active.tail k chain
    split at hg
    · next hflag =>
      rw [History.get?_insert] at hg
      split at hg
      · next hk =>
        subst hk
        cases hg
        simp only [Bool.and_eq_true, Bool.not_eq_true', List.isEmpty_eq_false_iff] at hflag
        refine ⟨h0, hflag.1, ?_, hflag.2, hl⟩
        -- the parent's path has only smaller places
        rw [htail, List.mem_reverse]
        intro hm
        have hle := mem_path_le ht (by omega) hm
        omega
      · exact hold hg
    · exact hold hg
  | enter i =>
    obtain ⟨hi, hpath⟩ := hs
    refine ⟨Or.inr ⟨i, hi, hpath⟩, ?_⟩
    intro k chain hg
    change (st.history.erase i).get? k = some chain at hg
    rw [History.get?_erase] at hg
    split at hg
    · cases hg
    · -- the state that is entered has lost its record
      next hk =>
      have hr := h.records k chain hg
      refine ⟨hr.ne_root, hr.flagged, ?_, hr.ne_nil, hr.leads⟩
      intro hm
      rcases List.mem_cons.mp hm with he | hm
      · exact hk he
      · exact hr.inactive hm
  | forget i =>
    refine ⟨h.chain, ?_⟩
    intro k chain hg
    change (st.history.erase i).get? k = some chain at hg
    rw [History.get?_erase] at hg
    split at hg
    · cases hg
    · exact h.records k chain hg
  | act c => exact h
  | restoring i depth => exact h
  | stuck i => exact h

theorem Stands.passAll (ht : t.Linked) {st : Standing} (h : t.Stands st)
    {ss : List (Stride S O E)} (hfit : Stride.FitAll t st ss) :
    t.Stands (ss.foldl (Stride.pass t) st) := by
  induction ss generalizing st with
  | nil => exact h
  | cons s rest ih => exact ih (h.pass ht hfit.1) hfit.2

/-- The state in which a target is settled: the end of the initial line below what is restored. -/
def landing (t : Tree S O E) (target : Nat) (recorded : List Nat) : Nat :=
  t.lineEnd (recorded.getLast?.getD target)

theorem landing_settles (ht : t.Linked) {target : Nat} {recorded : List Nat}
    (hl : ∃ j, t.Leads target recorded j) :
    t.landing target recorded < t.size ∧ t.firstInitial? (t.landing target recorded) = none := by
  obtain ⟨j, hj⟩ := hl
  obtain ⟨hline, hend⟩ := initialLine_leads ht hj.lt
  -- what is restored leads to `j`, and the line from there settles
  rw [landing, hj.last]
  exact ⟨hline.lt, hend⟩

theorem reaches_leaving (ht : t.Linked) {limit leaf : Nat} {seg : List Nat}
    (hl : t.Leads limit seg leaf) {st : Standing} (ha : st.active = (t.path leaf).reverse) :
    Stride.Reaches t st (t.leaving limit st.active) limit := by
  have hfit := Stride.fitAll_leaving ht hl (.refl hl.lt) ha
  rw [← List.reverse_reverse (t.path leaf), ← ha, List.reverse_reverse] at hfit
  refine ⟨hfit, ?_⟩
  -- as many states are taken off the chain as lie below the limit
  rw [leaving, Stride.active_leaves, ha, List.filter_reverse, filter_below ht hl, hl.path,
    List.reverse_append, List.drop_left]

theorem reaches_settling (ht : t.Linked) {i : Nat} (hi : i < t.size) {st : Standing}
    (ha : st.active = (t.path i).reverse) :
    Stride.Reaches t st (t.settling i) (t.lineEnd i) := by
  obtain ⟨hline, _⟩ := initialLine_leads ht hi
  refine (Stride.reaches_enters ht hline ha).append ?_
  intro st' ha'
  split
  · exact Stride.reaches_of_stays (.stuck _) trivial ha'
  · exact Stride.reaches_nil ha'

theorem reaches_finishing (ht : t.Linked) {target : Nat} {recorded : List Nat}
    (hrec : ∃ j, t.Leads target recorded j) {st : Standing}
    (ha : st.active = (t.path target).reverse) :
    Stride.Reaches t st (t.finishing target recorded) (t.landing target recorded) := by
  obtain ⟨j, hj⟩ := hrec
  have hnote : Stride.Reaches t st
      (if recorded = [] then [] else [.restoring target recorded.length]) target := by
    split
    · exact Stride.reaches_nil ha
    · exact Stride.reaches_of_stays (.restoring _ _) trivial ha
  refine hnote.append ?_
  intro st' ha'
  refine (Stride.reaches_enters ht hj ha').append ?_
  intro st' ha'
  simp only [landing, hj.last]
  exact reaches_settling ht hj.lt ha'

theorem reaches_entering (ht : t.Linked) {limit target : Nat} {seg recorded : List Nat}
    (hl : t.Leads limit seg target) (hrec : ∃ j, t.Leads target recorded j) {st : Standing}
    (ha : st.active = (t.path limit).reverse) :
    Stride.Reaches t st (t.entering limit target recorded) (t.landing target recorded) := by
  have hforget : Stride.Reaches t st
      (if (t.node target).history then [.forget target] else []) limit := by
    split
    · exact Stride.reaches_of_stays (.forget _) trivial ha
    · exact Stride.reaches_nil ha
  refine hforget.append ?_
  intro st' ha'
  rw [filter_below ht hl]
  refine (Stride.reaches_enters ht hl ha').append ?_
  intro st' ha'
  exact reaches_finishing ht hrec ha'

/-- All strides of an itinerary fit, and they lead to the state in which the target is settled. -/
theorem reaches_itinerary (ht : t.Linked) {st : Standing} (hst : t.Stands st)
    {c : Candidate S O E} {target : Nat} (hsource : c.state ∈ st.active)
    (htarget : target < t.size) :
    Stride.Reaches t st (t.itinerary c target st) (t.landing target (t.restored target st)) := by
  -- up to the limit, the action there, and down to the landing
  obtain ⟨leaf, seg, hl, ha⟩ := active_leads ht hst hsource
  obtain ⟨⟨xs, hxs⟩, ⟨ys, hys⟩⟩ := commonAncestor_leads ht (hl.source_lt ht) htarget
  refine (reaches_leaving ht (hxs.trans hl) ha).append ?_
  intro st' ha'
  have hact : Stride.Reaches t st' [.act c] (t.commonAncestor c.state target) :=
    Stride.reaches_of_stays (.act c) trivial ha'
  refine hact.append ?_
  intro st' ha'
  exact reaches_entering ht hys (restored_leads ht hst htarget) ha'

theorem reaches_reset (ht : t.Linked) :
    Stride.Reaches t ⟨[], .empty⟩ (.enter 0 :: t.settling 0) (t.landing 0 []) := by
  have hroot : Stride.Reaches t ⟨[], .empty⟩ [(.enter 0 : Stride S O E)] 0 :=
    ⟨⟨⟨t.size_pos, rfl⟩, trivial⟩, rfl⟩
  exact hroot.append fun st' ha' => reaches_settling ht t.size_pos ha'

end Tree

namespace Work

variable {event : Option E}

/-- What the strides of a march keep while they fit is kept by the march, wherever it stops. -/
theorem march_keeps {P : Standing → Prop} {ss : List (Stride S O E)}
    (hbefore : ∀ st, ∀ s ∈ ss, P st → P (s.before st))
    (hpass : ∀ st, ∀ s ∈ ss, P st → s.Fits t st → P (s.pass t st)) {w : Work O E}
    (hw : P w.standing) (hfit : Stride.FitAll t w.standing ss) :
    P (w.march t event ss).work.standing := by
  induction ss generalizing w with
  | nil => exact hw
  | cons s ss ih =>
    have hs : s ∈ s :: ss := List.mem_cons_self
    rw [march]
    cases h : w.stride t event s with
    | going v =>
      -- the stride is passed, and the rest of the march starts from where it led
      have hv := stride_going h
      refine ih (fun st s' hm => hbefore st s' (List.mem_cons_of_mem s hm))
        (fun st s' hm => hpass st s' (List.mem_cons_of_mem s hm)) ?_ ?_
      · rw [hv]
        exact hpass _ s hs hw hfit.1
      · rw [hv]
        exact hfit.2
    | stopped v f =>
      -- only what comes before the failing call has been done
      change P v.standing
      rw [(stride_stopped h).1]
      exact hbefore _ s hs hw

theorem march_stands (ht : t.Linked) {ss : List (Stride S O E)} {w : Work O E}
    (hw : t.Stands w.standing) (hfit : Stride.FitAll t w.standing ss) :
    t.Stands (w.march t event ss).work.standing :=
  march_keeps (fun _ s _ h => h.before s) (fun _ _ _ h hs => h.pass ht hs) hw hfit

end Work

namespace Tree

theorem stands_nothing : t.Stands ⟨[], .empty⟩ := by
  refine ⟨Or.inl rfl, ?_⟩
  intro k chain hg
  rw [History.get?_empty] at hg
  cases hg

theorem reset_stands (ht : t.Linked) (c : Configuration O) :
    t.Stands (t.reset c : Progress S O E).work.standing := by
  rw [Work.reset_eq_march ht]
  exact Work.march_stands ht stands_nothing (reaches_reset ht).1

end Tree

end StateTree
