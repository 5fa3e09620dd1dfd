import StateTree.Proofs.Step.Reaction

/-!
A reaction that takes a transition to a target. It is a march along the itinerary that starts from
the present standing, stays apart from the root, and fails only in the middle of a crossing.
-/

namespace StateTree

variable {S O E : Type} {t : Tree S O E}

namespace Stride

/-- The state that is left or entered. -/
def crossed? : Stride S O E → Option Nat
  | leave i _ | enter i => some i
  | act _ | forget _ | restoring _ _ | stuck _ => none

/-- The strides that call host code, and where. -/
theorem call?_cases {s : Stride S O E} {c : Call S O E} (h : s.call? t = some c) :
    (∃ i below, s = .leave i below ∧ c.site = .exit i ∧ c.phase = .exit) ∨
      (∃ x, s = .act x ∧ c.site = .action x.state x.position ∧ c.phase = .action) ∨
      ∃ i, s = .enter i ∧ c.site = .entry i ∧ c.phase = .entry := by
  cases s with
  | leave i below =>
    obtain ⟨a, _, rfl⟩ := Option.map_eq_some_iff.mp h
    exact Or.inl ⟨i, below, rfl, rfl, rfl⟩
  | act x =>
    obtain ⟨a, _, rfl⟩ := Option.map_eq_some_iff.mp h
    exact Or.inr (Or.inl ⟨x, rfl, rfl, rfl⟩)
  | enter i =>
    obtain ⟨a, _, rfl⟩ := Option.map_eq_some_iff.mp h
    exact Or.inr (Or.inr ⟨i, rfl, rfl, rfl⟩)
  | forget i => cases h
  | restoring i depth => cases h
  | stuck i => cases h

theorem crossed?_of_call {s : Stride S O E} {c : Call S O E} (h : s.call? t = some c)
    (event : Option E) : (Mark.called c.site event).crossed? = s.crossed? := by
  rcases call?_cases h with ⟨i, below, hs, hsite, _⟩ | ⟨x, hs, hsite, _⟩ | ⟨i, hs, hsite, _⟩
  · rw [hs, hsite]
    rfl
  · rw [hs, hsite]
    rfl
  · rw [hs, hsite]
    rfl

theorem crossed?_of_mark {s : Stride S O E} {mark : Mark E} (h : s.mark? = some mark) :
    mark.crossed? = s.crossed? := by
  cases s <;> cases h <;> rfl

/-- No stride calls a guard or the action of a transition that stays. -/
theorem interrupts_of_call {s : Stride S O E} {c : Call S O E} (h : s.call? t = some c)
    {f : Failure S} (hf : f.phase = c.phase) : f.leavesConsistent = false := by
  rcases call?_cases h with ⟨_, _, _, _, hp⟩ | ⟨_, _, _, hp⟩ | ⟨_, _, _, hp⟩
  · simp [Failure.leavesConsistent, hf, hp]
  · simp [Failure.leavesConsistent, hf, hp]
  · simp [Failure.leavesConsistent, hf, hp]

/-- Where something is active, a fitting stride does not cross the root. -/
theorem Fits.apart (ht : t.Linked) {st : Standing} {s : Stride S O E} (h : s.Fits t st)
    (hne : st.active ≠ []) : (s.pass t st).active ≠ [] ∧ s.crossed? ≠ some 0 := by
  cases s with
  | leave i below =>
    obtain ⟨h0, hi, ha, _⟩ := h
    constructor
    · -- the parent of the state that is left stays active
      obtain ⟨p, _, hparent⟩ := ht.parent i (by omega) hi
      change st.active.tail ≠ []
      rw [ha, Tree.path_child ht hi hparent, List.reverse_concat, List.tail_cons]
      simpa using t.path_ne_nil p
    · intro hc
      exact h0 (Option.some.inj hc)
  | enter i =>
    constructor
    · exact List.cons_ne_nil _ _
    · -- the root would be entered below nothing
      intro hc
      have hpath := h.2
      rw [Option.some.inj hc, Tree.path_zero] at hpath
      exact hne (List.cons.inj hpath).2
  | act x => exact ⟨hne, nofun⟩
  | forget i => exact ⟨hne, nofun⟩
  | restoring i depth => exact ⟨hne, nofun⟩
  | stuck i => exact ⟨hne, nofun⟩

theorem fitAll_apart (ht : t.Linked) {st : Standing} {ss : List (Stride S O E)}
    (h : FitAll t st ss) (hne : st.active ≠ []) : ∀ s ∈ ss, s.crossed? ≠ some 0 := by
  -- each stride leaves something active for the next one
  induction ss generalizing st with
  | nil => nofun
  | cons s rest ih =>
    obtain ⟨hs, hrest⟩ := h
    obtain ⟨hpass, hcross⟩ := hs.apart ht hne
    intro s' hs'
    rcases List.mem_cons.mp hs' with he | hm
    · exact he ▸ hcross
    · exact ih hrest hpass s' hm

end Stride

namespace Work

variable {event : Option E}

theorem march_active (ht : t.Linked) {ss : List (Stride S O E)} {w : Work O E}
    (hw : w.active ≠ []) (hfit : Stride.FitAll t w.standing ss) :
    (w.march t event ss).work.active ≠ [] := by
  have hbefore (st : Standing) (s : Stride S O E) (_ : s ∈ ss) (h : st.active ≠ []) :
      (s.before st).active ≠ [] := by
    cases s <;> exact h
  exact march_keeps (P := fun st => st.active ≠ []) hbefore
    (fun _ _ _ h hs => (hs.apart ht h).1) hw hfit

theorem march_crossed (ht : t.Linked) {ss : List (Stride S O E)} {w : Work O E}
    (hw : w.active ≠ []) (hfit : Stride.FitAll t w.standing ss) {mark : Mark E}
    (hm : mark ∈ (w.march t event ss).work.trail) :
    mark ∈ w.trail ∨ mark.crossed? ≠ some 0 := by
  rcases march_trail hm with hm | ⟨s, hs, ⟨c, hc, he⟩ | hmark⟩
  · exact Or.inl hm
  · rw [he, Stride.crossed?_of_call hc]
    exact Or.inr (Stride.fitAll_apart ht hfit hw s hs)
  · rw [Stride.crossed?_of_mark hmark]
    exact Or.inr (Stride.fitAll_apart ht hfit hw s hs)

/-- The failure that stops a march leaves the machine between states. -/
theorem march_interrupts {ss : List (Stride S O E)} {w v : Work O E} {f : Failure S}
    (h : w.march t event ss = .stopped v f) : f.leavesConsistent = false := by
  obtain ⟨_, s, _, _, _, c, hc, hphase, _⟩ := march_stopped h
  exact Stride.interrupts_of_call hc hphase

theorem head?_eq_innermost {w : Work O E} (h : w.active ≠ []) :
    w.active.head? = some w.innermost := by
  rw [innermost]
  cases ha : w.active with
  | nil => exact absurd ha h
  | cons i rest => rfl

theorem innermost_of_path {w : Work O E} {i : Nat} (h : w.active = (t.path i).reverse) :
    w.innermost = i := by
  obtain ⟨above, ha⟩ := t.path_eq_init i
  rw [innermost, h, ha, List.reverse_concat]
  rfl

end Work

namespace Tree

variable [DecidableEq S] [EventKind E] {event : E}

/-- The march of a transition to `target`, as it is found from `c`. -/
def passage (t : Tree S O E) (event : E) (c : Configuration O) (x : Candidate S O E)
    (target : Nat) : Progress S O E :=
  (t.select event c).1.march t (some event) (t.itinerary x target c.standing)

/-- The transition that is selected starts from an active state and leads into the tree. -/
theorem select_bounds (ht : t.Sound) {c : Configuration O} (hst : t.Stands c.standing)
    {x : Candidate S O E} {id : S} {target : Nat} (hs : (t.select event c).2 = .ok (some x))
    (hk : x.transition.kind = .moves id target) :
    x.state ∈ c.active ∧ x.state < t.size ∧ target < t.size := by
  obtain ⟨hactive, htrans⟩ := select_mem hs
  obtain ⟨leaf, seg, hl, _⟩ := active_leads ht.toLinked hst hactive
  have hsource := hl.source_lt ht.toLinked
  -- a sound tree has all targets of its transitions inside
  exact ⟨hactive, hsource, target_lt ht hsource htrans hk⟩

theorem cross_eq_passage (ht : t.Sound) {c : Configuration O} (hst : t.Stands c.standing)
    {x : Candidate S O E} {id : S} {target : Nat} (hs : (t.select event c).2 = .ok (some x))
    (hk : x.transition.kind = .moves id target) :
    (t.select event c).1.cross t event x target = t.passage event c x target := by
  obtain ⟨hsource, _, htarget⟩ := select_bounds ht hst hs hk
  have hstanding : (t.select event c).1.standing = c.standing := select_standing c
  have hactive : (t.select event c).1.active = c.active := congrArg Standing.active hstanding
  -- the guards have changed no standing, so the itinerary may be told from `c`
  rw [passage, ← hstanding]
  apply Work.cross_eq_march ht.toLinked
  · rw [hstanding]
    exact hst
  · rw [hactive]
    exact hsource
  · exact htarget

theorem passage_fits (ht : t.Sound) {c : Configuration O} (hst : t.Stands c.standing)
    {x : Candidate S O E} {id : S} {target : Nat} (hs : (t.select event c).2 = .ok (some x))
    (hk : x.transition.kind = .moves id target) :
    Stride.Reaches t (t.select event c).1.standing (t.itinerary x target c.standing)
      (t.landing target (t.restored target c.standing)) := by
  obtain ⟨hsource, _, htarget⟩ := select_bounds ht hst hs hk
  rw [select_standing]
  exact reaches_itinerary ht.toLinked hst hsource htarget

/-- The reaction moves to where the target is settled, or fails where the march stops. -/
theorem react_passage (ht : t.Sound) {c : Configuration O} (hst : t.Stands c.standing)
    {x : Candidate S O E} {id : S} {target : Nat} (hs : (t.select event c).2 = .ok (some x))
    (hk : x.transition.kind = .moves id target) :
    (∃ v f, t.passage event c x target = .stopped v f ∧ f.leavesConsistent = false ∧
        t.react event c = (v, .failed f)) ∨
      ∃ v before, t.passage event c x target = .going v ∧
        v.active = (t.path (t.landing target (t.restored target c.standing))).reverse ∧
        t.react event c =
          (v.note (.moved x.state target before
              (t.landing target (t.restored target c.standing))),
            .moved ⟨(t.node x.state).id, (t.node target).id, (t.node before).id,
              (t.node (t.landing target (t.restored target c.standing))).id⟩) := by
  have hreach := (passage_fits ht hst hs hk).2
  -- a march that does not stop ends where its strides reach
  rw [react_moves hs hk, Work.move, cross_eq_passage ht hst hs hk]
  cases hp : t.passage event c x target with
  | stopped v f => exact Or.inl ⟨v, f, rfl, Work.march_interrupts hp, rfl⟩
  | going v =>
    have hv : v.active = _ := (congrArg Standing.active (Work.march_going hp)).trans hreach
    refine Or.inr ⟨v, (t.select event c).1.innermost, rfl, hv, ?_⟩
    simp only [Work.innermost_of_path hv]

/-- A reaction that moves has taken a transition, and its target is settled now. -/
theorem react_moved (ht : t.Sound) {c : Configuration O} (hst : t.Stands c.standing) {move : Move S}
    (h : (t.react event c).2 = .moved move) :
    ∃ x id target, (t.select event c).2 = .ok (some x) ∧ x.transition.kind = .moves id target ∧
      t.place? move.source = some x.state ∧ t.place? move.target = some target ∧
      (t.react event c).1.active =
        (t.path (t.landing target (t.restored target c.standing))).reverse := by
  rcases react_cases t event c with ⟨_, hq, _⟩ | ⟨x, id, target, hs, hk⟩
  · rw [h] at hq
    exact hq.elim
  obtain ⟨_, hsource, htarget⟩ := select_bounds ht hst hs hk
  rcases react_passage ht hst hs hk with ⟨v, f, _, _, hr⟩ | ⟨v, before, _, ha, hr⟩
  · rw [hr] at h
    cases h
  · rw [hr] at h ⊢
    cases h
    exact ⟨x, id, target, hs, hk, (ht.place _ _).mpr ⟨hsource, rfl⟩,
      (ht.place _ _).mpr ⟨htarget, rfl⟩, ha⟩

/-- A move tells the innermost states before and after it. -/
theorem react_moved_between (ht : t.Sound) {c : Configuration O} (hst : t.Stands c.standing)
    {move : Move S} (h : (t.react event c).2 = .moved move) :
    (c.active.head?.map fun i => (t.node i).id) = some move.before ∧
      ((t.react event c).1.active.head?.map fun i => (t.node i).id) = some move.after := by
  obtain ⟨x, id, target, hs, hk, _, _, hactive⟩ := react_moved ht hst h
  have hbefore : (t.select event c).1.active = c.active :=
    congrArg Standing.active (select_standing c)
  rw [react_moves hs hk, Work.move] at h hactive ⊢
  cases hc : (t.select event c).1.cross t event x target with
  | stopped v f =>
    rw [hc] at h
    cases h
  | going v =>
    rw [hc] at h hactive
    cases h
    -- something is active before, since the source of the transition is
    have hsource : (t.select event c).1.active ≠ [] := by
      rw [hbefore]
      exact List.ne_nil_of_mem (select_mem hs).1
    have htarget : v.active ≠ [] := by
      rw [show v.active = _ from hactive]
      exact fun he => t.path_ne_nil _ (List.reverse_eq_nil_iff.mp he)
    rw [← hbefore, Work.head?_eq_innermost hsource]
    refine ⟨rfl, ?_⟩
    change (v.active.head?.map fun i => (t.node i).id) = _
    rw [Work.head?_eq_innermost htarget]
    rfl

/-- The reaction leaves what the march leaves, but for the mark of a move that was completed. -/
theorem react_work (ht : t.Sound) {c : Configuration O} (hst : t.Stands c.standing)
    {x : Candidate S O E} {id : S} {target : Nat} (hs : (t.select event c).2 = .ok (some x))
    (hk : x.transition.kind = .moves id target) :
    let work := (t.passage event c x target).work
    (t.react event c).1.toConfiguration = work.toConfiguration ∧
      ∃ last, (t.react event c).1.trail = work.trail ++ last ∧
        ∀ mark ∈ last, mark.call? = none ∧ mark.crossed? = none := by
  intro work
  rcases react_passage ht hst hs hk with ⟨v, f, hp, _, hr⟩ | ⟨v, before, hp, _, hr⟩
  · have hwork : work = v := congrArg Progress.work hp
    rw [hwork, hr]
    exact ⟨rfl, [], (List.append_nil _).symm, nofun⟩
  · have hwork : work = v := congrArg Progress.work hp
    rw [hwork, hr]
    -- only the mark of the move comes after the march
    refine ⟨rfl, _, rfl, ?_⟩
    intro mark hm
    rw [List.mem_singleton.mp hm]
    exact ⟨rfl, rfl⟩

theorem react_stands (ht : t.Sound) {c : Configuration O} (hst : t.Stands c.standing) :
    t.Stands (t.react event c).1.standing := by
  rcases react_cases t event c with ⟨hq, _⟩ | ⟨x, id, target, hs, hk⟩
  · rw [hq]
    exact hst
  · have hmarch : t.Stands (t.passage event c x target).work.standing := by
      apply Work.march_stands ht.toLinked
      · rw [select_standing]
        exact hst
      · exact (passage_fits ht hst hs hk).1
    rw [congrArg Configuration.standing (react_work ht hst hs hk).1]
    exact hmarch

end Tree

end StateTree
