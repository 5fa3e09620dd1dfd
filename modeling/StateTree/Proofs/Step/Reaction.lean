import StateTree.Proofs.Step.Standing

/-!
What a step can do. The search for a transition changes no standing; a reaction either leaves the
standing as it was or marches along the itinerary of the transition found.
-/

namespace StateTree

variable {S O E : Type} {t : Tree S O E}

/-- The state that is exited or entered, or whose exit or entry action is called. -/
def Mark.crossed? : Mark E → Option Nat
  | exited i | entered i | called (.exit i) _ | called (.entry i) _ => some i
  | _ => none

def Site.isGuard : Site → Bool
  | guard _ _ => true
  | _ => false

/-- Neither a move nor a failure that interrupts one. -/
def Reaction.Quiet : Reaction S → Prop
  | ignored | stayed _ => True
  | moved _ => False
  | failed f => f.leavesConsistent = true

namespace Work

variable {event : E}

/-- What becomes of the first candidate: it is taken, its guard fails, or the search goes on. -/
theorem choose_cons (t : Tree S O E) (event : E) (c : Candidate S O E)
    (rest : List (Candidate S O E)) (w : Work O E) :
    (w.choose t event (c :: rest) = (w, .ok (some c))) ∨
      ∃ v : Work O E, v.standing = w.standing ∧
        v.trail = w.trail ++ [.called (.guard c.state c.position) (some event)] ∧
        (w.choose t event (c :: rest) = (v, .ok (some c)) ∨
          w.choose t event (c :: rest) = v.choose t event rest ∨
          ∃ e, w.choose t event (c :: rest) = (v, .error ⟨.guard, (t.node c.state).id, e⟩)) := by
  cases hg : c.transition.guard with
  | none =>
    refine Or.inl ?_
    simp only [choose, hg]
  | some g =>
    refine Or.inr ⟨w.called (g.check w.owner event).2 (.guard c.state c.position) (some event),
      rfl, rfl, ?_⟩
    simp only [choose, hg]
    cases (g.check w.owner event).1.settle with
    | ok allowed =>
      cases allowed with
      | true => exact Or.inl rfl
      | false => exact Or.inr (Or.inl rfl)
    | error e => exact Or.inr (Or.inr ⟨e, rfl⟩)

theorem choose_standing (cs : List (Candidate S O E)) (w : Work O E) :
    (w.choose t event cs).1.standing = w.standing := by
  induction cs generalizing w with
  | nil => rfl
  | cons c rest ih =>
    rcases choose_cons t event c rest w with h | ⟨v, hv, _, h | h | ⟨e, h⟩⟩
    · rw [h]
    · rw [h]
      exact hv
    · rw [h, ih v]
      exact hv
    · rw [h]
      exact hv

theorem choose_mem {cs : List (Candidate S O E)} {w : Work O E} {c : Candidate S O E}
    (hc : (w.choose t event cs).2 = .ok (some c)) : c ∈ cs := by
  induction cs generalizing w with
  | nil => cases hc
  | cons d rest ih =>
    rcases choose_cons t event d rest w with h | ⟨v, _, _, h | h | ⟨e, h⟩⟩
    · rw [h] at hc
      cases hc
      exact List.mem_cons_self
    · rw [h] at hc
      cases hc
      exact List.mem_cons_self
    · rw [h] at hc
      exact List.mem_cons_of_mem _ (ih hc)
    · rw [h] at hc
      cases hc

theorem choose_error {cs : List (Candidate S O E)} {w : Work O E} {f : Failure S}
    (hf : (w.choose t event cs).2 = .error f) : f.phase = .guard := by
  induction cs generalizing w with
  | nil => cases hf
  | cons d rest ih =>
    rcases choose_cons t event d rest w with h | ⟨v, _, _, h | h | ⟨e, h⟩⟩
    · rw [h] at hf
      cases hf
    · rw [h] at hf
      cases hf
    · rw [h] at hf
      exact ih hf
    · rw [h] at hf
      cases hf
      rfl

/-- The search calls guards and nothing else. -/
theorem choose_trail {cs : List (Candidate S O E)} {w : Work O E} {mark : Mark E}
    (hm : mark ∈ (w.choose t event cs).1.trail) :
    mark ∈ w.trail ∨ ∃ i n, mark = .called (.guard i n) (some event) := by
  induction cs generalizing w with
  | nil => exact Or.inl hm
  | cons d rest ih =>
    have hcall {v : Work O E} (hv : v.trail = w.trail ++ [.called (.guard d.state d.position)
        (some event)]) (hm : mark ∈ v.trail) :
        mark ∈ w.trail ∨ ∃ i n, mark = .called (.guard i n) (some event) := by
      rw [hv, List.mem_append, List.mem_singleton] at hm
      exact hm.imp_right fun he => ⟨_, _, he⟩
    rcases choose_cons t event d rest w with h | ⟨v, _, hv, h | h | ⟨e, h⟩⟩
    · rw [h] at hm
      exact Or.inl hm
    · rw [h] at hm
      exact hcall hv hm
    · rw [h] at hm
      rcases ih hm with hm | he
      · exact hcall hv hm
      · exact Or.inr he
    · rw [h] at hm
      exact hcall hv hm

/-- A transition that stays is one call at most, and what the call ends in is the answer. -/
theorem stay_cases (t : Tree S O E) (event : E) (w : Work O E) (x : Candidate S O E) :
    (x.transition.action = none ∧
        w.stay t event x = (w.note (.stayed x.state), .stayed (t.node x.state).id)) ∨
      ∃ a, x.transition.action = some a ∧
        let ended := a.run w.owner (some event)
        let v := w.called ended.2 (.action x.state x.position) (some event)
        (ended.1.settle = .ok () ∧
            w.stay t event x = (v.note (.stayed x.state), .stayed (t.node x.state).id)) ∨
          ∃ e, ended.1.settle = .error e ∧
            w.stay t event x = (v, .failed ⟨.stayAction, (t.node x.state).id, e⟩) := by
  cases ha : x.transition.action with
  | none =>
    refine Or.inl ⟨rfl, ?_⟩
    simp only [stay, ha, run]
  | some a =>
    refine Or.inr ⟨a, rfl, ?_⟩
    simp only [stay, ha, run]
    cases he : (a.run w.owner (some event)).1.settle with
    | ok _ => exact Or.inl ⟨rfl, rfl⟩
    | error e => exact Or.inr ⟨e, rfl, rfl⟩

theorem stay_quiet (w : Work O E) (x : Candidate S O E) :
    (w.stay t event x).1.standing = w.standing ∧ (w.stay t event x).2.Quiet ∧
      ∀ mark ∈ (w.stay t event x).1.trail, mark ∈ w.trail ∨ mark.crossed? = none := by
  -- the trail grows by the call and by the mark of having stayed
  have hgrown {trail : List (Mark E)} {more : List (Mark E)}
      (hmore : ∀ mark ∈ more, mark.crossed? = none) (mark : Mark E) (hm : mark ∈ trail ++ more) :
      mark ∈ trail ∨ mark.crossed? = none :=
    (List.mem_append.mp hm).imp_right (hmore mark)
  rcases stay_cases t event w x with ⟨_, h⟩ | ⟨a, _, ⟨_, h⟩ | ⟨e, _, h⟩⟩
  · rw [h]
    exact ⟨rfl, trivial, hgrown (by simp [Mark.crossed?])⟩
  · rw [h]
    refine ⟨rfl, trivial, ?_⟩
    simp only [note, called, List.append_assoc]
    exact hgrown (by simp [Mark.crossed?])
  · rw [h]
    exact ⟨rfl, rfl, hgrown (by simp [Mark.crossed?])⟩

end Work

namespace Tree

variable [EventKind E] {event : E}

/-- A candidate is a transition of an active state. -/
theorem mem_candidates {active : List Nat} {c : Candidate S O E}
    (h : c ∈ t.candidates active event) :
    c.state ∈ active ∧ c.transition ∈ (t.node c.state).transitions := by
  obtain ⟨i, hi, hc⟩ := List.mem_flatMap.mp h
  obtain ⟨⟨x, n⟩, hx, he⟩ := List.mem_map.mp hc
  have hmem := (List.mem_filter.mp hx).1
  rw [← he]
  exact ⟨hi, List.fst_mem_of_mem_zipIdx hmem⟩

/-- The search for the transition that an event takes. -/
def select (t : Tree S O E) (event : E) (c : Configuration O) :
    Work O E × Except (Failure S) (Option (Candidate S O E)) :=
  (Work.start c).choose t event (t.candidates c.active event)

theorem select_standing (c : Configuration O) :
    (t.select event c).1.standing = c.standing := Work.choose_standing _ _

theorem select_history (c : Configuration O) : (t.select event c).1.history = c.history :=
  congrArg Standing.history (select_standing c)

theorem select_marks {c : Configuration O} {mark : Mark E}
    (hm : mark ∈ (t.select event c).1.trail) : mark.crossed? = none := by
  rcases Work.choose_trail hm with h | ⟨i, n, h⟩
  · exact absurd h List.not_mem_nil
  · rw [h]
    rfl

theorem select_mem {c : Configuration O} {x : Candidate S O E}
    (h : (t.select event c).2 = .ok (some x)) :
    x.state ∈ c.active ∧ x.transition ∈ (t.node x.state).transitions :=
  mem_candidates (Work.choose_mem h)

theorem react_of_error {c : Configuration O} {f : Failure S}
    (h : (t.select event c).2 = .error f) :
    t.react event c = ((t.select event c).1, .failed f) := by
  simp only [select] at h
  simp only [react, h, select]

theorem react_of_none {c : Configuration O} (h : (t.select event c).2 = .ok none) :
    t.react event c = ((t.select event c).1.note (.unmatched event), .ignored) := by
  simp only [select] at h
  simp only [react, h, select]

theorem react_stays {c : Configuration O} {x : Candidate S O E}
    (h : (t.select event c).2 = .ok (some x)) (hk : x.transition.kind = .stays) :
    t.react event c = (t.select event c).1.stay t event x := by
  simp only [select] at h
  simp only [react, h, hk, select]

theorem react_moves {c : Configuration O} {x : Candidate S O E} {id : S} {target : Nat}
    (h : (t.select event c).2 = .ok (some x)) (hk : x.transition.kind = .moves id target) :
    t.react event c = (t.select event c).1.move t event x target := by
  simp only [select] at h
  simp only [react, h, hk, select]

/-- A reaction is quiet and changes no standing, or it takes a transition to a target. -/
theorem react_cases (t : Tree S O E) (event : E) (c : Configuration O) :
    ((t.react event c).1.standing = c.standing ∧ (t.react event c).2.Quiet ∧
        ∀ mark ∈ (t.react event c).1.trail, mark.crossed? = none) ∨
      ∃ x id target, (t.select event c).2 = .ok (some x) ∧
        x.transition.kind = .moves id target := by
  -- the search ends in a failure, in nothing, or in a transition of one of two kinds
  cases hs : (t.select event c).2 with
  | error f =>
    have hguard : f.leavesConsistent = true := by
      simp [Failure.leavesConsistent, Work.choose_error hs]
    rw [react_of_error hs]
    exact Or.inl ⟨select_standing c, hguard, fun _ hm => select_marks hm⟩
  | ok found =>
    cases found with
    | none =>
      rw [react_of_none hs]
      refine Or.inl ⟨select_standing c, trivial, ?_⟩
      intro mark hm
      rcases List.mem_append.mp hm with hm | hm
      · exact select_marks hm
      · rw [List.mem_singleton.mp hm]
        rfl
    | some x =>
      cases hk : x.transition.kind with
      | moves id target => exact Or.inr ⟨x, id, target, rfl, hk⟩
      | stays =>
        obtain ⟨hst, hq, htrail⟩ := Work.stay_quiet (t := t) (t.select event c).1 x
        rw [react_stays hs hk]
        refine Or.inl ⟨hst.trans (select_standing c), hq, ?_⟩
        intro mark hm
        rcases htrail mark hm with hm | hm
        · exact select_marks hm
        · exact hm

end Tree

end StateTree
