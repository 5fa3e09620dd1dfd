import StateTree.Step

/-!
A step as a march: a list of strides that is fixed before the first one is taken. Each stride calls
host code once at most, and a march stops at the first call that fails.
-/

namespace StateTree

variable {S O E : Type}

namespace Progress

theorem andThen_assoc (p : Progress S O E) (f g : Work O E → Progress S O E) :
    (p.andThen f).andThen g = p.andThen fun w => (f w).andThen g := by
  cases p <;> rfl

theorem andThen_congr {p : Progress S O E} {f g : Work O E → Progress S O E}
    (h : ∀ w, p = .going w → f w = g w) : p.andThen f = p.andThen g := by
  cases p with
  | going w => exact h w rfl
  | stopped w f => rfl

end Progress

/-- What is active, innermost state first, and what is remembered. -/
structure Standing where
  active : List Nat
  history : History

def Configuration.standing (c : Configuration O) : Standing := ⟨c.active, c.history⟩

/-- A call of an action that is planned, and the blame where it fails. -/
structure Call (S O E : Type) where
  site : Site
  action : Action O E
  phase : Phase
  state : S

/-- The calls that were made, the owner they left, and the failure of the last one. -/
structure Ran (S O E : Type) where
  made : List (Call S O E)
  owner : O
  failure? : Option (Failure S)

/-- Makes calls in turn, up to the first one that fails. -/
def Call.runAll (event : Option E) : List (Call S O E) → O → Ran S O E
  | [], owner => ⟨[], owner, none⟩
  | c :: rest, owner =>
    let ended := c.action.run owner event
    match ended.1.settle with
    | .ok () =>
      let later := runAll event rest ended.2
      ⟨c :: later.made, later.owner, later.failure?⟩
    | .error e => ⟨[c], ended.2, some ⟨c.phase, c.state, e⟩⟩

/-- The site and the event of a call of host code. -/
def Mark.call? : Mark E → Option (Site × Option E)
  | called site event => some (site, event)
  | _ => none

def callsOf (trail : List (Mark E)) : List (Site × Option E) := trail.filterMap Mark.call?

/-- Something that a step does on its way. A state is left with the states active below it. -/
inductive Stride (S O E : Type)
  | leave (i : Nat) (below : List Nat)
  | act (c : Candidate S O E)
  | forget (i : Nat)
  | enter (i : Nat)
  | restoring (i depth : Nat)
  | stuck (i : Nat)

namespace Stride

def call? (t : Tree S O E) : Stride S O E → Option (Call S O E)
  | leave i _ => (t.node i).exit.map fun a => ⟨.exit i, a, .exit, (t.node i).id⟩
  | act c =>
    c.transition.action.map fun a =>
      ⟨.action c.state c.position, a, .action, (t.node c.state).id⟩
  | enter i => (t.node i).entry.map fun a => ⟨.entry i, a, .entry, (t.node i).id⟩
  | forget _ | restoring _ _ | stuck _ => none

/-- The change that comes before the call and so stays where the call fails. -/
def before : Stride S O E → Standing → Standing
  | enter i, st => { st with history := st.history.erase i }
  | _, st => st

/-- The change that follows the call. -/
def after (t : Tree S O E) : Stride S O E → Standing → Standing
  | leave i below, st =>
    ⟨st.active.tail,
      if (t.node i).history && !below.isEmpty then st.history.insert i below else st.history⟩
  | forget i, st => { st with history := st.history.erase i }
  | enter i, st => { st with active := i :: st.active }
  | act _, st | restoring _ _, st | stuck _, st => st

def mark? : Stride S O E → Option (Mark E)
  | leave i _ => some (.exited i)
  | enter i => some (.entered i)
  | restoring i depth => some (.restoring i depth)
  | stuck i => some (.stuck i)
  | act _ | forget _ => none

def pass (t : Tree S O E) (st : Standing) (s : Stride S O E) : Standing := s.after t (s.before st)

/-- The marks of a stride whose call succeeds. -/
def marks (t : Tree S O E) (event : Option E) (s : Stride S O E) : List (Mark E) :=
  ((s.call? t).map fun c => .called c.site event).toList ++ s.mark?.toList

theorem mem_marks {t : Tree S O E} {event : Option E} {s : Stride S O E} {mark : Mark E} :
    mark ∈ s.marks t event ↔
      (∃ c, s.call? t = some c ∧ mark = .called c.site event) ∨ s.mark? = some mark := by
  simp only [marks, List.mem_append, Option.mem_toList, Option.map_eq_some_iff,
    eq_comm (a := mark)]

end Stride

namespace Work

def call (event : Option E) (w : Work O E) : Option (Call S O E) → Progress S O E
  | none => .going w
  | some c => w.run (some c.action) event c.site c.phase c.state

def stand (w : Work O E) (st : Standing) : Work O E :=
  { w with active := st.active, history := st.history }

/-- The work once the call of a stride succeeded. -/
def settle (t : Tree S O E) (s : Stride S O E) (w : Work O E) : Work O E :=
  { w.stand (s.after t w.standing) with trail := w.trail ++ s.mark?.toList }

def stride (t : Tree S O E) (event : Option E) (s : Stride S O E) (w : Work O E) :
    Progress S O E :=
  ((w.stand (s.before w.standing)).call event (s.call? t)).andThen fun w => .going (w.settle t s)

def march (t : Tree S O E) (event : Option E) : List (Stride S O E) → Work O E → Progress S O E
  | [], w => .going w
  | s :: rest, w => (w.stride t event s).andThen (march t event rest)

variable {t : Tree S O E} {event : Option E}

theorem march_append (xs ys : List (Stride S O E)) (w : Work O E) :
    w.march t event (xs ++ ys) = (w.march t event xs).andThen (march t event ys) := by
  induction xs generalizing w with
  | nil => rfl
  | cons s xs ih =>
    rw [List.cons_append, march, march, Progress.andThen_assoc]
    exact Progress.andThen_congr fun w _ => ih w

theorem march_singleton (s : Stride S O E) (w : Work O E) :
    w.march t event [s] = w.stride t event s := by
  rw [march]
  cases w.stride t event s <;> rfl

theorem run_eq_call (w : Work O E) (action : Option (Action O E)) (site : Site) (phase : Phase)
    (state : S) :
    w.run action event site phase state =
      w.call event (action.map fun a => ⟨site, a, phase, state⟩) := by
  cases action <;> rfl

/-- A call changes the owner and the trail only, and stops the work exactly where it fails. -/
theorem call_cases (event : Option E) (w : Work O E) (c : Call S O E) :
    let ended := c.action.run w.owner event
    (ended.1.settle = .ok () ∧ w.call event (some c) = .going (w.called ended.2 c.site event)) ∨
      ∃ e, ended.1.settle = .error e ∧
        w.call event (some c) = .stopped (w.called ended.2 c.site event) ⟨c.phase, c.state, e⟩ := by
  intro ended
  cases he : ended.1.settle with
  | ok u =>
    refine Or.inl ⟨rfl, ?_⟩
    simp only [call, run]
    rw [he]
  | error e =>
    refine Or.inr ⟨e, rfl, ?_⟩
    simp only [call, run]
    rw [he]

theorem call_standing (event : Option E) (w : Work O E) (c : Option (Call S O E)) :
    (w.call event c).work.standing = w.standing := by
  cases c with
  | none => rfl
  | some c =>
    rcases call_cases event w c with ⟨_, h⟩ | ⟨e, _, h⟩
    · rw [h]
      rfl
    · rw [h]
      rfl

theorem call_stopped {w v : Work O E} {c : Option (Call S O E)} {f : Failure S}
    (h : w.call event c = .stopped v f) :
    ∃ d e, c = some d ∧ (d.action.run w.owner event).1.settle = .error e ∧
      f = ⟨d.phase, d.state, e⟩ := by
  cases c with
  | none => cases h
  | some d =>
    rcases call_cases event w d with ⟨_, hd⟩ | ⟨e, he, hd⟩
    · rw [hd] at h
      cases h
    · rw [hd] at h
      cases h
      exact ⟨d, e, rfl, he, rfl⟩

/-- A call leaves its mark whether it fails or not. -/
theorem trail_call (event : Option E) (w : Work O E) (c : Option (Call S O E)) :
    (w.call event c).work.trail =
      w.trail ++ (c.map fun d => .called d.site event).toList := by
  cases c with
  | none => exact (List.append_nil _).symm
  | some d =>
    rcases call_cases event w d with ⟨_, hd⟩ | ⟨e, _, hd⟩
    · rw [hd]
      rfl
    · rw [hd]
      rfl

theorem stride_going {w w' : Work O E} {s : Stride S O E} (h : w.stride t event s = .going w') :
    w'.standing = s.pass t w.standing := by
  -- the call leaves the standing as it was, so only the changes around it count
  have hst := call_standing event (w.stand (s.before w.standing)) (s.call? t)
  rw [stride] at h
  cases hc : (w.stand (s.before w.standing)).call event (s.call? t) with
  | going v =>
    rw [hc] at h hst
    cases h
    change s.after t v.standing = s.after t (s.before w.standing)
    exact congrArg (s.after t) hst
  | stopped v f =>
    rw [hc] at h
    cases h

theorem stride_stopped {w w' : Work O E} {s : Stride S O E} {f : Failure S}
    (h : w.stride t event s = .stopped w' f) :
    w'.standing = s.before w.standing ∧
      ∃ c e, s.call? t = some c ∧ (c.action.run w.owner event).1.settle = .error e ∧
        f = ⟨c.phase, c.state, e⟩ := by
  have hst := call_standing event (w.stand (s.before w.standing)) (s.call? t)
  rw [stride] at h
  cases hc : (w.stand (s.before w.standing)).call event (s.call? t) with
  | going v =>
    rw [hc] at h
    cases h
  | stopped v g =>
    rw [hc] at h hst
    cases h
    exact ⟨hst, call_stopped (w := w.stand (s.before w.standing)) hc⟩

theorem trail_stride_going {w w' : Work O E} {s : Stride S O E}
    (h : w.stride t event s = .going w') : w'.trail = w.trail ++ s.marks t event := by
  have htrail := trail_call event (w.stand (s.before w.standing)) (s.call? t)
  rw [stride] at h
  cases hc : (w.stand (s.before w.standing)).call event (s.call? t) with
  | going v =>
    rw [hc] at h htrail
    cases h
    change v.trail ++ s.mark?.toList = _
    rw [show v.trail = _ from htrail, Stride.marks, ← List.append_assoc]
    rfl
  | stopped v f =>
    rw [hc] at h
    cases h

theorem trail_stride_stopped {w w' : Work O E} {s : Stride S O E} {f : Failure S}
    (h : w.stride t event s = .stopped w' f) {c : Call S O E} (hcall : s.call? t = some c) :
    w'.trail = w.trail ++ [.called c.site event] := by
  have htrail := trail_call event (w.stand (s.before w.standing)) (s.call? t)
  rw [stride] at h
  cases hc : (w.stand (s.before w.standing)).call event (s.call? t) with
  | going v =>
    rw [hc] at h
    cases h
  | stopped v g =>
    rw [hc] at h htrail
    cases h
    rw [hcall] at htrail
    exact htrail

theorem march_going {ss : List (Stride S O E)} {w w' : Work O E}
    (h : w.march t event ss = .going w') : w'.standing = ss.foldl (Stride.pass t) w.standing := by
  induction ss generalizing w with
  | nil =>
    cases h
    rfl
  | cons s rest ih =>
    rw [march] at h
    cases hs : w.stride t event s with
    | going v =>
      rw [hs] at h
      rw [List.foldl_cons, ← stride_going hs]
      exact ih h
    | stopped v f =>
      rw [hs] at h
      cases h

theorem trail_march_going {ss : List (Stride S O E)} {w w' : Work O E}
    (h : w.march t event ss = .going w') :
    w'.trail = w.trail ++ ss.flatMap (Stride.marks t event) := by
  induction ss generalizing w with
  | nil =>
    cases h
    exact (List.append_nil _).symm
  | cons s rest ih =>
    rw [march] at h
    cases hs : w.stride t event s with
    | going v =>
      rw [hs] at h
      rw [ih h, trail_stride_going hs, List.flatMap_cons, List.append_assoc]
    | stopped v f =>
      rw [hs] at h
      cases h

theorem owner_stride_stopped {w w' : Work O E} {s : Stride S O E} {f : Failure S}
    (h : w.stride t event s = .stopped w' f) {c : Call S O E} (hcall : s.call? t = some c) :
    w'.owner = (c.action.run w.owner event).2 := by
  rw [stride, hcall] at h
  rcases call_cases event (w.stand (s.before w.standing)) c with ⟨_, hc⟩ | ⟨e, _, hc⟩
  · rw [hc] at h
    cases h
  · rw [hc] at h
    cases h
    rfl

/-- A march stops at one stride, and the march up to that stride goes through. -/
theorem march_stops {ss : List (Stride S O E)} {w w' : Work O E} {f : Failure S}
    (h : w.march t event ss = .stopped w' f) :
    ∃ done s rest v, ss = done ++ s :: rest ∧ w.march t event done = .going v ∧
      v.stride t event s = .stopped w' f := by
  induction ss generalizing w with
  | nil => cases h
  | cons s rest ih =>
    rw [march] at h
    cases hs : w.stride t event s with
    | going u =>
      -- the failing stride is among the rest, and `s` is one of those before it
      rw [hs] at h
      obtain ⟨done, s', rest', v, he, hdone, hstop⟩ := ih h
      refine ⟨s :: done, s', rest', v, by rw [he]; rfl, ?_, hstop⟩
      rw [march, hs]
      exact hdone
    | stopped u g =>
      rw [hs] at h
      cases h
      exact ⟨[], s, rest, w, rfl, rfl, hs⟩

/-- A march that stops has passed the strides before the failing one, and no others. -/
theorem march_stopped {ss : List (Stride S O E)} {w w' : Work O E} {f : Failure S}
    (h : w.march t event ss = .stopped w' f) :
    ∃ done s rest, ss = done ++ s :: rest ∧
      w'.standing = s.before (done.foldl (Stride.pass t) w.standing) ∧
      ∃ c, s.call? t = some c ∧ f.phase = c.phase ∧ f.state = c.state ∧
        w'.trail = w.trail ++ (done.flatMap (Stride.marks t event) ++ [.called c.site event]) := by
  obtain ⟨done, s, rest, v, he, hdone, hstop⟩ := march_stops h
  obtain ⟨hstanding, c, e, hc, _, hf⟩ := stride_stopped hstop
  refine ⟨done, s, rest, he, ?_, c, hc, by rw [hf], by rw [hf], ?_⟩
  · rw [hstanding, march_going hdone]
  · rw [trail_stride_stopped hstop hc, trail_march_going hdone, List.append_assoc]

theorem march_trail {ss : List (Stride S O E)} {w : Work O E} {mark : Mark E}
    (hm : mark ∈ (w.march t event ss).work.trail) :
    mark ∈ w.trail ∨ ∃ s ∈ ss, (∃ c, s.call? t = some c ∧ mark = .called c.site event) ∨
      s.mark? = some mark := by
  cases hp : w.march t event ss with
  | going v =>
    rw [hp] at hm
    change mark ∈ v.trail at hm
    rw [trail_march_going hp, List.mem_append, List.mem_flatMap] at hm
    simp only [Stride.mem_marks] at hm
    exact hm
  | stopped v f =>
    -- the strides that left marks are the failing one and those before it
    obtain ⟨done, s, rest, he, _, c, hc, _, _, htrail⟩ := march_stopped hp
    rw [hp] at hm
    change mark ∈ v.trail at hm
    rw [htrail, List.mem_append, List.mem_append, List.mem_flatMap, List.mem_singleton] at hm
    rcases hm with hm | ⟨s', hs', hm⟩ | hm
    · exact Or.inl hm
    · exact Or.inr ⟨s', by simp [he, hs'], Stride.mem_marks.mp hm⟩
    · exact Or.inr ⟨s, by simp [he], Or.inl ⟨c, hc, hm⟩⟩

theorem callsOf_settle (s : Stride S O E) (w : Work O E) :
    callsOf (w.settle t s).trail = callsOf w.trail := by
  cases s <;> simp [callsOf, settle, Stride.mark?, Mark.call?]

theorem callsOf_called (w : Work O E) (owner : O) (site : Site) (event : Option E) :
    callsOf (w.called owner site event).trail = callsOf w.trail ++ [(site, event)] := by
  simp [callsOf, called, Mark.call?]

/-- A march makes the calls of its strides in turn, up to the first one that fails. -/
theorem march_ran (ss : List (Stride S O E)) (w : Work O E) :
    let ran := Call.runAll event (ss.filterMap (Stride.call? t)) w.owner
    let p := w.march t event ss
    p.failure? = ran.failure? ∧ p.work.owner = ran.owner ∧
      callsOf p.work.trail = callsOf w.trail ++ ran.made.map fun c => (c.site, event) := by
  induction ss generalizing w with
  | nil => exact ⟨rfl, rfl, by simp [march, Progress.work, Call.runAll]⟩
  | cons s rest ih =>
    intro ran p
    let w₀ := w.stand (s.before w.standing)
    -- the first stride is taken apart: what comes before its call, the call, and the rest
    have hp : p = (w₀.call event (s.call? t)).andThen fun w => (w.settle t s).march t event rest :=
      Progress.andThen_assoc _ _ _
    cases hc : s.call? t with
    | none =>
      -- without a call the strides that remain say everything
      have hran : ran = Call.runAll event (rest.filterMap (Stride.call? t)) w.owner := by
        simp only [ran, List.filterMap_cons, hc]
      obtain ⟨hf, ho, hcalls⟩ := ih (w₀.settle t s)
      rw [hc] at hp
      rw [hp, hran]
      refine ⟨hf, ho, ?_⟩
      rw [callsOf_settle] at hcalls
      exact hcalls
    | some c =>
      rw [hc] at hp
      rcases call_cases event w₀ c with ⟨hok, hg⟩ | ⟨e, herr, hg⟩
      · -- the rest of the march starts from the owner that the call left
        have hran : ran =
            let later := Call.runAll event (rest.filterMap (Stride.call? t))
              (c.action.run w.owner event).2
            ⟨c :: later.made, later.owner, later.failure?⟩ := by
          simp only [ran, List.filterMap_cons, hc, Call.runAll]
          rw [show (c.action.run w.owner event).1.settle = .ok () from hok]
        obtain ⟨hf, ho, hcalls⟩ :=
          ih ((w₀.called (c.action.run w.owner event).2 c.site event).settle t s)
        rw [hg] at hp
        rw [hp, hran]
        refine ⟨hf, ho, ?_⟩
        rw [callsOf_settle, callsOf_called] at hcalls
        simp only [List.map_cons]
        rw [List.append_cons]
        exact hcalls
      · -- neither the march nor the calls go on
        have hran : ran =
            ⟨[c], (c.action.run w.owner event).2, some ⟨c.phase, c.state, e⟩⟩ := by
          simp only [ran, List.filterMap_cons, hc, Call.runAll]
          rw [show (c.action.run w.owner event).1.settle = .error e from herr]
        rw [hg] at hp
        rw [hp, hran]
        exact ⟨rfl, rfl, callsOf_called _ _ _ _⟩

end Work

end StateTree
