import Mathlib.Data.List.Nodup
import StateTree.Proofs.Run

/-!
Which transition an event takes. The rule is told apart from the search: of all transitions of the
active states those of the event's kind are candidates, and the first candidate whose guard is not
false decides. What follows the search calls no guard.
-/

namespace StateTree

variable {S O E : Type}

/-- The calls of guards, as distinct from those of actions. -/
def guardsOf (trail : List (Mark E)) : List (Site × Option E) :=
  (callsOf trail).filter fun call => call.1.isGuard

theorem guardsOf_append (xs ys : List (Mark E)) :
    guardsOf (xs ++ ys) = guardsOf xs ++ guardsOf ys := by
  simp only [guardsOf, callsOf, List.filterMap_append, List.filter_append]

theorem Ending.settle_of_no_value {ending : Ending α} (h : ∀ a, ending ≠ .value a) :
    ∃ e, ending.settle = .error e := by
  cases ending with
  | value a => exact absurd rfl (h a)
  | error e => exact ⟨e, rfl⟩
  | panic payload => cases payload <;> exact ⟨_, rfl⟩

namespace Candidate

/-- How the guard of a candidate ends, and the owner it leaves. Without a guard nothing is in the
way. -/
def asked (event : E) (owner : O) (x : Candidate S O E) : Ending Bool × O :=
  match x.transition.guard with
  | none => (.value true, owner)
  | some g => g.check owner event

def guardCall? (event : E) (x : Candidate S O E) : Option (Site × Option E) :=
  x.transition.guard.map fun _ => (.guard x.state x.position, some event)

/-- The owner that guards leave, asked in turn. -/
def ownerPast (event : E) (owner : O) (xs : List (Candidate S O E)) : O :=
  xs.foldl (fun owner x => (x.asked event owner).2) owner

/-- Guards that are all false, asked in turn. -/
def AllFalse (event : E) : O → List (Candidate S O E) → Prop
  | _, [] => True
  | owner, x :: rest =>
    (x.asked event owner).1 = .value false ∧ AllFalse event (x.asked event owner).2 rest

/-- Either all guards are false, or there is a first one that is not. -/
theorem allFalse_or_first (event : E) (owner : O) (xs : List (Candidate S O E)) :
    AllFalse event owner xs ∨ ∃ before x after, xs = before ++ x :: after ∧
      AllFalse event owner before ∧
      (x.asked event (ownerPast event owner before)).1 ≠ .value false := by
  induction xs generalizing owner with
  | nil => exact Or.inl trivial
  | cons x xs ih =>
    by_cases hx : (x.asked event owner).1 = .value false
    · rcases ih (x.asked event owner).2 with hall | ⟨before, y, after, he, hbefore, hy⟩
      · exact Or.inl ⟨hx, hall⟩
      · exact Or.inr ⟨x :: before, y, after, by rw [he]; rfl, ⟨hx, hbefore⟩, hy⟩
    · exact Or.inr ⟨[], x, xs, rfl, trivial, hx⟩

end Candidate

namespace Work

variable {event : E}

/-- The work after the guard of a candidate was asked. -/
def ask (event : E) (w : Work O E) (x : Candidate S O E) : Work O E :=
  match x.transition.guard with
  | none => w
  | some g => w.called (g.check w.owner event).2 (.guard x.state x.position) (some event)

theorem owner_ask (w : Work O E) (x : Candidate S O E) :
    (w.ask event x).owner = (x.asked event w.owner).2 := by
  rw [ask, Candidate.asked]
  cases x.transition.guard <;> rfl

theorem owner_askAll (w : Work O E) (xs : List (Candidate S O E)) :
    (xs.foldl (ask event) w).owner = Candidate.ownerPast event w.owner xs := by
  induction xs generalizing w with
  | nil => rfl
  | cons x xs ih =>
    rw [List.foldl_cons, ih, owner_ask]
    rfl

theorem guardsOf_ask (w : Work O E) (x : Candidate S O E) :
    guardsOf (w.ask event x).trail = guardsOf w.trail ++ (x.guardCall? event).toList := by
  rw [ask, Candidate.guardCall?]
  cases x.transition.guard with
  | none => exact (List.append_nil _).symm
  | some g => exact guardsOf_append _ _

theorem guardsOf_askAll (w : Work O E) (xs : List (Candidate S O E)) :
    guardsOf (xs.foldl (ask event) w).trail =
      guardsOf w.trail ++ xs.filterMap (Candidate.guardCall? event) := by
  induction xs generalizing w with
  | nil => exact (List.append_nil _).symm
  | cons x xs ih =>
    rw [List.foldl_cons, ih, guardsOf_ask, List.append_assoc]
    cases hx : x.guardCall? event with
    | none => rw [List.filterMap_cons_none hx, Option.toList_none, List.nil_append]
    | some call => rw [List.filterMap_cons_some hx, Option.toList_some, List.singleton_append]

/-- The first candidate is taken, passed over or to blame, as its guard ends. -/
theorem choose_cons_eq (t : Tree S O E) (x : Candidate S O E) (rest : List (Candidate S O E))
    (w : Work O E) :
    w.choose t event (x :: rest) =
      match (x.asked event w.owner).1.settle with
      | .ok true => (w.ask event x, .ok (some x))
      | .ok false => (w.ask event x).choose t event rest
      | .error e => (w.ask event x, .error ⟨.guard, (t.node x.state).id, e⟩) := by
  rw [choose, ask, Candidate.asked]
  cases x.transition.guard <;> rfl

theorem choose_past (t : Tree S O E) {before : List (Candidate S O E)} {w : Work O E}
    (h : Candidate.AllFalse event w.owner before) (rest : List (Candidate S O E)) :
    w.choose t event (before ++ rest) = (before.foldl (ask event) w).choose t event rest := by
  induction before generalizing w with
  | nil => rfl
  | cons x before ih =>
    obtain ⟨hx, hbefore⟩ := h
    rw [← owner_ask] at hbefore
    rw [List.cons_append, choose_cons_eq, hx]
    exact ih hbefore

/-! What a step does once its transition is chosen calls no guard. -/

theorem guardsOf_andThen {w : Work O E} {p : Progress S O E} {next : Work O E → Progress S O E}
    (hp : guardsOf p.work.trail = guardsOf w.trail)
    (hnext : ∀ v, guardsOf (next v).work.trail = guardsOf v.trail) :
    guardsOf (p.andThen next).work.trail = guardsOf w.trail := by
  cases p with
  | going v => exact (hnext v).trans hp
  | stopped v f => exact hp

theorem guardsOf_note (w : Work O E) (mark : Mark E) (hm : mark.call? = none) :
    guardsOf (w.note mark).trail = guardsOf w.trail := by
  have hnone : guardsOf [mark] = [] := by simp [guardsOf, callsOf, hm]
  rw [note, guardsOf_append, hnone, List.append_nil]

theorem guardsOf_run (w : Work O E) (action : Option (Action O E)) (event : Option E) (site : Site)
    (hsite : site.isGuard = false) (phase : Phase) (state : S) :
    guardsOf (w.run action event site phase state).work.trail = guardsOf w.trail := by
  have hnone : guardsOf [Mark.called site event] = [] := by
    simp [guardsOf, callsOf, Mark.call?, hsite]
  rw [run_eq_call, trail_call, guardsOf_append]
  cases action with
  | none => exact List.append_nil _
  | some a =>
    change guardsOf w.trail ++ guardsOf [.called site event] = _
    rw [hnone, List.append_nil]

section

variable (t : Tree S O E) (event : Option E)

theorem guardsOf_leaveTo (limit : Nat) (below active : List Nat) (w : Work O E) :
    guardsOf (w.leaveTo t event limit below active).work.trail = guardsOf w.trail := by
  induction active generalizing below w with
  | nil => rfl
  | cons i rest ih =>
    rw [leaveTo]
    split
    · rfl
    · refine guardsOf_andThen (guardsOf_run w _ event _ rfl _ _) ?_
      intro v
      rw [ih]
      exact guardsOf_note v (.exited i) rfl

theorem guardsOf_enter (i : Nat) (w : Work O E) :
    guardsOf (w.enter t event i).work.trail = guardsOf w.trail := by
  refine guardsOf_andThen (guardsOf_run _ _ event _ rfl _ _) ?_
  intro v
  exact guardsOf_note v (.entered i) rfl

theorem guardsOf_enterAll (is : List Nat) (w : Work O E) :
    guardsOf (w.enterAll t event is).work.trail = guardsOf w.trail := by
  induction is generalizing w with
  | nil => rfl
  | cons i is ih => exact guardsOf_andThen (guardsOf_enter t event i w) ih

theorem guardsOf_descend (n i : Nat) (w : Work O E) :
    guardsOf (w.descend t event n i).work.trail = guardsOf w.trail := by
  induction n generalizing i w with
  | zero => rfl
  | succ n ih =>
    rw [descend]
    split
    · split
      · next c _ => exact guardsOf_andThen (guardsOf_enter t event c w) (ih c)
      · exact guardsOf_note w _ rfl
    · rfl

theorem guardsOf_enterBelow (i : Nat) (recorded : Option (List Nat)) (w : Work O E) :
    guardsOf (w.enterBelow t event i recorded).work.trail = guardsOf w.trail := by
  cases recorded with
  | none => exact guardsOf_descend t event _ i w
  | some chain =>
    refine guardsOf_andThen ?_ fun v => guardsOf_descend t event _ _ v
    rw [guardsOf_enterAll]
    exact guardsOf_note w _ rfl

theorem guardsOf_enterTarget (limit target : Nat) (w : Work O E) :
    guardsOf (w.enterTarget t event limit target).work.trail = guardsOf w.trail := by
  refine guardsOf_andThen ?_ fun v => guardsOf_enterBelow t event target _ v
  rw [guardsOf_enterAll]
  split <;> rfl

end

theorem guardsOf_cross (t : Tree S O E) (event : E) (x : Candidate S O E) (target : Nat)
    (w : Work O E) : guardsOf (w.cross t event x target).work.trail = guardsOf w.trail := by
  refine guardsOf_andThen (guardsOf_andThen ?_ ?_) ?_
  · exact guardsOf_leaveTo t (some event) _ [] _ w
  · intro v
    exact guardsOf_run v _ _ _ rfl _ _
  · intro v
    exact guardsOf_enterTarget t (some event) _ target v

theorem guardsOf_move (t : Tree S O E) (event : E) (x : Candidate S O E) (target : Nat)
    (w : Work O E) : guardsOf (w.move t event x target).1.trail = guardsOf w.trail := by
  have hcross := guardsOf_cross t event x target w
  rw [move]
  cases hp : w.cross t event x target with
  | stopped v f =>
    rw [hp] at hcross
    exact hcross
  | going v =>
    rw [hp] at hcross
    exact (guardsOf_note v _ rfl).trans hcross

theorem guardsOf_stay (t : Tree S O E) (event : E) (x : Candidate S O E) (w : Work O E) :
    guardsOf (w.stay t event x).1.trail = guardsOf w.trail := by
  have hrun := guardsOf_run w x.transition.action (some event)
    (.action x.state x.position) rfl .stayAction (t.node x.state).id
  rw [stay]
  cases hp : w.run x.transition.action (some event) (.action x.state x.position) .stayAction
      (t.node x.state).id with
  | stopped v f =>
    rw [hp] at hrun
    exact hrun
  | going v =>
    rw [hp] at hrun
    exact (guardsOf_note v _ rfl).trans hrun

end Work

namespace Tree

/-- The transitions of the active states, innermost state first and in the order of declaration. -/
def transitionsOf (t : Tree S O E) (active : List Nat) : List (Candidate S O E) :=
  active.flatMap fun i => (t.node i).transitions.zipIdx.map fun x => ⟨i, x.2, x.1⟩

/-- Where no state is active twice, no transition is listed twice. -/
theorem nodup_transitionsOf (t : Tree S O E) {active : List Nat} (h : active.Nodup) :
    ((t.transitionsOf active).map fun x => (x.state, x.position)).Nodup := by
  rw [transitionsOf, List.map_flatMap]
  refine List.nodup_flatMap.mpr ⟨?_, ?_⟩
  · intro i _
    -- within a state the positions count up
    have hpositions : ((t.node i).transitions.zipIdx.map Prod.snd).Nodup := by
      rw [List.zipIdx_map_snd]
      exact List.nodup_range'
    rw [List.map_map]
    have hmap := hpositions.map (f := Prod.mk i) fun m n h => (Prod.mk.inj h).2
    rw [List.map_map] at hmap
    exact hmap
  · refine h.imp ?_
    intro i j hne p hi hj
    obtain ⟨x, hx, rfl⟩ := List.mem_map.mp hi
    obtain ⟨y, hy, he⟩ := List.mem_map.mp hj
    obtain ⟨a, _, rfl⟩ := List.mem_map.mp hx
    obtain ⟨b, _, rfl⟩ := List.mem_map.mp hy
    exact hne (Prod.mk.inj he).1.symm

variable [EventKind E]

theorem candidates_eq (t : Tree S O E) (active : List Nat) (event : E) :
    t.candidates active event =
      (t.transitionsOf active).filter fun x => EventKind.same x.transition.event event := by
  rw [transitionsOf, List.filter_flatMap]
  simp only [List.filter_map]
  rfl

/-- All guards that a reaction calls are called by its search. -/
theorem guardsOf_react (t : Tree S O E) (event : E) (c : Configuration O) :
    guardsOf (t.react event c).1.trail = guardsOf (t.select event c).1.trail := by
  cases hs : (t.select event c).2 with
  | error f => rw [react_of_error hs]
  | ok found =>
    cases found with
    | none =>
      rw [react_of_none hs]
      exact Work.guardsOf_note _ _ rfl
    | some x =>
      cases hk : x.transition.kind with
      | stays =>
        rw [react_stays hs hk]
        exact Work.guardsOf_stay t event x _
      | moves id target =>
        rw [react_moves hs hk]
        exact Work.guardsOf_move t event x target _

/-- Candidates are the transitions of the active states whose event is of the fired kind. Where all
their guards are false, asked in turn, the event is ignored. Otherwise the first candidate whose
guard is not false decides: it is taken if it has no guard or its guard is true, and if its guard
fails or panics, so does the reaction, in the name of its state. The guards up to the one that
decides are called, and no others. -/
theorem first_admissible_taken (t : Tree S O E) (event : E) (c : Configuration O) :
    let candidates :=
      (t.transitionsOf c.active).filter fun x => EventKind.same x.transition.event event
    let chosen := t.select event c
    let reply := t.react event c
    (c.active.Nodup → (candidates.map fun x => (x.state, x.position)).Nodup) ∧
    (Candidate.AllFalse event c.owner candidates ∨
      ∃ before x after, candidates = before ++ x :: after ∧
        Candidate.AllFalse event c.owner before ∧
        (x.asked event (Candidate.ownerPast event c.owner before)).1 ≠ .value false) ∧
    (Candidate.AllFalse event c.owner candidates →
      reply.2 = .ignored ∧
        guardsOf reply.1.trail = candidates.filterMap (Candidate.guardCall? event)) ∧
    ∀ before x after, candidates = before ++ x :: after →
      Candidate.AllFalse event c.owner before →
      let ending := (x.asked event (Candidate.ownerPast event c.owner before)).1
      (ending ≠ .value false →
        guardsOf reply.1.trail = (before ++ [x]).filterMap (Candidate.guardCall? event)) ∧
      (ending = .value true →
        chosen.2 = .ok (some x) ∧
          reply =
            match x.transition.kind with
            | .stays => chosen.1.stay t event x
            | .moves _ target => chosen.1.move t event x target) ∧
      ((∀ holds, ending ≠ .value holds) →
        ∃ e, ending.settle = .error e ∧
          reply.2 = .failed ⟨.guard, (t.node x.state).id, e⟩) := by
  intro candidates chosen reply
  have hchosen : chosen = (Work.start c).choose t event candidates := by
    change (Work.start c).choose t event (t.candidates c.active event) = _
    rw [candidates_eq]
  have hguards : guardsOf reply.1.trail = guardsOf chosen.1.trail := guardsOf_react t event c
  -- the search starts from an empty trail
  have hasked (xs : List (Candidate S O E)) :
      guardsOf (xs.foldl (Work.ask event) (Work.start c)).trail =
        xs.filterMap (Candidate.guardCall? event) := Work.guardsOf_askAll (Work.start c) xs
  refine ⟨?_, Candidate.allFalse_or_first event c.owner candidates, ?_, ?_⟩
  · intro hactive
    exact (nodup_transitionsOf t hactive).sublist (List.filter_sublist.map _)
  · intro hall
    have hpast := Work.choose_past t (w := Work.start c) hall []
    rw [List.append_nil, ← hchosen] at hpast
    have hreply : reply = (chosen.1.note (.unmatched event), .ignored) :=
      react_of_none (congrArg Prod.snd hpast)
    refine ⟨congrArg Prod.snd hreply, ?_⟩
    rw [hguards, hpast]
    exact hasked candidates
  · intro before x after hsplit hbefore ending
    let last := (before.foldl (Work.ask event) (Work.start c)).ask event x
    have hcalled :
        guardsOf last.trail = (before ++ [x]).filterMap (Candidate.guardCall? event) := by
      rw [← hasked (before ++ [x]), List.foldl_append]
      rfl
    have hpast : chosen =
        match ending.settle with
        | .ok true => (last, .ok (some x))
        | .ok false => last.choose t event after
        | .error e => (last, .error ⟨.guard, (t.node x.state).id, e⟩) := by
      rw [hchosen, hsplit, Work.choose_past t (w := Work.start c) hbefore, Work.choose_cons_eq,
        Work.owner_askAll]
      rfl
    have htaken (hend : ending = .value true) : chosen = (last, .ok (some x)) := by
      rw [hpast, hend]
      rfl
    have hfailed (hend : ∀ holds, ending ≠ .value holds) :
        ∃ e, ending.settle = .error e ∧
          chosen = (last, .error ⟨.guard, (t.node x.state).id, e⟩) := by
      obtain ⟨e, he⟩ := Ending.settle_of_no_value hend
      exact ⟨e, he, by rw [hpast, he]⟩
    refine ⟨?_, ?_, ?_⟩
    · intro hnot
      rw [hguards, ← hcalled]
      by_cases hend : ending = .value true
      · rw [htaken hend]
      · obtain ⟨e, _, hlast⟩ := hfailed fun holds => by cases holds <;> assumption
        rw [hlast]
    · intro hend
      have hselect : chosen.2 = .ok (some x) := congrArg Prod.snd (htaken hend)
      refine ⟨hselect, ?_⟩
      cases hk : x.transition.kind with
      | stays => exact react_stays hselect hk
      | moves id target => exact react_moves hselect hk
    · intro hend
      obtain ⟨e, he, hlast⟩ := hfailed hend
      exact ⟨e, he, congrArg Prod.snd (react_of_error (congrArg Prod.snd hlast))⟩

end Tree

namespace Radio

/-- What a receiver picks up. Noise is not of the kind of anything, itself included. -/
inductive Signal
  | band
  | noise
  deriving DecidableEq

instance : EventKind Signal where
  same a b := a = b && a ≠ .noise
  text
    | .band => "Band"
    | .noise => "Noise"

def heard (line : String) (ending : Ending Bool) : Guard (List String) Signal where
  check lines _ := (ending, lines ++ [line])

def receiver : List (Declaration Place (List String) Signal) :=
  [.addToRoot .on ⟨[.initial], some ⟨.band, none, []⟩⟩,
    .addTo .on .fm ⟨[.initial], some ⟨.noise, none, [.guard (heard "noise" (.value true))]⟩⟩,
    .inState .fm ⟨[], some ⟨.band, none, [.guard (heard "weak" (.value false))]⟩⟩,
    .inState .fm ⟨[], some ⟨.band, none, [.guard (heard "jammed" (.panic (some "jam")))]⟩⟩]

def weak : Candidate Place (List String) Signal :=
  ⟨2, 1, ⟨.fm, .band, .stays, some (heard "weak" (.value false)), none, none⟩⟩

def jammed : Candidate Place (List String) Signal :=
  ⟨2, 2, ⟨.fm, .band, .stays, some (heard "jammed" (.panic (some "jam"))), none, none⟩⟩

def relayed : Candidate Place (List String) Signal :=
  ⟨1, 0, ⟨.on, .band, .stays, none, none, none⟩⟩

theorem receiver_decides :
    let t := Tree.build .root receiver
    let c : Configuration (List String) := ⟨[], [2, 1, 0], .empty⟩
    let outside : Configuration (List String) := ⟨[], [1, 0], .empty⟩
    (((t.transitionsOf c.active).filter fun x => EventKind.same x.transition.event Signal.band).map
      fun x => (x.state, x.position)).Nodup ∧
    ((t.react .noise c).2 = .ignored ∧ guardsOf (t.react .noise c).1.trail = []) ∧
    (∃ e, (t.react .band c).2 = .failed ⟨.guard, .fm, e⟩ ∧
      guardsOf (t.react .band c).1.trail =
        [(.guard 2 1, some .band), (.guard 2 2, some .band)]) ∧
    (t.select .band outside).2 = .ok (some relayed) ∧
      guardsOf (t.react .band outside).1.trail = [] := by
  intro t c outside
  obtain ⟨_, _, hnoise, _⟩ := Tree.first_admissible_taken t .noise c
  obtain ⟨hnodup, _, _, hband⟩ := Tree.first_admissible_taken t .band c
  obtain ⟨_, _, _, houtside⟩ := Tree.first_admissible_taken t .band outside
  obtain ⟨hasked, _, hfailed⟩ := hband [weak] jammed [relayed] rfl ⟨rfl, trivial⟩
  obtain ⟨hnone, htaken, _⟩ := houtside [] relayed [] rfl trivial
  obtain ⟨e, _, hreply⟩ := hfailed nofun
  exact ⟨hnodup (by decide), hnoise trivial, ⟨e, hreply, hasked nofun⟩, (htaken rfl).1, hnone nofun⟩

end Radio

end StateTree
