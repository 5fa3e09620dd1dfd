import StateTree.Proofs.Run
import StateTree.Proofs.Step.Renaming

/-!
Runs over trees that are the same by id. A host cannot tell in which order the states of a machine
were declared: it gets the same answers, sees the same states and logs the same lines.
-/

namespace StateTree

variable {W S O E : Type}

attribute [ext] Reply ObservedReply

/-- The same reply with another machine, and with the places of its trail renamed. -/
def Reply.rename (f : Nat → Nat) (g : M → M) (r : Reply M E α) : Reply M E α :=
  ⟨g r.machine, r.answer, r.trail.map (Mark.rename f), r.lines⟩

/-- The machine over `u`, with its places renamed. -/
def Machine.rename (f : Nat → Nat) (u : Tree S O E) (m : Machine S O E) : Machine S O E :=
  { m with toConfiguration := m.toConfiguration.rename f, tree := u }

def Observed.rename (f : Nat → Nat) (u : Tree S O E) (m : Observed W S O E) : Observed W S O E :=
  { m with toMachine := m.toMachine.rename f u }

def ObservedReply.rename (f : Nat → Nat) (u : Tree S O E) (r : ObservedReply W S O E α) :
    ObservedReply W S O E α :=
  { r with toReply := r.toReply.rename f (Observed.rename f u) }

def Session.rename (f : Nat → Nat) (u : Tree S O E) (s : Session W S O E) : Session W S O E :=
  { s with machine := s.machine.rename f u }

section

variable {f : Nat → Nat} {t u : Tree S O E} (h : Tree.Renames f t u)

include h

/-- A line names states by id, so it does not show their places. -/
theorem Mark.line?_rename [StateId S] [EventKind E] (machine : String) (mark : Mark E) :
    (mark.rename f).line? u machine = mark.line? t machine := by
  have hname (i : Nat) : line?.name u (f i) = line?.name t i :=
    congrArg StateId.name (h.node i).id
  cases mark <;> simp only [rename, line?, hname]

namespace Machine

variable {m : Machine S O E} (hm : m.tree = t)

include hm

theorem stateId_rename (i : Nat) : (m.rename f u).stateId (f i) = m.stateId i := by
  subst hm
  exact (h.node i).id

theorem map_stateId_rename (chain : List Nat) :
    (chain.map f).map (m.rename f u).stateId = chain.map m.stateId := by
  rw [List.map_map]
  exact List.map_congr_left fun i _ => stateId_rename h hm i

theorem activeStates_rename : (m.rename f u).activeStates = m.activeStates := by
  have hactive : (m.rename f u).active = m.active.map f := rfl
  rw [activeStates, hactive, ← List.map_reverse, map_stateId_rename h hm, activeStates]

theorem currentState?_rename : (m.rename f u).currentState? = m.currentState? := by
  have hactive : (m.rename f u).active = m.active.map f := rfl
  rw [currentState?, hactive, List.head?_map, Option.map_map]
  exact Option.map_congr fun i _ => stateId_rename h hm i

theorem historyStates_rename : (m.rename f u).historyStates = m.historyStates := by
  have hrecords : (m.rename f u).history.records =
      m.history.records.map fun r => (f r.1, r.2.map f) := rfl
  rw [historyStates, hrecords, List.map_map]
  apply List.map_congr_left
  intro r _
  exact Prod.ext (stateId_rename h hm r.1) (map_stateId_rename h hm r.2)

variable [StateId S] [EventKind E]

theorem trailLines_rename (trail : List (Mark E)) :
    (m.rename f u).trailLines (trail.map (Mark.rename f)) = m.trailLines trail := by
  subst hm
  rw [trailLines, trailLines, List.filterMap_map]
  exact List.filterMap_congr fun mark _ => Mark.line?_rename h m.name mark

theorem reset_rename : (m.rename f u).reset = m.reset.rename f (rename f u) := by
  subst hm
  have hreset : (m.rename f u).tree.reset (m.rename f u).toConfiguration =
      (m.tree.reset m.toConfiguration).rename f := Tree.reset_rename h _
  have htree : m.reset.machine.tree = m.tree := rfl
  have hmachine : (m.rename f u).reset.machine = m.reset.machine.rename f u := by
    simp only [reset, hreset, Progress.work_rename, Progress.failure?_rename]
    rfl
  have hanswer : (m.rename f u).reset.answer = m.reset.answer := by
    simp only [reset, hreset, Progress.failure?_rename]
  have htrail : (m.rename f u).reset.trail = m.reset.trail.map (Mark.rename f) := by
    simp only [reset, hreset, Progress.work_rename]
    rfl
  have hline (failure : Option (Failure S)) :
      (m.reset.machine.rename f u).resetLine failure = m.reset.machine.resetLine failure := by
    cases failure with
    | none => simp only [resetLine, currentState?_rename h htree]; rfl
    | some e => rfl
  have hlines : (m.rename f u).reset.lines = m.reset.lines := by
    change (m.rename f u).reset.machine.trailLines (m.rename f u).reset.trail ++
      [(m.rename f u).reset.machine.resetLine (m.rename f u).reset.answer] = m.reset.lines
    rw [hmachine, hanswer, htrail, trailLines_rename h htree, hline]
    rfl
  exact Reply.ext hmachine hanswer htrail hlines

theorem react_rename (event : E) :
    (m.rename f u).react event = (m.react event).rename f (rename f u) := by
  subst hm
  have hreact : (m.rename f u).tree.react event (m.rename f u).toConfiguration =
      ((m.tree.react event m.toConfiguration).1.rename f,
        (m.tree.react event m.toConfiguration).2) := Tree.react_rename h event _
  have htree : (m.react event).machine.tree = m.tree := rfl
  have hmachine :
      ((m.rename f u).react event).machine = (m.react event).machine.rename f u := by
    simp only [react, hreact]
    rfl
  have hanswer : ((m.rename f u).react event).answer = (m.react event).answer := by
    simp only [react, hreact]
  have htrail : ((m.rename f u).react event).trail =
      (m.react event).trail.map (Mark.rename f) := by
    simp only [react, hreact]
    rfl
  have hlines : ((m.rename f u).react event).lines = (m.react event).lines := by
    change ((m.rename f u).react event).machine.trailLines ((m.rename f u).react event).trail ++
      ((m.rename f u).react event).machine.reactionLines event
        ((m.rename f u).react event).answer = (m.react event).lines
    rw [hmachine, hanswer, htrail, trailLines_rename h htree]
    rfl
  exact Reply.ext hmachine hanswer htrail hlines

end Machine

namespace Observed

variable [StateId S] [EventKind E] {m : Observed W S O E} (hm : m.tree = t)

include hm

theorem reset_rename (world : W) :
    (m.rename f u).reset world = (m.reset world).rename f u := by
  have hreset : (m.rename f u).toMachine.reset =
      m.toMachine.reset.rename f (Machine.rename f u) := Machine.reset_rename h hm
  have hactive : (m.toMachine.reset.machine.rename f u).activeStates =
      m.toMachine.reset.machine.activeStates := Machine.activeStates_rename h hm
  simp only [reset, hreset, Reply.rename, hactive]
  rfl

/-- Observers are not told the places of states, so they refuse the same events. -/
theorem fire_rename (event : E) (world : W) :
    (m.rename f u).fire event world = (m.fire event world).rename f u := by
  have hreact : (m.rename f u).toMachine.react event =
      (m.toMachine.react event).rename f (Machine.rename f u) := Machine.react_rename h hm event
  cases ha : m.alive with
  | false =>
    have ha' : (m.rename f u).alive = false := ha
    rw [fire_dead ha, fire_dead ha']
    rfl
  | true =>
    have ha' : (m.rename f u).alive = true := ha
    cases hc : (Observer.consult m.name event m.inconsistency m.watchers world).2 with
    | some refusal =>
      have hc' : (Observer.consult (m.rename f u).name event (m.rename f u).inconsistency
          (m.rename f u).watchers world).2 = some refusal := hc
      rw [fire_refused ha hc, fire_refused ha' hc']
      rfl
    | none =>
      have hc' : (Observer.consult (m.rename f u).name event (m.rename f u).inconsistency
          (m.rename f u).watchers world).2 = none := hc
      rw [fire_passed ha hc, fire_passed ha' hc', hreact]
      rfl

end Observed

namespace Session

variable [StateId S] [EventKind E]

theorem after_rename {s : Session W S O E} (hs : s.machine.tree = t)
    (operation : Operation W S O E) :
    (s.rename f u).after operation = (s.after operation).rename f u := by
  cases operation with
  | reset =>
    have hreset := Observed.reset_rename h hs s.world
    simp only [after, rename, hreset]
    rfl
  | fire event =>
    have hfire := Observed.fire_rename h hs event s.world
    simp only [after, rename, hfire]
    rfl
  | modifyOwner g => rfl
  | register o => rfl
  | unregister id => rfl
  | elsewhere g => rfl

/-- A run over the one tree is that over the other, with the places renamed. -/
theorem afterAll_rename {s : Session W S O E} (hs : s.machine.tree = t)
    (operations : List (Operation W S O E)) :
    (s.rename f u).afterAll operations = (s.afterAll operations).rename f u := by
  induction operations generalizing s with
  | nil => rfl
  | cons operation rest ih =>
    have hnext : (s.afterAll [operation]).machine.tree = t :=
      afterAll_keeps (P := fun m => m.tree = t) (fun _ _ hm => hm) (fun _ _ _ hm => hm)
        (fun _ _ hm => hm) hs
    calc (s.rename f u).afterAll (operation :: rest)
        = ((s.rename f u).after operation).afterAll rest := rfl
      _ = ((s.after operation).rename f u).afterAll rest := by rw [after_rename h hs]
      _ = ((s.after operation).afterAll rest).rename f u := ih hnext

end Session

end

namespace Session

variable [DecidableEq S] [StateId S] [EventKind E]

/-- Whatever the order in which the states of a machine were declared: over trees that are the same
by id a host gets the same answers and log lines from resets and events at every point of a run, and
in between it sees the same states active and remembered, the same owner and the same failure. -/
theorem alike_indistinguishable (root root' : S) (declarations others : List (Declaration S O E))
    (h : (Tree.build root declarations).Alike (.build root' others)) (name id : String) (owner : O)
    (world : W) (operations : List (Operation W S O E)) :
    let s := (idle (.build root declarations) name id owner world).afterAll operations
    let s' := (idle (.build root' others) name id owner world).afterAll operations
    (s'.machine.activeStates = s.machine.activeStates ∧
      s'.machine.currentState? = s.machine.currentState? ∧
      (∀ state, s'.machine.isActive state = s.machine.isActive state) ∧
      s'.machine.historyStates = s.machine.historyStates) ∧
    (s'.machine.owner = s.machine.owner ∧ s'.machine.alive = s.machine.alive ∧
      s'.machine.inconsistency = s.machine.inconsistency ∧ s'.world = s.world) ∧
    ((s'.machine.reset s'.world).answer = (s.machine.reset s.world).answer ∧
      (s'.machine.reset s'.world).lines = (s.machine.reset s.world).lines) ∧
    ∀ event, (s'.machine.fire event s'.world).answer = (s.machine.fire event s.world).answer ∧
      (s'.machine.fire event s'.world).lines = (s.machine.fire event s.world).lines := by
  intro s s'
  let t := Tree.build root declarations
  let u := Tree.build root' others
  have hrenames : Tree.Renames (t.counterpart u) t u :=
    h.renames (Tree.build_sound root declarations) (Tree.build_sound root' others)
  have hs : s.machine.tree = t :=
    afterAll_keeps (P := fun m => m.tree = t) (fun _ _ hm => hm) (fun _ _ _ hm => hm)
      (fun _ _ hm => hm) rfl
  -- an idle machine has no places to rename
  have hs' : s' = s.rename (t.counterpart u) u :=
    afterAll_rename hrenames (s := idle t name id owner world) rfl operations
  have hactive : s'.machine.activeStates = s.machine.activeStates := by
    rw [hs']
    exact Machine.activeStates_rename hrenames hs
  refine ⟨⟨hactive, ?_, ?_, ?_⟩, ?_, ?_, ?_⟩
  · rw [hs']
    exact Machine.currentState?_rename hrenames hs
  · intro state
    rw [Machine.isActive, hactive, Machine.isActive]
  · rw [hs']
    exact Machine.historyStates_rename hrenames hs
  · rw [hs']
    exact ⟨rfl, rfl, rfl, rfl⟩
  · have hreset : s'.machine.reset s'.world =
        (s.machine.reset s.world).rename (t.counterpart u) u := by
      rw [hs']
      exact Observed.reset_rename hrenames hs s.world
    rw [hreset]
    exact ⟨rfl, rfl⟩
  · intro event
    have hfire : s'.machine.fire event s'.world =
        (s.machine.fire event s.world).rename (t.counterpart u) u := by
      rw [hs']
      exact Observed.fire_rename hrenames hs event s.world
    rw [hfire]
    exact ⟨rfl, rfl⟩

end Session

namespace Radio

def onState : Declaration Place (List String) Button :=
  .addToRoot .on ⟨[.history, .entry (noted "entryOn"), .exit (noted "exitOn")], none⟩

def offState : Declaration Place (List String) Button :=
  .addToRoot .off ⟨[.initial, .exit (noted "exitOff")], none⟩

def bands : List (Declaration Place (List String) Button) :=
  [.addTo .on .dab ⟨[.initial, .entry (noted "entryDab")], none⟩,
    .addTo .on .fm ⟨[.entry (noted "entryFm")], none⟩]

def arrows : List (Declaration Place (List String) Button) :=
  [.inState .off ⟨[], some ⟨.power, some .on, [.action (noted "offToOn")]⟩⟩,
    .inState .on ⟨[], some ⟨.power, some .off, []⟩⟩,
    .inState .dab ⟨[], some ⟨.band, some .fm, []⟩⟩]

/-- States outside others first. -/
def byLevel : List (Declaration Place (List String) Button) :=
  [onState, offState] ++ bands ++ arrows

/-- The bands right after the state that they are part of. -/
def byBranch : List (Declaration Place (List String) Button) :=
  [onState] ++ bands ++ [offState] ++ arrows.reverse

/-- What the places of the radio are and do, in whatever order they are declared. -/
def portraits : Place → Portrait Place (List String) Button
  | .root => ⟨[.on, .off], false, false, none, none, []⟩
  | .off =>
    ⟨[], true, false, none, some (noted "exitOff").run,
      [⟨.power, some .on, none, some (noted "offToOn").run⟩]⟩
  | .on =>
    ⟨[.dab, .fm], false, true, some (noted "entryOn").run, some (noted "exitOn").run,
      [⟨.power, some .off, none, none⟩]⟩
  | .dab => ⟨[], true, false, some (noted "entryDab").run, none, [⟨.band, some .fm, none, none⟩]⟩
  | .fm => ⟨[], false, false, some (noted "entryFm").run, none, []⟩

theorem byLevel_portraits (id : Place) :
    ((Tree.build .root byLevel).state? id).map State.portrait = some (portraits id) := by
  cases id <;> rfl

theorem byBranch_portraits (id : Place) :
    ((Tree.build .root byBranch).state? id).map State.portrait = some (portraits id) := by
  cases id <;> rfl

theorem byLevel_alike : (Tree.build Place.root byLevel).Alike (.build .root byBranch) := by
  refine ⟨by decide +kernel, ?_⟩
  intro id
  rw [byLevel_portraits, byBranch_portraits]

theorem byBranch_indistinguishable :
    let t := Tree.build Place.root byLevel
    let u := Tree.build Place.root byBranch
    let operations : List (Operation Unit Place (List String) Button) :=
      [.reset, .fire .power, .fire .band, .fire .power]
    let start : Session Unit Place (List String) Button := .idle u "radio" "1" [] ()
    let m := (start.afterAll operations).machine
    t.place? .off = some 2 ∧ u.place? .off = some 4 ∧ t.Alike u ∧
      m.activeStates = [.root, .off] ∧ m.historyStates = [(.on, [.fm])] ∧
      (m.fire .power ()).answer = .ok (.moved ⟨.off, .on, .off, .fm⟩) := by
  intro t u operations start m
  let start' : Session Unit Place (List String) Button := .idle t "radio" "1" [] ()
  let m' := (start'.afterAll operations).machine
  have hplaces : t.place? .off = some 2 ∧ u.place? .off = some 4 := by decide +kernel
  have hactive : m'.activeStates = [.root, .off] := by decide +kernel
  have hhistory : m'.historyStates = [(.on, [.fm])] := by decide +kernel
  have hfire : (m'.fire .power ()).answer = .ok (.moved ⟨.off, .on, .off, .fm⟩) := by
    decide +kernel
  obtain ⟨⟨hactive', _, _, hhistory'⟩, _, _, hfire'⟩ :=
    Session.alike_indistinguishable Place.root Place.root byLevel byBranch byLevel_alike "radio" "1"
      [] () operations
  -- both sides name the same runs, so none is carried out to compare them
  with_reducible
    exact ⟨hplaces.1, hplaces.2, byLevel_alike, hactive'.trans hactive,
      hhistory'.trans hhistory, (hfire' .power).1.trans hfire⟩

end Radio

end StateTree
