import StateTree.Proofs.Run.Survival
import StateTree.Proofs.Step.Owner
import StateTree.Proofs.Step.Passing

/-!
The log of a machine replays its active chain. The lines of exits and entries that an operation
logs, applied in order to the names of the states that were active before, give the names of those
that are active after it.
-/

namespace StateTree

variable {W S O E : Type}

/-- The exit or the entry that a line tells of, with the name of the state. -/
def Line.passing? (line : Line) : Option (Passing String) :=
  if line.message = "exited state" then (line.fields.lookup "state").map .exited
  else if line.message = "entered state" then (line.fields.lookup "state").map .entered
  else none

theorem Mark.awaits?_of_passing {mark : Mark E} (h : mark.passing? ≠ none) :
    ∃ site, mark.awaits? = some site := by
  cases mark with
  | exited i => exact ⟨_, rfl⟩
  | entered i => exact ⟨_, rfl⟩
  | called site event => exact absurd rfl h
  | unmatched event => exact absurd rfl h
  | stayed i => exact absurd rfl h
  | restoring i depth => exact absurd rfl h
  | stuck i => exact absurd rfl h
  | moved source target before after => exact absurd rfl h

section

variable [StateId S] [EventKind E]

/-- The line of a mark tells what the mark passes; no other line tells of an exit or an entry. -/
theorem Mark.passing?_line (t : Tree S O E) (machine : String) (mark : Mark E) :
    (mark.line? t machine).bind Line.passing? =
      mark.passing?.map (Passing.map fun i => StateId.name (t.node i).id) := by
  cases mark with
  | called site event => rfl
  | unmatched event => simp [line?, Line.passing?, passing?]
  | stayed i => simp [line?, Line.passing?, passing?]
  | exited i => simp [line?, line?.name, Line.passing?, passing?, Passing.map, List.lookup_cons]
  | restoring i depth => simp [line?, Line.passing?, passing?]
  | entered i => simp [line?, line?.name, Line.passing?, passing?, Passing.map, List.lookup_cons]
  | stuck i => simp [line?, Line.passing?, passing?]
  | moved source target before after => simp [line?, Line.passing?, passing?]

namespace Machine

/-- The names of the active states from the root inwards. -/
def activeNames (m : Machine S O E) : List String := m.activeStates.map StateId.name

theorem passings_trailLines (m : Machine S O E) (trail : List (Mark E)) :
    (m.trailLines trail).filterMap Line.passing? =
      (passingsOf trail).map (Passing.map fun i => StateId.name (m.stateId i)) := by
  rw [trailLines, passingsOf, List.filterMap_filterMap, List.map_filterMap]
  exact List.filterMap_congr fun mark _ => mark.passing?_line m.tree m.name

/-- Each line of a trail is that of a mark, and the lines before it are those of the marks before.
-/
theorem mark_of_line {m : Machine S O E} {trail : List (Mark E)} {earlier : List Line} {line : Line}
    (h : earlier ++ [line] <+: m.trailLines trail) :
    ∃ before mark, before ++ [mark] <+: trail ∧ m.trailLines before = earlier ∧
      mark.line? m.tree m.name = some line := by
  obtain ⟨later, h⟩ := h
  rw [List.append_assoc, List.singleton_append] at h
  obtain ⟨first, others, hsplit, hfirst, hothers⟩ := List.filterMap_eq_append_iff.mp h.symm
  obtain ⟨silent, mark, rest, rfl, hsilent, hmark, _⟩ := List.filterMap_eq_cons_iff.mp hothers
  refine ⟨first ++ silent, mark, ⟨rest, ?_⟩, ?_, hmark⟩
  · rw [hsplit, List.append_assoc, List.append_assoc]
    rfl
  · rw [trailLines, List.filterMap_append, hfirst, List.filterMap_eq_nil_iff.mpr hsilent,
      List.append_nil]

omit [EventKind E] in
theorem resetLine_passing? (m : Machine S O E) (failure : Option (Failure S)) :
    (m.resetLine failure).passing? = none := by
  cases failure <;> simp [resetLine, Line.passing?]

theorem reactionLines_passing? (m : Machine S O E) (event : E) (reaction : Reaction S) :
    ∀ line ∈ m.reactionLines event reaction, line.passing? = none := by
  cases reaction <;> simp [reactionLines, Line.passing?]

end Machine

/-- What the log of an operation on `m`, with `event` if it brings one, tells of the active chain.
The lines of its step come first; those of the machine that follow tell of no exit or entry, and
all others are logged by observers. The exits and entries told by the step lead from the names in
`chain` to the names of the states that are active now, the exits before the entries. Each of them
is told only once its action, if there is one, has succeeded on the owner that the calls before it
left. -/
structure Observed.Replays {α : Type} (m : Observed W S O E) (event : Option E)
    (chain : List String) (reply : Reply (Observed W S O E) E α) : Prop where
  lines : ∃ own others, reply.lines = m.trailLines reply.trail ++ (own ++ others) ∧
    (∀ line ∈ own, line.passing? = none) ∧ (m.observers = [] → others = [])
  replay : Passing.replay? chain ((m.trailLines reply.trail).filterMap Line.passing?) =
    some reply.machine.activeNames
  exitsFirst : Passing.ExitsFirst ((m.trailLines reply.trail).filterMap Line.passing?)
  owner : reply.machine.owner = reply.trail.foldl m.tree.ownerPast m.owner
  cleared : ∀ earlier line, earlier ++ [line] <+: m.trailLines reply.trail →
    line.passing? ≠ none → ∃ before mark site, before ++ [mark] <+: reply.trail ∧
      m.trailLines before = earlier ∧ mark.line? m.tree m.name = some line ∧
      mark.awaits? = some site ∧ m.tree.Cleared event m.owner before site

namespace Observed

variable {α : Type} {m : Observed W S O E} {event : Option E}

/-- The log replays the chain if the trail does, and accounts for the work of the step. -/
theorem replays_of_accounted (active : List Nat) {w : Work O E}
    {reply : Reply (Observed W S O E) E α} (htrail : reply.trail = w.trail)
    (hnow : reply.machine.toConfiguration = w.toConfiguration)
    (htree : reply.machine.tree = m.tree)
    (hlines : ∃ own others, reply.lines = m.trailLines w.trail ++ (own ++ others) ∧
      (∀ line ∈ own, line.passing? = none) ∧ (m.observers = [] → others = []))
    (hw : w.Accounted m.tree event m.owner)
    (hreplay : Passing.replay? active (passingsOf w.trail) = some w.active.reverse)
    (hexits : Passing.ExitsFirst (passingsOf w.trail)) :
    m.Replays event (active.map fun i => StateId.name (m.stateId i)) reply := by
  refine ⟨htrail ▸ hlines, ?_, ?_, ?_, ?_⟩
  · have hnames : reply.machine.activeNames =
        w.active.reverse.map fun i => StateId.name (m.stateId i) := by
      have hactive : reply.machine.active = w.active := congrArg Configuration.active hnow
      rw [Machine.activeNames, Machine.activeStates, List.map_map, hactive]
      simp only [Machine.stateId, htree, Function.comp_def]
    rw [htrail, Machine.passings_trailLines, hnames]
    exact Passing.replay?_map _ hreplay
  · rw [htrail, Machine.passings_trailLines]
    exact hexits.map _
  · rw [htrail, congrArg Configuration.owner hnow]
    exact hw.leaves
  · intro earlier line hstart hline
    rw [htrail] at hstart ⊢
    obtain ⟨before, mark, hbefore, hearlier, hmark⟩ := Machine.mark_of_line hstart
    have hpassing : mark.passing? ≠ none := by
      intro hn
      have htold := mark.passing?_line m.tree m.name
      rw [hmark, hn] at htold
      exact hline htold
    obtain ⟨site, hsite⟩ := Mark.awaits?_of_passing hpassing
    exact ⟨before, mark, site, hbefore, hearlier, hmark, hsite,
      hw.cleared before mark hbefore site hsite⟩

variable {t : Tree S O E}

theorem reset_replays (hm : m.toMachine.Over t) (ht : t.Linked) (world : W) :
    m.Replays none [] (m.reset world).toReply := by
  obtain ⟨rfl, _⟩ := hm
  obtain ⟨hreplay, hexits⟩ := Tree.reset_passes ht m.toConfiguration
  refine replays_of_accounted [] rfl rfl rfl ?_
    (Tree.reset_accounted ht m.toConfiguration) hreplay hexits
  let failure := (m.tree.reset m.toConfiguration : Progress S O E).failure?
  let told := Observer.notify
    (fun o => o.wasReset m.name m.toMachine.reset.machine.activeStates failure) m.watchers world
  refine ⟨[m.toMachine.reset.machine.resetLine failure], told.2, List.append_assoc _ _ _, ?_, ?_⟩
  · intro line hline
    rw [List.mem_singleton.mp hline]
    exact Machine.resetLine_passing? _ _
  · intro hn
    simp only [told, watchers, hn, List.map_nil, Observer.notify]

theorem fire_replays [DecidableEq S] (hm : m.toMachine.Over t) (ht : t.Sound) (event : E)
    (world : W) : m.Replays (some event) m.activeNames (m.fire event world).toReply := by
  have hnames : m.activeNames =
      m.active.reverse.map fun i => StateId.name (m.stateId i) := by
    rw [Machine.activeNames, Machine.activeStates, List.map_map]
    rfl
  -- nothing happens to a machine that is not alive, or whose observers refuse the event
  have hrefused {refusal : Refusal} {after : W}
      (hreply : m.fire event world = ⟨⟨m, .error refusal, [], []⟩, after⟩) :
      m.Replays (some event) m.activeNames (m.fire event world).toReply := by
    rw [hreply, hnames]
    exact replays_of_accounted m.active.reverse (w := .start m.toConfiguration) rfl rfl rfl
      ⟨[], [], rfl, nofun, fun _ => rfl⟩ (Work.accounted_start m.tree _ m.toConfiguration) rfl
      ⟨[], [], rfl⟩
  cases ha : m.alive with
  | false => exact hrefused (fire_dead ha event world)
  | true =>
    cases hc : (Observer.consult m.name event m.inconsistency m.watchers world).2 with
    | some refusal => exact hrefused (fire_refused ha hc)
    | none =>
      obtain ⟨rfl, hstands⟩ := hm
      obtain ⟨hreplay, hexits⟩ := Tree.react_passes ht event hstands
      rw [fire_passed ha hc, hnames]
      refine replays_of_accounted m.active.reverse rfl rfl rfl ?_
        (Tree.react_accounted ht hstands) hreplay hexits
      refine ⟨_, _, List.append_assoc _ _ _, Machine.reactionLines_passing? _ _ _, ?_⟩
      intro hn
      simp only [watchers, hn, List.map_nil, Observer.notify]

end Observed

namespace Session

/-- The log of a machine replays its active chain, after any operations. The exits and entries that
an event logs lead from the names of the states that are active to the names of those that are
active after it, and those that a reset logs lead there from nothing, whether the operation
succeeds or fails anywhere. -/
theorem log_replays_chain [DecidableEq S] (root : S) (declarations : List (Declaration S O E))
    (name id : String) (owner : O) (world : W) (operations : List (Operation W S O E)) :
    let m := ((idle (.build root declarations) name id owner world).afterAll operations).machine
    (∀ event seen, m.Replays (some event) m.activeNames (m.fire event seen).toReply) ∧
      ∀ seen, m.Replays none [] (m.reset seen).toReply := by
  intro m
  have ht : (Tree.build root declarations).Sound := Tree.build_sound root declarations
  have hm : m.toMachine.Over (.build root declarations) :=
    afterAll_over ht name id owner world operations
  exact ⟨Observed.fire_replays hm ht, Observed.reset_replays hm ht.toLinked⟩

end Session

end

namespace Radio

/-- The radio is no longer off, and not yet on. -/
theorem jammed_log :
    let m := (nestedSession.afterAll [.reset]).machine
    let reply := m.fire .band ()
    m.activeNames = ["Root", "Off"] ∧
      (m.trailLines reply.trail).filterMap Line.passing? = [.exited "Off"] ∧
      reply.machine.activeNames = ["Root"] ∧
      m.Replays (some .band) m.activeNames reply.toReply := by
  intro m reply
  have hbefore : m.activeNames = ["Root", "Off"] := by decide +kernel
  have hafter : reply.machine.activeNames = ["Root"] := by decide +kernel
  obtain ⟨hfire, _⟩ := Session.log_replays_chain Place.root nested "radio" "1" [] () [.reset]
  exact ⟨hbefore, rfl, hafter, hfire .band ()⟩

end Radio

end StateTree
