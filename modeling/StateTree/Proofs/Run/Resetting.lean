import Mathlib.Data.List.Chain
import StateTree.Proofs.Run.Plan
import StateTree.Proofs.Run.Reentry

/-!
What a reset does. It depends on the owner alone: whatever was active and remembered is forgotten,
and the root and first initial substates in turn are entered, up to the first entry that fails.
-/

namespace StateTree

variable {S O E : Type}

namespace Work

/-- The states at `is` were entered in turn, the entry of each one succeeding, and nothing else was
called. -/
structure Entered (t : Tree S O E) (event : Option E) (is : List Nat) (w v : Work O E) : Prop where
  active : v.active = is.reverse ++ w.active
  succeeds : (Call.runAll event (t.entryCalls is) w.owner).failure? = none
  owner : v.owner = (Call.runAll event (t.entryCalls is) w.owner).owner
  calls : callsOf v.trail =
    callsOf w.trail ++ (t.entryCalls is).map fun call => (call.site, event)

/-- The state at `i` was not entered, as its entry failed with `e`. -/
structure Barred (t : Tree S O E) (event : Option E) (i : Nat) (e : ActionError)
    (w v : Work O E) : Prop where
  active : v.active = w.active
  fails : ∃ a, (t.node i).entry = some a ∧ (a.run w.owner event).1.settle = .error e ∧
    v.owner = (a.run w.owner event).2
  calls : callsOf v.trail = callsOf w.trail ++ [(.entry i, event)]

variable {t : Tree S O E} {event : Option E}

theorem Entered.mem_calls {is : List Nat} {w v : Work O E} (h : w.Entered t event is v)
    {called : Site × Option E} (hcalled : called ∈ callsOf v.trail) :
    called ∈ callsOf w.trail ∨ ∃ i ∈ is, called = (.entry i, event) := by
  rw [h.calls, List.mem_append] at hcalled
  refine hcalled.imp_right ?_
  intro hentry
  obtain ⟨call, hcall, rfl⟩ := List.mem_map.mp hentry
  obtain ⟨i, hi, hi'⟩ := List.mem_filterMap.mp hcall
  obtain ⟨a, _, rfl⟩ := Option.map_eq_some_iff.mp hi'
  exact ⟨i, hi, rfl⟩

theorem march_entered {is : List Nat} {w v : Work O E}
    (h : w.march t event (is.map .enter) = .going v) : w.Entered t event is v := by
  let ran := Call.runAll event (t.entryCalls is) w.owner
  have hran : (w.march t event (is.map .enter)).failure? = ran.failure? ∧
      (w.march t event (is.map .enter)).work.owner = ran.owner ∧
      callsOf (w.march t event (is.map .enter)).work.trail =
        callsOf w.trail ++ ran.made.map fun call => (call.site, event) := by
    simp only [ran]
    rw [← Tree.calls_enters]
    exact march_ran _ w
  rw [h] at hran
  obtain ⟨hnone, howner, hcalls⟩ := hran
  -- without a failure all calls are made
  have hmade : ran.made = t.entryCalls is := by
    rcases Call.runAll_cases event (t.entryCalls is) w.owner with
      ⟨_, hmade⟩ | ⟨_, _, _, _, _, _, _, _, hsome⟩
    · exact hmade
    · cases hnone.trans hsome
  refine ⟨?_, hnone.symm, howner, ?_⟩
  · have hstanding := congrArg Standing.active (march_going h)
    rw [Stride.active_enters] at hstanding
    exact hstanding
  · rw [← hmade]
    exact hcalls

theorem stride_barred {i : Nat} {w v : Work O E} {f : Failure S}
    (h : w.stride t event (.enter i) = .stopped v f) :
    ∃ e, f = ⟨.entry, (t.node i).id, e⟩ ∧ w.Barred t event i e v := by
  obtain ⟨hstanding, c, e, hc, he, hf⟩ := stride_stopped h
  obtain ⟨a, ha, rfl⟩ := Option.map_eq_some_iff.mp hc
  refine ⟨e, hf, congrArg Standing.active hstanding, ?_, ?_⟩
  · exact ⟨a, ha, he, owner_stride_stopped h hc⟩
  · rw [trail_stride_stopped h hc, callsOf, List.filterMap_append]
    rfl

/-- Marching into states in turn enters all of them, or those up to the first one whose entry
fails. -/
theorem march_enters (t : Tree S O E) (event : Option E) (is : List Nat) (w : Work O E) :
    (∃ v, w.march t event (is.map .enter) = .going v ∧ w.Entered t event is v) ∨
      ∃ entered i rest u v e, is = entered ++ i :: rest ∧
        w.march t event (is.map .enter) = .stopped v ⟨.entry, (t.node i).id, e⟩ ∧
        w.Entered t event entered u ∧ u.Barred t event i e v := by
  cases hp : w.march t event (is.map .enter) with
  | going v => exact Or.inl ⟨v, rfl, march_entered hp⟩
  | stopped v f =>
    obtain ⟨done, s, later, u, hsplit, hdone, hstop⟩ := march_stops hp
    -- the strides before the failing one enter the states before the one it is about
    obtain ⟨entered, others, his, rfl, hothers⟩ := List.map_eq_append_iff.mp hsplit
    obtain ⟨i, rest, rfl, rfl, _⟩ := List.map_eq_cons_iff.mp hothers
    obtain ⟨e, rfl, hbarred⟩ := stride_barred hstop
    exact Or.inr ⟨entered, i, rest, u, v, e, his, rfl, march_entered hdone, hbarred⟩

/-- Noting that a descent stops calls nothing and changes nothing. -/
theorem march_stuck (t : Tree S O E) (event : Option E) (w : Work O E) (i : Nat) :
    ∃ v, w.march t event (if (t.node i).isComposite then [.stuck i] else []) = .going v ∧
      v.toConfiguration = w.toConfiguration ∧ callsOf v.trail = callsOf w.trail := by
  split
  · exact ⟨w.settle t (.stuck i), rfl, rfl, callsOf_settle _ w⟩
  · exact ⟨w, rfl, rfl, rfl⟩

end Work

namespace Tree

variable {t : Tree S O E}

/-- A reset depends on the owner alone. -/
theorem reset_congr {c d : Configuration O} (h : c.owner = d.owner) : t.reset c = t.reset d := by
  rw [reset, reset, h]

theorem initialLine_isChain (ht : t.Linked) {i : Nat} (hi : i < t.size) :
    (i :: t.initialLine i).IsChain fun j c => t.firstInitial? j = some c := by
  refine upward_initial ht
    (P := fun i => (i :: t.initialLine i).IsChain fun j c => t.firstInitial? j = some c) ?_ ?_ hi
  · intro i _ hnone
    rw [initialLine_none hnone]
    exact List.isChain_singleton i
  · intro i hi c hc ih
    rw [initialLine_some ht hi hc]
    exact List.isChain_cons_cons.mpr ⟨hc, ih⟩

/-- A reset enters the root and first initial substates in turn: all of them, or those up to the
first one whose entry fails. -/
theorem reset_enters (ht : t.Linked) (c : Configuration O) :
    let w : Work O E := Work.start ⟨c.owner, [], .empty⟩
    let line := 0 :: t.initialLine 0
    let p := t.reset c
    (p.failure? = none ∧ w.Entered t none line p.work) ∨
      ∃ entered i rest u e, line = entered ++ i :: rest ∧
        p.failure? = some ⟨.entry, (t.node i).id, e⟩ ∧ w.Entered t none entered u ∧
        u.Barred t none i e p.work := by
  intro w line p
  let i₀ := t.lineEnd 0
  have hp : p = (w.march t none (line.map .enter)).andThen
      (Work.march t none (if (t.node i₀).isComposite then [.stuck i₀] else [])) := by
    rw [← Work.march_append]
    exact Work.reset_eq_march ht c
  rcases Work.march_enters t none line w with
    ⟨v, hgoing, hentered⟩ | ⟨entered, i, rest, u, v, e, hline, hstopped, hentered, hbarred⟩
  · obtain ⟨v', hstuck, hnow, hcalls⟩ := Work.march_stuck t none v i₀
    rw [hgoing] at hp
    have hlast : p = .going v' := hp.trans hstuck
    rw [hlast]
    refine Or.inl ⟨rfl, ?_, hentered.succeeds, ?_, ?_⟩
    · exact (congrArg (fun c => c.active) hnow).trans hentered.active
    · exact (congrArg (fun c => c.owner) hnow).trans hentered.owner
    · exact hcalls.trans hentered.calls
  · rw [hstopped] at hp
    rw [hp]
    exact Or.inr ⟨entered, i, rest, u, e, hline, rfl, hentered, hbarred⟩

theorem reset_calls (ht : t.Linked) (c : Configuration O) :
    ∀ called ∈ callsOf (t.reset c).work.trail,
      ∃ i ∈ 0 :: t.initialLine 0, called = (.entry i, none) := by
  intro called hcalled
  -- nothing was called before
  have hfresh {is : List Nat} {v : Work O E}
      (h : (Work.start ⟨c.owner, [], .empty⟩ : Work O E).Entered t none is v)
      (hv : called ∈ callsOf v.trail) : ∃ i ∈ is, called = (.entry i, none) :=
    (h.mem_calls hv).resolve_left List.not_mem_nil
  rcases reset_enters ht c with
    ⟨_, hall⟩ | ⟨entered, i, rest, u, e, hline, _, hentered, hbarred⟩
  · exact hfresh hall hcalled
  · rw [hbarred.calls, List.mem_append, List.mem_singleton] at hcalled
    rw [hline]
    rcases hcalled with hbefore | rfl
    · obtain ⟨j, hj, he⟩ := hfresh hentered hbefore
      exact ⟨j, List.mem_append_left _ hj, he⟩
    · exact ⟨i, List.mem_append_right _ List.mem_cons_self, rfl⟩

theorem reset_active (ht : t.Linked) {c : Configuration O} (h : (t.reset c).failure? = none) :
    (t.reset c).work.active.reverse = 0 :: t.initialLine 0 := by
  rcases reset_enters ht c with ⟨_, hall⟩ | ⟨_, _, _, _, _, _, hsome, _⟩
  · rw [hall.active, List.reverse_append, List.reverse_reverse]
    rfl
  · cases h.symm.trans hsome

theorem reset_history (ht : t.Linked) (c : Configuration O) :
    (t.reset c).work.history = .empty := by
  have hrecords : (t.reset c).work.history.records = [] :=
    History.records_eq_nil (reset_records ht c)
  exact congrArg History.mk hrecords

end Tree

/-- What is left of a reset and answered to it is that of the tree. -/
theorem Observed.reset_resets {W : Type} [StateId S] [EventKind E] {t : Tree S O E}
    {m : Observed W S O E} (hm : m.toMachine.Over t) (seen : W) :
    let reply := m.reset seen
    let p := t.reset m.toConfiguration
    reply.answer = p.failure? ∧
      (⟨reply.machine.toConfiguration, reply.trail⟩ : Work O E) = p.work := by
  obtain ⟨rfl, _⟩ := hm
  exact ⟨rfl, rfl⟩

namespace Session

variable {W V : Type} [DecidableEq S] [StateId S] [EventKind E]

/-- A reset forgets the past. After any operations on two machines over one tree, resets give the
same answer, do the same and leave the same owner, chain, history and consistency if the owners were
the same before. Each of them calls nothing but entries, without an event: those of the root and of
first initial substates in turn, down to a state without one, of all of them or up to the first one
that fails. The states that were entered are active then, and nothing is remembered. -/
theorem reset_forgets (root : S) (declarations : List (Declaration S O E)) (name id : String)
    (owner : O) (world : W) (operations : List (Operation W S O E)) (seen : W)
    (name' id' : String) (owner' : O) (world' : V) (operations' : List (Operation V S O E))
    (seen' : V) :
    let t := Tree.build root declarations
    let m := ((idle t name id owner world).afterAll operations).machine
    let m' := ((idle t name' id' owner' world').afterAll operations').machine
    let reply := m.reset seen
    let reply' := m'.reset seen'
    let line := 0 :: t.initialLine 0
    let start : Work O E := .start ⟨m.owner, [], .empty⟩
    let done : Work O E := ⟨reply.machine.toConfiguration, reply.trail⟩
    (m.owner = m'.owner →
      reply.answer = reply'.answer ∧ reply.trail = reply'.trail ∧
        reply.machine.toConfiguration = reply'.machine.toConfiguration ∧
        reply.machine.alive = reply'.machine.alive ∧
        reply.machine.inconsistency = reply'.machine.inconsistency) ∧
    (reply.machine.alive = true ∧ reply.machine.inconsistency = reply.answer ∧
      reply.machine.history = .empty) ∧
    (line.IsChain (fun i c => t.firstInitial? i = some c) ∧
      ∀ i ∈ line.getLast?, ∀ c ∈ (t.node i).children, (t.node c).initial = false) ∧
    (∀ call ∈ callsOf reply.trail, ∃ i ∈ line, call = (.entry i, none)) ∧
    (reply.answer = none → reply.machine.active.reverse = line) ∧
    ((reply.answer = none ∧ start.Entered t none line done) ∨
      ∃ entered i rest u e, line = entered ++ i :: rest ∧
        reply.answer = some ⟨.entry, (t.node i).id, e⟩ ∧ start.Entered t none entered u ∧
        u.Barred t none i e done) := by
  intro t m m' reply reply' line start done
  have ht : t.Sound := Tree.build_sound root declarations
  obtain ⟨hanswer, hdone⟩ :=
    Observed.reset_resets (afterAll_over ht name id owner world operations) seen
  obtain ⟨hanswer', hdone'⟩ :=
    Observed.reset_resets (afterAll_over ht name' id' owner' world' operations') seen'
  change reply.answer = (t.reset m.toConfiguration).failure? at hanswer
  change done = (t.reset m.toConfiguration).work at hdone
  refine ⟨?_, ⟨rfl, rfl, ?_⟩, ⟨Tree.initialLine_isChain ht.toLinked t.size_pos, ?_⟩, ?_, ?_, ?_⟩
  · intro howner
    rw [Tree.reset_congr howner] at hanswer hdone
    have hsame := hdone.trans hdone'.symm
    have hreplies : reply.answer = reply'.answer := hanswer.trans hanswer'.symm
    exact ⟨hreplies, congrArg Work.trail hsame, congrArg Work.toConfiguration hsame, rfl, hreplies⟩
  · change done.history = .empty
    rw [hdone]
    exact Tree.reset_history ht.toLinked m.toConfiguration
  · intro i hi
    have hlast : line.getLast? = some (t.lineEnd 0) := List.getLast?_cons
    obtain rfl : t.lineEnd 0 = i := Option.some.inj (hlast.symm.trans hi)
    exact Tree.firstInitial?_eq_none_iff.mp (Tree.initialLine_leads ht.toLinked t.size_pos).2
  · change ∀ call ∈ callsOf done.trail, _
    rw [hdone]
    exact Tree.reset_calls ht.toLinked m.toConfiguration
  · intro hnone
    change done.active.reverse = line
    rw [hdone]
    exact Tree.reset_active ht.toLinked (hanswer.symm.trans hnone)
  · rw [hanswer, hdone]
    exact Tree.reset_enters ht.toLinked m.toConfiguration

end Session

namespace Radio

theorem layered_forgets :
    let t := Tree.build .root layered
    let fresh := layeredSession.machine
    let used := (layeredSession.afterAll [.reset, .fire .power, .fire .band]).machine
    let reply := used.reset ()
    fresh.active = [] ∧ used.active = [4, 3, 2, 0] ∧
      reply.answer = (fresh.reset ()).answer ∧
      reply.machine.toConfiguration = (fresh.reset ()).machine.toConfiguration ∧
      reply.machine.active.reverse = 0 :: t.initialLine 0 := by
  intro t fresh used reply
  have howner : used.owner = fresh.owner := by decide +kernel
  have hactive : used.active = [4, 3, 2, 0] := by decide +kernel
  have hnone : reply.answer = none := by decide +kernel
  obtain ⟨hforgets, _, _, _, hline, _⟩ :=
    Session.reset_forgets Place.root layered "radio" "1" [] ()
      [Operation.reset, .fire .power, .fire .band] () "radio" "1" [] () [] ()
  obtain ⟨hanswer, _, hnow, _⟩ := hforgets howner
  exact ⟨rfl, hactive, hanswer, hnow, hline hnone⟩

end Radio

end StateTree
