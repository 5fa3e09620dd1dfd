import StateTree.Proofs.Run.Plan
import StateTree.Proofs.Run.Reentry
import StateTree.Proofs.Step.Stopping

/-!
Where a failure leaves a machine. A failure that interrupts a crossing stops it at one step: the
chain and the history are what the steps before it have left, and its own call is the last one.
-/

namespace StateTree

variable {S O E : Type}

namespace Tree

/-- The active states below the one at `i` were left, and nothing else was done: the history states
among them remember what was active below them. -/
structure LeftTo (t : Tree S O E) (i : Nat) (before after : Standing) : Prop where
  active : after.active.reverse = t.path i
  records : ∀ k chain, (k, chain) ∈ after.history.records ↔
    (k, chain) ∈ before.history.records ∨
      (k ∈ before.active ∧ t.below i k = true ∧ (t.node k).history = true ∧
        chain = before.active.reverse.filter (t.below k) ∧ chain ≠ [])

/-- How a transition to `target` stops, by the phase of its failure, which belongs to the state at
`i` and to the call at `site`. -/
def StopsAt (t : Tree S O E) (x : Candidate S O E) (target : Nat) (before after : Standing)
    (i : Nat) (site : Site) : Phase → Prop
  | .exit =>
    site = .exit i ∧ i ∈ before.active ∧ t.below (t.commonAncestor x.state target) i = true ∧
      t.LeftTo i before after
  | .action =>
    site = .action i x.position ∧ i = x.state ∧
      t.LeftTo (t.commonAncestor x.state target) before after
  | .entry =>
    site = .entry i ∧ ∃ p, (t.node i).parent = some p ∧ after.active.reverse = t.path p
  | .guard | .stayAction => False

variable {t : Tree S O E}

theorem leaving_leftTo (ht : t.Linked) {st : Standing} (hst : t.Stands st)
    (hd : st.history.Distinct) {i : Nat} {inner : List Nat} {leaf : Nat}
    (hl : t.Leads i inner leaf) (ha : st.active = (t.path leaf).reverse) :
    t.LeftTo i st ((t.leaving i st.active : List (Stride S O E)).foldl (Stride.pass t) st) := by
  refine ⟨?_, ?_⟩
  · have hreach : Stride.Reaches t st (t.leaving i st.active) i := reaches_leaving ht hl ha
    rw [hreach.2, List.reverse_reverse]
  · intro k chain
    have hnone (hk : k ∈ st.active) : st.history.get? k ≠ some chain :=
      fun hg => (hst.records k chain hg).inactive hk
    rw [History.mem_records_iff (Stride.distinct_passAll hd), History.mem_records_iff hd, leaving,
      Stride.history_leaves]
    constructor
    · intro h
      split at h
      · next hleft =>
        obtain ⟨hk, hbelow⟩ := List.mem_filter.mp hleft.1
        cases h
        exact Or.inr ⟨hk, hbelow, hleft.2.1, rfl, hleft.2.2⟩
      · exact Or.inl h
    · rintro (hold | ⟨hk, hbelow, hf, rfl, hne⟩)
      · -- a state with a record is not active, so it is not left
        have hleft (h : k ∈ st.active.filter (t.below i)) : False :=
          hnone (List.mem_filter.mp h).1 hold
        rw [if_neg fun h => hleft h.1]
        exact hold
      · rw [if_pos ⟨List.mem_filter.mpr ⟨hk, hbelow⟩, hf, hne⟩]

/-- The stride at which an itinerary stops says where the transition stops. -/
theorem itinerary_stopsAt (ht : t.Linked) {st : Standing} (hst : t.Stands st)
    (hd : st.history.Distinct) {x : Candidate S O E} {target : Nat} (hsource : x.state ∈ st.active)
    (htarget : target < t.size) {done rest : List (Stride S O E)} {s : Stride S O E}
    (h : t.itinerary x target st = done ++ s :: rest) {c : Call S O E} (hc : s.call? t = some c) :
    ∃ i < t.size, c.state = (t.node i).id ∧
      t.StopsAt x target st (s.before (done.foldl (Stride.pass t) st)) i c.site c.phase := by
  obtain ⟨leaf, seg, hl, ha⟩ := active_leads ht hst hsource
  obtain ⟨⟨xs, hxs⟩, _⟩ := commonAncestor_leads ht (hl.source_lt ht) htarget
  rcases itinerary_split ht hst hsource htarget h hc with
    ⟨i, below, rfl, hi, hbelow, rfl⟩ | ⟨rfl, rfl⟩ | ⟨i, p, rfl, hi, hparent, hactive⟩
  · obtain ⟨a, _, rfl⟩ := Option.map_eq_some_iff.mp hc
    obtain ⟨leaf', inner, hinner, ha'⟩ := active_leads ht hst hi
    exact ⟨i, hinner.source_lt ht, rfl, rfl, hi, hbelow, leaving_leftTo ht hst hd hinner ha'⟩
  · obtain ⟨a, _, rfl⟩ := Option.map_eq_some_iff.mp hc
    exact ⟨x.state, hl.source_lt ht, rfl, rfl, rfl, leaving_leftTo ht hst hd (hxs.trans hl) ha⟩
  · obtain ⟨a, _, rfl⟩ := Option.map_eq_some_iff.mp hc
    refine ⟨i, hi, rfl, rfl, p, hparent, ?_⟩
    -- giving up the record of the state changes nothing about what is active
    change (done.foldl (Stride.pass t) st).active.reverse = _
    rw [hactive, List.reverse_reverse]

/-- A reset fails at the entry of a state, the parent of which is innermost then. -/
theorem reset_stops (ht : t.Linked) {c : Configuration O} {v : Work O E} {f : Failure S}
    (h : t.reset c = .stopped v f) :
    ∃ i < t.size, f.phase = .entry ∧ f.state = (t.node i).id ∧
      ((i = 0 ∧ v.active = []) ∨
        ∃ p, (t.node i).parent = some p ∧ v.active.reverse = t.path p) ∧
      v.trail.getLast? = some (.called (.entry i) none) ∧
      Call.FailsAt none (t.entryCalls (0 :: t.initialLine 0)) (.entry i) c.owner v.owner f := by
  rw [Work.reset_eq_march ht] at h
  obtain ⟨done, s, rest, call, he, hc, hstanding, htrail, hphase, hstate, hfails⟩ :=
    Work.march_fails h
  have harrives : s.Arrives := by
    have hs : s ∈ .enter 0 :: t.settling 0 := he ▸ List.mem_append_right _ List.mem_cons_self
    rcases List.mem_cons.mp hs with rfl | hs
    · trivial
    · exact arrives_settling hs
  obtain ⟨i, rfl⟩ := harrives.enters hc
  obtain ⟨a, _, rfl⟩ := Option.map_eq_some_iff.mp hc
  have hfit := (reaches_reset ht).1
  rw [he] at hfit
  obtain ⟨_, henter, _⟩ := (Stride.fitAll_append _ _ _).mp hfit
  refine ⟨i, henter.1, hphase, hstate, ?_, htrail, ?_⟩
  · have hactive : v.active = _ := congrArg Standing.active hstanding
    rw [hactive]
    rcases henter.enter_parent ht with ⟨hi, hnil⟩ | ⟨p, hparent, hpath⟩
    · exact Or.inl ⟨hi, hnil⟩
    · refine Or.inr ⟨p, hparent, ?_⟩
      rw [← List.reverse_reverse (t.path p)]
      exact congrArg List.reverse hpath
  · -- the calls that are planned are those of the states entered
    have hplan : (.enter 0 :: t.settling 0 : List (Stride S O E)).filterMap (Stride.call? t) =
        t.entryCalls (0 :: t.initialLine 0) := by
      change ([0].map Stride.enter ++ t.settling 0).filterMap (Stride.call? t) = _
      rw [List.filterMap_append, calls_enters, calls_settling, entryCalls, entryCalls,
        ← List.filterMap_append]
      rfl
    rw [hplan] at hfails
    exact hfails

variable [DecidableEq S] [EventKind E] {event : E}

/-- A reaction that fails midway has stopped one of the steps of the transition it takes. -/
theorem react_stops (ht : t.Sound) {c : Configuration O} (hst : t.Stands c.standing)
    (hd : c.history.Distinct) {f : Failure S} (h : (t.react event c).2 = .failed f)
    (hf : f.leavesConsistent = false) :
    ∃ x id target i site, (t.select event c).2 = .ok (some x) ∧
      x.transition.kind = .moves id target ∧ t.place? f.state = some i ∧
      t.StopsAt x target c.standing (t.react event c).1.standing i site f.phase ∧
      (t.react event c).1.trail.getLast? = some (.called site (some event)) ∧
      Call.FailsAt (some event) (t.plan x target c.standing) site (t.select event c).1.owner
        (t.react event c).1.owner f := by
  rcases react_cases t event c with ⟨_, hquiet, _⟩ | ⟨x, id, target, hs, hk⟩
  · -- a quiet failure leaves the machine consistent
    rw [h] at hquiet
    cases hf.symm.trans hquiet
  obtain ⟨hsource, hsource_lt, htarget⟩ := select_bounds ht hst hs hk
  rcases react_passage ht hst hs hk with ⟨v, g, hp, _, hr⟩ | ⟨v, before, _, _, hr⟩
  · rw [hr] at h ⊢
    cases h
    obtain ⟨done, s, rest, call, he, hc, hstanding, htrail, hphase, hstate, hfails⟩ :=
      Work.march_fails hp
    obtain ⟨i, hi, hid, hstops⟩ :=
      itinerary_stopsAt ht.toLinked hst hd hsource htarget he hc
    rw [select_standing] at hstanding
    rw [calls_itinerary ht.toLinked hsource_lt htarget] at hfails
    refine ⟨x, id, target, i, call.site, hs, hk, ?_, ?_, htrail, hfails⟩
    · rw [hstate, hid]
      exact (ht.place _ _).mpr ⟨hi, rfl⟩
    · rw [hphase]
      change t.StopsAt x target c.standing v.standing i call.site call.phase
      rw [hstanding]
      exact hstops
  · rw [hr] at h
    cases h

end Tree

namespace Session

variable {W : Type} [DecidableEq S] [StateId S] [EventKind E]

/-- Where a failure leaves a machine, after any operations. An event that fails midway takes a
transition, and the failing step of it decides what is active and what is remembered. A reset fails
at an entry, with nothing remembered. In both cases the failing call is the last thing that happens,
and the owner is what this call leaves after those planned before it. -/
theorem failure_stops (root : S) (declarations : List (Declaration S O E)) (name id : String)
    (owner : O) (world : W) (operations : List (Operation W S O E)) :
    let t := Tree.build root declarations
    let m := ((idle t name id owner world).afterAll operations).machine
    (∀ event seen f,
      let chosen := t.select event m.toConfiguration
      let reply := m.fire event seen
      reply.answer = .ok (.failed f) → f.leavesConsistent = false →
      ∃ x goal target i site, chosen.2 = .ok (some x) ∧ x.transition.kind = .moves goal target ∧
        t.place? f.state = some i ∧
        t.StopsAt x target m.standing reply.machine.standing i site f.phase ∧
        reply.trail.getLast? = some (.called site (some event)) ∧
        Call.FailsAt (some event) (t.plan x target m.standing) site chosen.1.owner
          reply.machine.owner f) ∧
    ∀ seen f,
      let reply := m.reset seen
      reply.answer = some f →
      ∃ i, t.place? f.state = some i ∧ f.phase = .entry ∧ reply.machine.history.records = [] ∧
        ((i = 0 ∧ reply.machine.active = []) ∨
          ∃ p, (t.node i).parent = some p ∧ reply.machine.active.reverse = t.path p) ∧
        reply.trail.getLast? = some (.called (.entry i) none) ∧
        Call.FailsAt none (t.entryCalls (0 :: t.initialLine 0)) (.entry i) m.owner
          reply.machine.owner f := by
  intro t m
  have ht : t.Sound := Tree.build_sound root declarations
  have hm : m.toMachine.Over t := afterAll_over ht name id owner world operations
  have hd : m.history.Distinct := afterAll_distinct ht name id owner world operations
  refine ⟨?_, ?_⟩
  · intro event seen f chosen reply hanswer hf
    obtain ⟨_, hnow, htrail, hreact⟩ := Observed.fire_reacts hm hanswer
    obtain ⟨x, goal, target, i, site, hs, hk, hplace, hstops, hlast, hfails⟩ :=
      Tree.react_stops ht hm.stands hd hreact.symm hf
    have hstanding : reply.machine.standing = (t.react event m.toConfiguration).1.standing :=
      congrArg Configuration.standing hnow
    have howner : reply.machine.owner = (t.react event m.toConfiguration).1.owner :=
      congrArg (fun c => c.owner) hnow
    refine ⟨x, goal, target, i, site, hs, hk, hplace, ?_, ?_, ?_⟩
    · rw [hstanding]
      exact hstops
    · rw [htrail]
      exact hlast
    · rw [howner]
      exact hfails
  · intro seen f reply hanswer
    have hreset : (m.tree.reset m.toConfiguration).failure? = some f := hanswer
    rw [hm.tree] at hreset
    cases hr : t.reset m.toConfiguration with
    | going v =>
      rw [hr] at hreset
      cases hreset
    | stopped v g =>
      rw [hr] at hreset
      cases hreset
      have hwork : (m.tree.reset m.toConfiguration).work = v := by
        rw [hm.tree, hr]
        rfl
      have hnow : reply.machine.toConfiguration = v.toConfiguration :=
        congrArg Work.toConfiguration hwork
      have hmarks : reply.trail = v.trail := congrArg Work.trail hwork
      have hforgotten : reply.machine.history.records = [] := by
        apply History.records_eq_nil
        intro k
        have hnone := Tree.reset_records ht.toLinked m.toConfiguration k
        rw [hr] at hnone
        rw [hnow]
        exact hnone
      obtain ⟨i, hi, hphase, hid, hactive, htrail, hfails⟩ := Tree.reset_stops ht.toLinked hr
      rw [hmarks, show reply.machine.active = v.active from congrArg (fun c => c.active) hnow,
        show reply.machine.owner = v.owner from congrArg (fun c => c.owner) hnow]
      refine ⟨i, ?_, hphase, hforgotten, hactive, htrail, hfails⟩
      rw [hid]
      exact (ht.place _ _).mpr ⟨hi, rfl⟩

end Session

namespace Radio

theorem layered_stuck :
    let t := Tree.build .root layered
    let m := (layeredSession.afterAll
      [.reset, .fire .power, .fire .band, .modifyOwner fun _ => ["sand"]]).machine
    let fired := m.fire .power ()
    let again := m.reset ()
    fired.answer = .ok (.failed ⟨.exit, .on, ⟨"stuck"⟩⟩) ∧
      fired.machine.owner = ["sand", "tried"] ∧ t.LeftTo 2 m.standing fired.machine.standing ∧
      fired.trail.getLast? = some (.called (.exit 2) (some .power)) ∧
      again.answer = some ⟨.entry, .off, ⟨"stuck"⟩⟩ ∧
      ∃ p, (t.node 1).parent = some p ∧ again.machine.active.reverse = t.path p := by
  intro t m fired again
  have hfired : fired.answer = .ok (.failed ⟨.exit, .on, ⟨"stuck"⟩⟩) := by decide +kernel
  have hagain : again.answer = some ⟨.entry, .off, ⟨"stuck"⟩⟩ := by decide +kernel
  have howner : fired.machine.owner = ["sand", "tried"] := by decide +kernel
  have hon : t.place? Place.on = some 2 := by decide +kernel
  have hoff : t.place? Place.off = some 1 := by decide +kernel
  obtain ⟨hfire, hreset⟩ := Session.failure_stops Place.root layered "radio" "1" [] ()
    [Operation.reset, .fire .power, .fire .band, .modifyOwner fun _ => ["sand"]]
  obtain ⟨x, goal, target, i, site, _, _, hi, ⟨hsite, _, _, hleft⟩, hlast, _⟩ :=
    hfire Button.power () ⟨.exit, .on, ⟨"stuck"⟩⟩ hfired rfl
  cases hi.symm.trans hon
  cases hsite
  obtain ⟨j, hj, _, _, hactive, _⟩ := hreset () ⟨.entry, .off, ⟨"stuck"⟩⟩ hagain
  cases hj.symm.trans hoff
  -- the state that was not entered is not the root
  have hparent := hactive.resolve_left fun h => absurd h.1 (by decide)
  exact ⟨hfired, howner, hleft, hlast, hagain, hparent⟩

end Radio

end StateTree
