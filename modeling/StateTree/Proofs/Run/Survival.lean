import StateTree.Proofs.Run.Records

/-!
How long records last. Whatever comes of an event, a record is kept until the entry of its state is
reached, with one exception: the target of a transition gives its record up before the states around
it are entered, so where one of these entries fails the record is lost and the target is not reached.
-/

namespace StateTree

variable {S O E : Type}

namespace Tree

variable {t : Tree S O E}

theorem below_of_mem_path {j k : Nat} (hj : j ∈ t.path k) (hne : j ≠ k) : t.below j k = true := by
  obtain ⟨above, ha⟩ := t.path_eq_init k
  rw [ha, List.mem_append, List.mem_singleton] at hj
  simpa [below, ha] using hj.resolve_right hne

/-- Before any state is entered, a history target is forgotten. -/
theorem forget_of_enter {x : Candidate S O E} {target j : Nat} {st : Standing}
    {reached rest : List (Stride S O E)} (he : t.itinerary x target st = reached ++ rest)
    (hf : (t.node target).history = true) (hj : Stride.enter j ∈ reached) :
    Stride.forget target ∈ reached := by
  have hway : (Stride.enter j : Stride S O E) ∉ t.departure x target st.active :=
    fun hm => departs_of_departure hm
  rw [itinerary_eq, entering_of_history hf] at he
  rcases List.append_eq_append_iff.mp he with ⟨way, hreached, hway'⟩ | ⟨later, hdeparture, _⟩
  · -- the way in has begun, and begins with forgetting the target
    cases way with
    | nil =>
      rw [hreached, List.append_nil] at hj
      exact absurd hj hway
    | cons s way =>
      rw [List.cons_append, List.cons_append] at hway'
      obtain ⟨rfl, _⟩ := List.cons.inj hway'
      rw [hreached]
      exact List.mem_append_right _ List.mem_cons_self
  · rw [hdeparture] at hway
    exact absurd (List.mem_append_left _ hj) hway

/-- Where a target is forgotten but not entered, the way in ends at a state around it. -/
theorem last_of_forget {x : Candidate S O E} {target : Nat} {st : Standing}
    {reached rest : List (Stride S O E)} (he : t.itinerary x target st = reached ++ rest)
    (hbelow : t.below (t.commonAncestor x.state target) target = true)
    (hforget : Stride.forget target ∈ reached) (hnot : Stride.enter target ∉ reached)
    {s : Stride S O E} (hlast : reached.getLast? = some s) {call : Call S O E}
    (hcall : s.call? t = some call) :
    ∃ j, s = .enter j ∧ t.below (t.commonAncestor x.state target) j = true ∧
      t.below j target = true := by
  obtain ⟨_, hf⟩ := forget_mem_itinerary (he ▸ List.mem_append_left rest hforget)
  have hway : (Stride.forget target : Stride S O E) ∉ t.departure x target st.active :=
    fun hm => departs_of_departure hm
  rw [itinerary_eq, entering_of_history hf] at he
  rcases List.append_eq_append_iff.mp he with ⟨way, hreached, hway'⟩ | ⟨later, hdeparture, _⟩
  · rw [hreached, List.mem_append] at hforget hnot
    have hs : s ∈ way := by
      have hne : way ≠ [] := List.ne_nil_of_mem (hforget.resolve_left hway)
      rw [hreached, List.getLast?_append, List.getLast?_eq_some_getLast hne, Option.some_or] at hlast
      exact List.mem_of_getLast? ((List.getLast?_eq_some_getLast hne).trans hlast)
    rcases List.append_eq_append_iff.mp hway' with ⟨more, hmore, _⟩ | ⟨later, hstart, _⟩
    · -- all states around the target and the target itself would have been entered
      have htarget : (Stride.enter target : Stride S O E) ∈ way := by
        rw [hmore]
        refine List.mem_append_left _ (List.mem_cons_of_mem _ (List.mem_map_of_mem ?_))
        exact List.mem_filter.mpr ⟨List.mem_of_getLast? (getLast_path target), hbelow⟩
      exact absurd (Or.inr htarget) hnot
    · have hmem : s ∈ (.forget target ::
          ((t.path target).filter (t.below (t.commonAncestor x.state target))).map
            Stride.enter : List (Stride S O E)) := hstart ▸ List.mem_append_left later hs
      rcases List.mem_cons.mp hmem with rfl | hmem
      · cases hcall
      · obtain ⟨j, hj, rfl⟩ := List.mem_map.mp hmem
        obtain ⟨hpath, hlimit⟩ := List.mem_filter.mp hj
        have hne : j ≠ target := fun hjt => hnot (Or.inr (hjt ▸ hs))
        exact ⟨j, rfl, hlimit, below_of_mem_path hpath hne⟩
  · rw [hdeparture] at hway
    exact absurd (List.mem_append_left _ hforget) hway

variable [DecidableEq S] [EventKind E] {event : E}

/-- The event finds a transition to the state at `k`, and `f` is the failure of an entry on the way
from the deepest state around source and target to the target itself. -/
def CutShort (t : Tree S O E) (event : E) (c : Configuration O) (k : Nat) (f : Failure S) : Prop :=
  ∃ x id j, (t.select event c).2 = .ok (some x) ∧ x.transition.kind = .moves id k ∧
    t.below (t.commonAncestor x.state k) j = true ∧ t.below j k = true ∧
    f.phase = .entry ∧ f.state = (t.node j).id

/-- A state with a record that is reached, but whose entry is not, is forgotten exactly if the
transition is cut short on the way to it. -/
theorem forget_reached_iff (ht : t.Sound) {c : Configuration O} (hst : t.Stands c.standing)
    {x : Candidate S O E} {id : S} {target : Nat} (hs : (t.select event c).2 = .ok (some x))
    (hk : x.transition.kind = .moves id target) {reached rest : List (Stride S O E)}
    (he : t.itinerary x target c.standing = reached ++ rest)
    (hend : (rest = [] ∧ ∃ move, (t.react event c).2 = .moved move) ∨
      ∃ s call f, reached.getLast? = some s ∧ s.call? t = some call ∧
        (t.react event c).2 = .failed f ∧ f.phase = call.phase ∧ f.state = call.state)
    {k : Nat} {chain : List Nat} (hrecalls : t.Recalls c.active k chain)
    (hnot : Stride.enter k ∉ reached) :
    Stride.forget k ∈ reached ↔
      ∃ f, (t.react event c).2 = .failed f ∧ t.CutShort event c k f := by
  obtain ⟨_, hsource, htarget⟩ := select_bounds ht hst hs hk
  constructor
  · intro hforget
    obtain ⟨rfl, _⟩ := forget_mem_itinerary (he ▸ List.mem_append_left rest hforget)
    have hbelow := commonAncestor_below_target ht.toLinked hsource htarget hrecalls.ne_root
    rcases hend with ⟨hrest, _⟩ | ⟨s, call, f, hlast, hcall, hr, hphase, hstate⟩
    · -- a transition that is completed enters its target
      rw [hrest, List.append_nil] at he
      rw [← he, itinerary_eq] at hnot
      exact absurd (List.mem_append_right _ (enter_target_mem hbelow)) hnot
    · obtain ⟨j, rfl, hlimit, hj⟩ := last_of_forget he hbelow hforget hnot hlast hcall
      obtain ⟨a, _, rfl⟩ := Option.map_eq_some_iff.mp hcall
      exact ⟨f, hr, x, id, j, hs, hk, hlimit, hj, hphase, hstate⟩
  · rintro ⟨f, hr, x', id', j, hs', hkind, _, _, hphase, _⟩
    -- the transition is the one selected, and what failed is on the way in
    cases hs.symm.trans hs'
    cases hk.symm.trans hkind
    rcases hend with ⟨_, move, hmoved⟩ | ⟨s, call, g, hlast, hcall, hr', hphase', _⟩
    · cases hmoved.symm.trans hr
    · cases hr'.symm.trans hr
      have hentry : call.phase = .entry := hphase'.symm.trans hphase
      rcases Stride.call?_cases hcall with ⟨_, _, _, _, hp⟩ | ⟨_, _, _, hp⟩ | ⟨i, rfl, _, _⟩
      · cases hp.symm.trans hentry
      · cases hp.symm.trans hentry
      · exact forget_of_enter he hrecalls.flagged (List.mem_of_getLast? hlast)

/-- A record is never replaced, and it is kept unless the entry of its state is reached or cut
short. -/
theorem react_survives (ht : t.Sound) {c : Configuration O} (hst : t.Stands c.standing) {k : Nat}
    {chain : List Nat} (hg : c.history.get? k = some chain) (kept : List Nat) :
    (t.react event c).1.history.get? k = some kept ↔
      kept = chain ∧ (∀ mark ∈ (t.react event c).1.trail, mark.enters? ≠ some k) ∧
        ¬ ∃ f, (t.react event c).2 = .failed f ∧ t.CutShort event c k f := by
  have hrecalls := hst.records k chain hg
  rcases react_cases t event c with ⟨hq, hquiet, hmarks⟩ | ⟨x, id, target, hs, hk⟩
  · -- nothing is entered, and no entry fails
    have hhistory : (t.react event c).1.history = c.history := congrArg Standing.history hq
    have hnone : ∀ mark ∈ (t.react event c).1.trail, mark.enters? ≠ some k := by
      intro mark hm henters
      cases (hmarks mark hm).symm.trans (Mark.crossed?_of_enters henters)
    have hcut : ¬ ∃ f, (t.react event c).2 = .failed f ∧ t.CutShort event c k f := by
      rintro ⟨f, hr, _, _, _, _, _, _, _, hphase, _⟩
      rw [hr] at hquiet
      simp [Reaction.Quiet, Failure.leavesConsistent, hphase] at hquiet
    rw [hhistory, hg, Option.some.injEq]
    exact ⟨fun h => ⟨h.symm, hnone, hcut⟩, fun h => h.1.symm⟩
  obtain ⟨reached, rest, he, hreached, hend⟩ := react_reached ht hst hs hk
  -- a state with a record is not active, so it is not left
  have hleft (below : List Nat) : Stride.leave k below ∉ reached := by
    intro hm
    have hitinerary : Stride.leave k below ∈ t.itinerary x target c.standing :=
      he ▸ List.mem_append_left rest hm
    exact hrecalls.inactive (leave_mem_itinerary hitinerary).1
  have hnot : (∀ mark ∈ (t.react event c).1.trail, mark.enters? ≠ some k) ↔
      Stride.enter k ∉ reached := by
    rw [← hreached.entered]
    simp only [not_exists, not_and, ne_eq]
  rw [hreached.records k kept hleft, hg, hnot, Option.some.injEq, and_comm, eq_comm]
  refine and_congr_right fun _ => and_congr_right fun henter => not_congr ?_
  exact forget_reached_iff ht hst hs hk he hend hrecalls henter

end Tree

namespace Session

variable {W : Type} [DecidableEq S] [StateId S] [EventKind E]

/-- What an event does to a record, whatever comes of it. The record is never replaced. It is kept
unless the entry of its own state is reached, or its state is the target of a transition that fails
at the entry of a state on the way to it. -/
theorem record_survives_iff (root : S) (declarations : List (Declaration S O E)) (name id : String)
    (owner : O) (world : W) (operations : List (Operation W S O E)) (k : Nat) (chain : List Nat)
    (hrecord : (k, chain) ∈ ((idle (.build root declarations) name id owner world).afterAll
      operations).machine.history.records) (event : E) (seen : W) (kept : List Nat) :
    let t := Tree.build root declarations
    let m := ((idle t name id owner world).afterAll operations).machine
    let reply := m.fire event seen
    (k, kept) ∈ reply.machine.history.records ↔
      kept = chain ∧ (∀ mark ∈ reply.trail, mark.enters? ≠ some k) ∧
        ¬ ∃ f, reply.answer = .ok (.failed f) ∧ t.CutShort event m.toConfiguration k f := by
  intro t m reply
  have ht : t.Sound := Tree.build_sound root declarations
  have hm : m.toMachine.Over t := afterAll_over ht name id owner world operations
  have hd : m.history.Distinct := afterAll_distinct ht name id owner world operations
  have hg : m.history.get? k = some chain := (History.mem_records_iff hd).mp hrecord
  rcases m.fire_cases event seen with ⟨hsame, htrail, refusal, hr⟩ | ⟨_, hnext, _, hr⟩
  · -- an event that is refused changes nothing
    change reply.machine = m at hsame
    change reply.trail = [] at htrail
    change reply.answer = .error refusal at hr
    rw [hsame, htrail, hr, History.mem_records_iff hd, hg, Option.some.injEq]
    simp [eq_comm]
  · obtain ⟨_, hnow, htrail, hreaction⟩ := Observed.fire_reacts hm hr
    change reply.trail = _ at htrail
    change reply.answer = .ok (m.react event).answer at hr
    have hhistory : reply.machine.history = (t.react event m.toConfiguration).1.history :=
      congrArg (fun c => c.history) hnow
    rw [hhistory, htrail, hr, hreaction,
      History.mem_records_iff (Tree.react_distinct ht hm.stands hd),
      Tree.react_survives ht hm.stands hg]
    simp only [Except.ok.injEq]

end Session

namespace Radio

/-- Fails where the band button is pressed. -/
def jams : Action (List String) Button where
  run lines
    | some .band => (.error ⟨"jammed"⟩, lines)
    | _ => (.value (), lines)

/-- The bands are within a state of their own, which remembers the band that was chosen. Both buttons
switch on, but the band button jams. -/
def nested : List (Declaration Place (List String) Button) :=
  [.addToRoot .off ⟨[.initial], none⟩,
    .addToRoot .on ⟨[.entry jams], none⟩,
    .addTo .on .dab ⟨[.history, .initial], none⟩,
    .addTo .dab .fm ⟨[], none⟩,
    .inState .off ⟨[], some ⟨.power, some .dab, []⟩⟩,
    .inState .off ⟨[], some ⟨.band, some .dab, []⟩⟩,
    .inState .on ⟨[], some ⟨.power, some .off, []⟩⟩,
    .inState .dab ⟨[], some ⟨.band, some .fm, []⟩⟩]

def nestedSession : Session Unit Place (List String) Button :=
  .idle (.build .root nested) "radio" "1" [] ()

theorem jammed_forgets :
    let m := (nestedSession.afterAll [.reset, .fire .power, .fire .band, .fire .power]).machine
    let reply := m.fire .band ()
    (3, [4]) ∈ m.history.records ∧
      reply.answer = .ok (.failed ⟨.entry, .on, ⟨"jammed"⟩⟩) ∧
      (∀ mark ∈ reply.trail, mark.enters? ≠ some 3) ∧ reply.machine.history.records = [] := by
  decide +kernel

theorem jammed_cut_short :
    let t := Tree.build .root nested
    let m := (nestedSession.afterAll [.reset, .fire .power, .fire .band, .fire .power]).machine
    (3, [4]) ∈ m.history.records ∧
      ∃ f, (m.fire .band ()).answer = .ok (.failed f) ∧
        t.CutShort .band m.toConfiguration 3 f := by
  intro t m
  have hrecord : (3, [4]) ∈ m.history.records := List.mem_cons_self
  have hlost : (3, [4]) ∉ (m.fire .band ()).machine.history.records := List.not_mem_nil
  have hapart : ∀ mark ∈ (m.fire .band ()).trail, mark.enters? ≠ some 3 := by
    decide +kernel
  have hkept := Session.record_survives_iff Place.root nested "radio" "1" [] ()
    [.reset, .fire .power, .fire .band, .fire .power] 3 [4] hrecord Button.band () [4]
  -- the record is lost though its state is apart, so the transition was cut short
  refine ⟨hrecord, ?_⟩
  by_contra hcut
  exact hlost (hkept.mpr ⟨rfl, hapart, hcut⟩)

end Radio

end StateTree
