import StateTree.Proofs.Run.Restoring
import StateTree.Proofs.Step.Completion

/-!
Entering an active history state again. All that is left on the way out is restored on the way in,
and the records written on the way out are given up again, so the machine is as it was before.
-/

namespace StateTree

variable {S O E : Type}

namespace History

/-- The records of other states than those in `states`. -/
def apart (h : History) (states : List Nat) : History := ⟨h.records.filter fun r => r.1 ∉ states⟩

theorem apart_erase (h : History) {states : List Nat} {i : Nat} (hi : i ∈ states) :
    (h.erase i).apart states = h.apart states := by
  simp only [apart, erase, List.filter_filter]
  congr 1
  apply List.filter_congr
  intro r _
  -- a record of `i` is filtered out on both sides
  by_cases hr : r.1 = i
  · simp [hr, hi]
  · simp [hr]

theorem apart_insert (h : History) {states : List Nat} {i : Nat} (hi : i ∈ states)
    (chain : List Nat) : (h.insert i chain).apart states = h.apart states := by
  rw [← apart_erase h hi]
  simp [apart, insert, hi]

end History

namespace Stride

variable {t : Tree S O E}

/-- The state whose record a stride may change. -/
def touched? : Stride S O E → Option Nat
  | leave i _ | forget i | enter i => some i
  | act _ | restoring _ _ | stuck _ => none

theorem apart_pass {states : List Nat} {s : Stride S O E}
    (h : ∀ i, s.touched? = some i → i ∈ states) (st : Standing) :
    (s.pass t st).history.apart states = st.history.apart states := by
  cases s with
  | leave i below =>
    change (if (t.node i).history && !below.isEmpty then st.history.insert i below
      else st.history).apart states = _
    split
    · exact History.apart_insert _ (h i rfl) below
    · rfl
  | forget i => exact History.apart_erase _ (h i rfl)
  | enter i => exact History.apart_erase _ (h i rfl)
  | act x => rfl
  | restoring i depth => rfl
  | stuck i => rfl

theorem apart_passAll {states : List Nat} {ss : List (Stride S O E)}
    (h : ∀ s ∈ ss, ∀ i, s.touched? = some i → i ∈ states) (st : Standing) :
    (ss.foldl (pass t) st).history.apart states = st.history.apart states := by
  induction ss generalizing st with
  | nil => rfl
  | cons s rest ih =>
    rw [List.foldl_cons, ih (fun s' hs' => h s' (List.mem_cons_of_mem s hs'))]
    exact apart_pass (h s List.mem_cons_self) st

end Stride

namespace Tree

variable {t : Tree S O E}

/-- All records are of states apart from the active ones. -/
theorem Stands.apart_active {st : Standing} (hst : t.Stands st) :
    st.history.apart st.active = st.history := by
  have hall (r : Nat × List Nat) (hr : r ∈ st.history.records) : r.1 ∉ st.active := by
    obtain ⟨chain, hg⟩ := Option.ne_none_iff_exists'.mp (History.get?_ne_none hr)
    exact (hst.records r.1 chain hg).inactive
  have hfilter : (st.history.records.filter fun r => r.1 ∉ st.active) = st.history.records := by
    apply List.filter_eq_self.mpr
    intro r hr
    simpa using hall r hr
  exact congrArg History.mk hfilter

/-- A transition from an active state to an active history state leads back to where it started. -/
theorem itinerary_back (ht : t.Linked) {st : Standing} (hst : t.Stands st) (hc : t.Settled st)
    {x : Candidate S O E} {target : Nat} (hsource : x.state ∈ st.active) (h0 : target ≠ 0)
    (htarget : target ∈ st.active) (hf : (t.node target).history = true) :
    (t.itinerary x target st).foldl (Stride.pass t) st = st := by
  let after := (t.itinerary x target st).foldl (Stride.pass t) st
  obtain ⟨leaf, seg, hl, ha⟩ := active_leads ht hst htarget
  have hin : target < t.size := hl.source_lt ht
  obtain ⟨hfit, hreach⟩ := reaches_itinerary ht hst hsource hin
  have hstands : t.Stands after := hst.passAll ht hfit
  have hrestored : t.restored target st = seg := by
    rw [restored, if_pos hf, if_pos ⟨h0, htarget⟩, ha, List.reverse_reverse, filter_below ht hl]
  -- what was active ends in a settled state, so nothing is entered below it
  have hlanding : t.landing target (t.restored target st) = leaf := by
    obtain ⟨i, _, hi, hnone⟩ := hc
    have hleaf : leaf = i := path_injective (List.reverse_inj.mp (ha.symm.trans hi))
    rw [hrestored, landing, hl.last, hleaf, lineEnd_none hnone]
  have hactive : after.active = st.active := by
    rw [show after.active = _ from hreach, hlanding, ha]
  have htouched : ∀ s ∈ t.itinerary x target st, ∀ i, s.touched? = some i → i ∈ st.active := by
    intro s hs i hi
    cases s with
    | leave k below =>
      cases hi
      exact (leave_mem_itinerary hs).1
    | forget k =>
      cases hi
      exact (forget_mem_itinerary hs).1 ▸ htarget
    | enter k =>
      cases hi
      have hk := enter_mem_itinerary ht hst hsource hin hs
      rw [hlanding] at hk
      rw [ha, List.mem_reverse]
      exact hk
    | act y => cases hi
    | restoring k depth => cases hi
    | stuck k => cases hi
  have hhistory : after.history = st.history := by
    calc after.history = after.history.apart after.active := hstands.apart_active.symm
      _ = after.history.apart st.active := by rw [hactive]
      _ = st.history.apart st.active := Stride.apart_passAll htouched st
      _ = st.history := hst.apart_active
  change after = st
  rw [show after = ⟨after.active, after.history⟩ from rfl, hactive, hhistory]

end Tree

namespace Session

variable {W : Type} [DecidableEq S] [StateId S] [EventKind E]

/-- Where a consistent machine moves to a history state below the root that is active already, the
same states are active afterwards, and the same is remembered. -/
theorem reentry_changes_nothing (root : S) (declarations : List (Declaration S O E))
    (name id : String) (owner : O) (world : W) (operations : List (Operation W S O E)) (event : E)
    (seen : W) (move : Move S) (target : Nat) :
    let t := Tree.build root declarations
    let m := ((idle t name id owner world).afterAll operations).machine
    let reply := m.fire event seen
    m.isConsistent = true → reply.answer = .ok (.moved move) →
    t.place? move.target = some target → target ≠ 0 → target ∈ m.active →
    (t.node target).history = true →
    reply.machine.active = m.active ∧ reply.machine.history = m.history := by
  intro t m reply hconsistent hmoved htarget h0 hactive hflagged
  have ht : t.Sound := Tree.build_sound root declarations
  have hm : m.toMachine.Over t := afterAll_over ht name id owner world operations
  obtain ⟨halive, hnow, _, hreact⟩ := Observed.fire_reacts hm hmoved
  have hsettled : t.Settled m.standing :=
    afterAll_consistent ht (fun _ _ h => Tree.reset_settled ht.toLinked h)
      (fun _ _ hst hc hf => Tree.react_settled ht hst hc hf) name id owner world operations
      halive (Option.isNone_iff_eq_none.mp hconsistent)
  -- the target of the transition is the one that the move names
  obtain ⟨x, goal, place, hs, hk, _, hplace, _⟩ := Tree.react_moved ht hm.stands hreact.symm
  cases hplace.symm.trans htarget
  have hsource : x.state ∈ m.active := (Tree.select_mem hs).1
  have hmoves : ∀ f, (t.react event m.toConfiguration).2 = .failed f →
      f.leavesConsistent = true := by
    intro f hf
    rw [← hreact] at hf
    cases hf
  have hback : reply.machine.standing = m.standing := by
    calc reply.machine.standing = (t.react event m.toConfiguration).1.standing :=
          congrArg Configuration.standing hnow
      _ = (t.itinerary x target m.standing).foldl (Stride.pass t) m.standing :=
          Tree.react_standing ht hm.stands hs hk hmoves
      _ = m.standing :=
          Tree.itinerary_back ht.toLinked hm.stands hsettled hsource h0 hactive hflagged
  exact ⟨congrArg Standing.active hback, congrArg Standing.history hback⟩

end Session

namespace Radio

/-- Does nothing for an owner without lines, and fails for any other. -/
def sticks : Action (List String) Button where
  run lines _ := if lines = [] then (.value (), lines) else (.error ⟨"stuck"⟩, lines ++ ["tried"])

/-- The radio remembers its kind of band, and each kind remembers its band. From a band the band
button leads back to the radio itself. -/
def layered : List (Declaration Place (List String) Button) :=
  [.addToRoot .off ⟨[.initial, .entry sticks], none⟩,
    .addToRoot .on ⟨[.history, .exit sticks], none⟩,
    .addTo .on .dab ⟨[.history, .initial], none⟩,
    .addTo .dab .fm ⟨[], none⟩,
    .inState .off ⟨[], some ⟨.power, some .on, []⟩⟩,
    .inState .on ⟨[], some ⟨.power, some .off, []⟩⟩,
    .inState .dab ⟨[], some ⟨.band, some .fm, []⟩⟩,
    .inState .fm ⟨[], some ⟨.band, some .on, []⟩⟩]

def layeredSession : Session Unit Place (List String) Button :=
  .idle (.build .root layered) "radio" "1" [] ()

theorem layered_reentered :
    let t := Tree.build .root layered
    let m := (layeredSession.afterAll [.reset, .fire .power, .fire .band]).machine
    let reply := m.fire .band ()
    (t.node 2).history = true ∧ m.active = [4, 3, 2, 0] ∧
      reply.answer = .ok (.moved ⟨.fm, .on, .fm, .fm⟩) ∧
      reply.trail.filterMap Mark.crossed? = [4, 3, 2, 2, 2, 3, 4] ∧
      reply.machine.active = m.active ∧ reply.machine.history = m.history := by
  intro t m reply
  have hflagged : (t.node 2).history = true := by decide +kernel
  have hplace : t.place? Place.on = some 2 := by decide +kernel
  have hactive : m.active = [4, 3, 2, 0] := by decide +kernel
  have hmem : 2 ∈ m.active := by
    rw [hactive]
    decide
  have hconsistent : m.isConsistent = true := by decide +kernel
  have hmoved : reply.answer = .ok (.moved ⟨.fm, .on, .fm, .fm⟩) := by decide +kernel
  have hcrossed : reply.trail.filterMap Mark.crossed? = [4, 3, 2, 2, 2, 3, 4] := by
    decide +kernel
  have hsame := Session.reentry_changes_nothing Place.root layered "radio" "1" [] ()
    [Operation.reset, .fire .power, .fire .band] Button.band () ⟨.fm, .on, .fm, .fm⟩ 2 hconsistent
    hmoved hplace (by decide) hmem hflagged
  exact ⟨hflagged, hactive, hmoved, hcrossed, hsame⟩

end Radio

end StateTree
