import StateTree.Proofs.Run

/-!
Consistent machines are settled. An entry that succeeds follows initial substates as far as they go,
and only a failure that leaves the machine inconsistent interrupts it.
-/

namespace StateTree

variable {S O E : Type}

namespace Tree

/-- The innermost active state has no initial substate. -/
def Settled (t : Tree S O E) (st : Standing) : Prop :=
  ∃ i < t.size, st.active = (t.path i).reverse ∧ t.firstInitial? i = none

variable {t : Tree S O E}

theorem landing_settled (ht : t.Linked) {target : Nat} {recorded : List Nat}
    (hl : ∃ j, t.Leads target recorded j) {st : Standing}
    (ha : st.active = (t.path (t.landing target recorded)).reverse) : t.Settled st := by
  obtain ⟨hlt, hnone⟩ := landing_settles ht hl
  exact ⟨t.landing target recorded, hlt, ha, hnone⟩

theorem reset_settled (ht : t.Linked) {c : Configuration O} {v : Work O E}
    (h : (t.reset c : Progress S O E) = .going v) : t.Settled v.standing := by
  rw [Work.reset_eq_march ht] at h
  have hv := Work.march_going h
  have hreach := (reaches_reset ht).2
  refine landing_settled ht ⟨0, .refl t.size_pos⟩ ?_
  rw [hv]
  exact hreach

variable [DecidableEq S] [EventKind E] {event : E}

/-- A reaction that does not interrupt a crossing leads from one settled standing to another. -/
theorem react_settled (ht : t.Sound) {c : Configuration O} (hst : t.Stands c.standing)
    (hc : t.Settled c.standing)
    (hf : ∀ f, (t.react event c).2 = .failed f → f.leavesConsistent = true) :
    t.Settled (t.react event c).1.standing := by
  rcases react_cases t event c with ⟨hq, _⟩ | ⟨x, id, target, hs, hk⟩
  · rw [hq]
    exact hc
  · rcases react_passage ht hst hs hk with ⟨v, f, _, hi, hr⟩ | ⟨v, before, _, ha, hr⟩
    · -- the failure interrupted a crossing, which `hf` rules out
      have hfail := hf f (by rw [hr])
      rw [hi] at hfail
      cases hfail
    · -- the move ended where its itinerary leads
      obtain ⟨_, _, htarget⟩ := select_bounds ht hst hs hk
      rw [hr]
      exact landing_settled ht.toLinked (restored_leads ht.toLinked hst htarget) ha

end Tree

namespace Session

variable {W : Type} [DecidableEq S] [StateId S] [EventKind E]

/-- The innermost active state of a live and consistent machine has no initial substate. It is a
leaf, then, where every composite state has one. -/
theorem consistent_settled (root : S) (declarations : List (Declaration S O E)) (name id : String)
    (owner : O) (world : W) (operations : List (Operation W S O E))
    (halive : ((idle (.build root declarations) name id owner world).afterAll
      operations).machine.alive = true)
    (hconsistent : ((idle (.build root declarations) name id owner world).afterAll
      operations).machine.isConsistent = true) :
    let t := Tree.build root declarations
    let m := ((idle t name id owner world).afterAll operations).machine
    ∃ i < t.size, m.active.head? = some i ∧ m.currentState? = some (State.mk t i).id ∧
      (∀ c ∈ (t.node i).children, (t.node c).initial = false) ∧
      ((∀ j < t.size, (State.mk t j).isComposite = true →
          ∃ c ∈ (t.node j).children, (t.node c).initial = true) →
        (State.mk t i).isLeaf = true) := by
  intro t m
  have ht : t.Sound := Tree.build_sound root declarations
  have hm : m.toMachine.Over t := afterAll_over ht name id owner world operations
  have hcons : m.inconsistency = none := Option.isNone_iff_eq_none.mp hconsistent
  have hsettled : t.Settled m.standing :=
    afterAll_consistent ht (fun _ _ h => Tree.reset_settled ht.toLinked h)
      (fun _ _ hst hc hf => Tree.react_settled ht hst hc hf) name id owner world operations
      halive hcons
  obtain ⟨i, hi, ha, hnone⟩ := hsettled
  have hhead : m.active.head? = some i := by
    change m.active = _ at ha
    rw [ha, List.head?_reverse, Tree.getLast_path]
  have hinitials := Tree.firstInitial?_eq_none_iff.mp hnone
  refine ⟨i, hi, hhead, ?_, hinitials, ?_⟩
  · rw [Machine.currentState?, hhead, Option.map_some, Machine.stateId, hm.tree]
    rfl
  · intro hall
    -- a composite state would have an initial substate, which the innermost one has not
    cases hcomposite : (State.mk t i).isComposite with
    | false => simp only [State.isLeaf, hcomposite, Bool.not_false]
    | true =>
      obtain ⟨c, hc, hinitial⟩ := hall i hi hcomposite
      rw [hinitials c hc] at hinitial
      cases hinitial

end Session

namespace Radio

theorem switchedOn_settled :
    let t := Tree.build .root declarations
    let m := (session.afterAll [.reset, .fire .power]).machine
    m.alive = true ∧ m.isConsistent = true ∧
      ∃ i < t.size, m.currentState? = some (State.mk t i).id ∧ (State.mk t i).isLeaf = true := by
  intro t m
  have halive : m.alive = true := rfl
  have hconsistent : m.isConsistent = true := rfl
  have hinitials : ∀ j < t.size, (State.mk t j).isComposite = true →
      ∃ c ∈ (t.node j).children, (t.node c).initial = true := by
    decide
  obtain ⟨i, hi, _, hcurrent, _, hleaf⟩ :=
    Session.consistent_settled Place.root declarations "radio" "1" [] ()
      [Operation.reset, .fire .power] halive hconsistent
  exact ⟨halive, hconsistent, i, hi, hcurrent, hleaf hinitials⟩

end Radio

end StateTree
