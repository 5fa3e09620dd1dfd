import StateTree.Proofs.Run
import StateTree.Proofs.Step.Record
import StateTree.Proofs.Tree.Violations

/-!
Where moves end. The rules demand one initial substate of each target, not of the states below it:
a move ends in a leaf exactly if its descent does not stop at a composite state that is no target.
-/

namespace StateTree

variable {S O E : Type}

namespace Tree

variable {t : Tree S O E}

theorem mem_targets {i : Nat} (hi : i < t.size) {x : Transition S O E}
    (hx : x ∈ (t.node i).transitions) {id : S} {j : Nat} (hk : x.kind = .moves id j) :
    j ∈ t.targets := by
  obtain ⟨n, hn⟩ := List.getElem?_of_mem hx
  exact mem_targets_iff.mpr ⟨⟨i, n, j⟩, ⟨hi, x, id, hn, hk⟩, rfl⟩

/-- A target of an accepted tree is a leaf or has an initial substate. -/
theorem target_descends [DecidableEq S] (hcheck : t.check = []) {i : Nat} (hi : i ∈ t.targets)
    (hnone : t.firstInitial? i = none) : (State.mk t i).isLeaf = true := by
  cases hcomposite : (State.mk t i).isComposite with
  | false => simp only [State.isLeaf, hcomposite, Bool.not_false]
  | true =>
    have hunclear : t.unclearTargets = [] := by
      simp only [check, rules, List.flatMap_cons, List.append_eq_nil_iff] at hcheck
      exact hcheck.2.2.1
    have hno : t.initialIds i = [] := by
      simp only [initialIds, initials, List.map_eq_nil_iff, List.filter_eq_nil_iff]
      intro c hc
      rw [firstInitial?_eq_none_iff.mp hnone c hc]
      exact Bool.false_ne_true
    -- so the target would be a violation
    have hmem : (.targetInitials (t.node i).id [] : Violation S) ∈ t.unclearTargets := by
      refine List.mem_filterMap.mpr ⟨i, List.mem_filter.mpr ⟨hi, hcomposite⟩, ?_⟩
      simp [hno]
    rw [hunclear] at hmem
    exact absurd hmem List.not_mem_nil

/-- All states of an initial line have the same end. -/
theorem lineEnd_of_mem (ht : t.Linked) {i k : Nat} (hi : i < t.size)
    (hk : k ∈ i :: t.initialLine i) : t.lineEnd k = t.lineEnd i := by
  have hall : ∀ k ∈ i :: t.initialLine i, t.lineEnd k = t.lineEnd i := by
    refine upward_initial ht
      (P := fun i => ∀ k ∈ i :: t.initialLine i, t.lineEnd k = t.lineEnd i) ?_ ?_ hi
    · intro i _ hnone k hk
      rw [initialLine_none hnone, List.mem_singleton] at hk
      rw [hk]
    · intro i hi c hc ih k hk
      rw [initialLine_some ht hi hc] at hk
      rcases List.mem_cons.mp hk with rfl | hk
      · rfl
      · rw [lineEnd_some ht hi hc]
        exact ih k hk
  exact hall k hk

/-- The state at `j` is a leaf, or where the initial line of the state at `i` ends. -/
def Ends (t : Tree S O E) (i j : Nat) : Prop := (State.mk t j).isLeaf = true ∨ j = t.lineEnd i

/-- What is active and what is remembered below a state ends in a leaf, or where its initial line
ends. -/
structure Lands (t : Tree S O E) (st : Standing) : Prop where
  active : ∀ leaf, st.active = (t.path leaf).reverse → ∀ k ∈ st.active, t.Ends k leaf
  records : ∀ k chain, st.history.get? k = some chain → t.Ends k (chain.getLast?.getD k)

/-- Where the initial line of a target ends in a leaf, so does what is restored and settled below
it. -/
theorem landing_leaf (ht : t.Linked) {st : Standing} (hst : t.Stands st) (hl : t.Lands st)
    {target : Nat} (htarget : target < t.size)
    (hleaf : (State.mk t (t.lineEnd target)).isLeaf = true) :
    (State.mk t (t.landing target (t.restored target st))).isLeaf = true := by
  -- what is restored ends in a leaf already, or where the line of the target ends anyway
  have hends {j : Nat} (hj : t.Ends target j) : (State.mk t (t.lineEnd j)).isLeaf = true := by
    rcases hj with hj | rfl
    · have hnone : t.firstInitial? j = none := by
        apply firstInitial?_of_leaf
        simpa [State.isLeaf, State.isComposite, State.node] using hj
      rw [lineEnd_none hnone]
      exact hj
    · rw [lineEnd_none (initialLine_leads ht htarget).2]
      exact hleaf
  unfold landing restored
  split
  · split
    · next hm =>
      obtain ⟨leaf, seg, hseg, ha⟩ := active_leads ht hst hm.2
      rw [ha, List.reverse_reverse, filter_below ht hseg, hseg.last]
      exact hends (hl.active leaf ha target hm.2)
    · cases hg : st.history.get? target with
      | none => exact hleaf
      | some chain => exact hends (hl.records target chain hg)
  · exact hleaf

theorem reset_lands (ht : t.Linked) {c : Configuration O} {v : Work O E}
    (h : (t.reset c : Progress S O E) = .going v) : t.Lands v.standing := by
  rw [Work.reset_eq_march ht] at h
  have hreach := reaches_reset ht
  have hv : v.standing.active = (t.path (t.lineEnd 0)).reverse := by
    rw [Work.march_going h]
    exact hreach.2
  obtain ⟨hline, _⟩ := initialLine_leads ht t.size_pos
  constructor
  · intro leaf ha k hk
    -- everything active lies on the initial line of the root
    right
    rw [hv] at ha hk
    have hleaf : t.lineEnd 0 = leaf := path_injective (List.reverse_inj.mp ha)
    rw [List.mem_reverse, hline.path] at hk
    rw [← hleaf, lineEnd_of_mem ht t.size_pos hk]
  · intro k chain hg
    have hnone := reset_records ht c k
    rw [Work.reset_eq_march ht, h] at hnone
    cases hnone.symm.trans hg

variable [DecidableEq S] [EventKind E] {event : E}

/-- Moves end in leaves where the initial lines of all targets do. -/
theorem react_lands (ht : t.Sound)
    (hleaf : ∀ i ∈ t.targets, (State.mk t (t.lineEnd i)).isLeaf = true) {c : Configuration O}
    (hst : t.Stands c.standing) (hl : t.Lands c.standing)
    (hf : ∀ f, (t.react event c).2 = .failed f → f.leavesConsistent = true) :
    t.Lands (t.react event c).1.standing := by
  rcases react_cases t event c with ⟨hq, _⟩ | ⟨x, id, target, hs, hk⟩
  · rw [hq]
    exact hl
  obtain ⟨_, hsource, htarget⟩ := select_bounds ht hst hs hk
  have hmem : target ∈ t.targets := mem_targets hsource (select_mem hs).2 hk
  rcases react_passage ht hst hs hk with ⟨v, f, _, hi, hr⟩ | ⟨v, before, _, ha, hr⟩
  · have hfail := hf f (by rw [hr])
    rw [hi] at hfail
    cases hfail
  · constructor
    · -- whatever was active before, a leaf is innermost now
      intro leaf hpath k _
      rw [hr] at hpath
      have hinner : t.landing target (t.restored target c.standing) = leaf :=
        path_injective (List.reverse_inj.mp (ha.symm.trans hpath))
      left
      rw [← hinner]
      exact landing_leaf ht.toLinked hst hl htarget (hleaf target hmem)
    · -- a state that is left records the rest of the active path
      intro k chain hg
      rcases react_records ht hst hg with hold | ⟨hactive, leaf, hseg, hleft⟩
      · exact hl.records k chain hold
      · rw [hseg.last]
        exact hl.active leaf hleft k hactive

end Tree

namespace Session

variable {W : Type} [DecidableEq S] [StateId S] [EventKind E]

/-- Where a consistent machine moves to, in a tree that the rules accept. The new innermost state is
where the descent from the target ends, on its initial line if nothing is restored. It is a leaf in
all runs if the initial lines of all targets end in leaves. If it is none, it is a composite state
that is no target and has no initial substate. -/
theorem move_descends (root : S) (declarations : List (Declaration S O E))
    (hcheck : (Tree.build root declarations).check = []) (name id : String) (owner : O) (world : W)
    (operations : List (Operation W S O E)) (event : E) (seen : W) (move : Move S) :
    let t := Tree.build root declarations
    let m := ((idle t name id owner world).afterAll operations).machine
    m.isConsistent = true → (m.fire event seen).answer = .ok (.moved move) →
    ∃ target ∈ t.targets, t.place? move.target = some target ∧
      let i := t.landing target (t.restored target m.standing)
      (m.fire event seen).machine.active.head? = some i ∧
      t.state? move.after = some ⟨t, i⟩ ∧
      (t.restored target m.standing = [] → i = t.lineEnd target) ∧
      ((∀ j ∈ t.targets, (State.mk t (t.lineEnd j)).isLeaf = true) → (State.mk t i).isLeaf = true) ∧
      ((State.mk t i).isLeaf = false → i ∉ t.targets ∧ t.firstInitial? i = none) := by
  intro t m hconsistent hmoved
  have ht : t.Sound := Tree.build_sound root declarations
  have hm : m.toMachine.Over t := afterAll_over ht name id owner world operations
  obtain ⟨halive, hnow, _, hreact⟩ := Observed.fire_reacts hm hmoved
  rcases Tree.react_cases t event m.toConfiguration with ⟨_, hq, _⟩ | ⟨x, goal, target, hs, hk⟩
  · rw [← hreact] at hq
    exact hq.elim
  obtain ⟨_, hsource, htarget⟩ := Tree.select_bounds ht hm.stands hs hk
  have hmem : target ∈ t.targets := Tree.mem_targets hsource (Tree.select_mem hs).2 hk
  have hrestored := Tree.restored_leads ht.toLinked hm.stands htarget
  obtain ⟨hlt, hnone⟩ := Tree.landing_settles ht.toLinked hrestored
  rcases Tree.react_passage ht hm.stands hs hk with ⟨v, f, _, _, hr⟩ | ⟨v, before, _, ha, hr⟩
  · -- a reaction that fails is not a move
    rw [hr] at hreact
    cases hreact
  have hactive : (m.fire event seen).machine.active = v.active := by
    rw [show (m.fire event seen).machine.active = _ from congrArg (fun c => c.active) hnow, hr]
    rfl
  rw [hr] at hreact
  cases hreact
  refine ⟨target, hmem, (ht.place _ _).mpr ⟨htarget, rfl⟩, ?_, ?_, ?_, ?_, ?_⟩
  · rw [hactive, ha, List.head?_reverse, Tree.getLast_path]
  · rw [Tree.state?, (ht.place _ _).mpr ⟨hlt, rfl⟩]
    rfl
  · intro hnothing
    rw [hnothing]
    rfl
  · intro hleaf
    have hlands : t.Lands m.standing :=
      afterAll_consistent ht (fun _ _ h => Tree.reset_lands ht.toLinked h)
        (fun _ _ hst hl hf => Tree.react_lands ht hleaf hst hl hf) name id owner world operations
        halive (Option.isNone_iff_eq_none.mp hconsistent)
    exact Tree.landing_leaf ht.toLinked hm.stands hlands htarget (hleaf target hmem)
  · intro hcomposite
    refine ⟨?_, hnone⟩
    intro hi
    -- a target without initial substates would be a leaf
    rw [Tree.target_descends hcheck hi hnone] at hcomposite
    cases hcomposite

end Session

namespace Radio

/-- The only target has one initial substate, which has a substate of its own that is not
initial. -/
def hollow : List (Declaration Place (List String) Button) :=
  [.addToRoot .off ⟨[.initial], none⟩,
    .addToRoot .on ⟨[.substate .dab, .initial, .substate .fm], none⟩,
    .inState .off ⟨[], some ⟨.power, some .on, []⟩⟩]

theorem hollow_strands :
    let t := Tree.build .root hollow
    let m := ((Session.idle t "radio" "1" [] () : Session Unit _ _ _).afterAll [.reset]).machine
    t.check = [] ∧ m.isConsistent = true ∧
      (m.fire .power ()).answer = .ok (.moved ⟨.off, .on, .off, .dab⟩) ∧
      (t.state? .dab).map State.isLeaf = some false := ⟨rfl, rfl, rfl, rfl⟩

theorem band_descends :
    let t := Tree.build .root declarations
    let m := (session.afterAll [.reset, .fire .power]).machine
    t.check = [] ∧ m.isConsistent = true ∧
      (m.fire .band ()).answer = .ok (.moved ⟨.dab, .fm, .dab, .fm⟩) ∧
      ∃ target, t.place? .fm = some target ∧
        t.state? .fm = some ⟨t, t.landing target (t.restored target m.standing)⟩ := by
  intro t m
  have hcheck : t.check = [] := rfl
  have hconsistent : m.isConsistent = true := rfl
  have hanswer : (m.fire .band ()).answer = .ok (.moved ⟨.dab, .fm, .dab, .fm⟩) := rfl
  obtain ⟨target, _, hplace, _, hafter, _⟩ :=
    Session.move_descends Place.root declarations hcheck "radio" "1" [] ()
      [Operation.reset, .fire .power] Button.band () ⟨.dab, .fm, .dab, .fm⟩ hconsistent hanswer
  exact ⟨hcheck, hconsistent, hanswer, target, hplace, hafter⟩

end Radio

end StateTree
