import Mathlib.Data.List.Chain
import StateTree.Proofs.Run

/-!
The active chain over whole runs. It is a path from the root at all times, no reaction crosses the
root, and only a reset whose first entry fails leaves nothing active.
-/

namespace StateTree

variable {S O E : Type}

namespace Tree

/-- A chain of places of the tree that begins with the root and goes from each state to one of its
substates. -/
structure RootedPath (t : Tree S O E) (chain : List Nat) : Prop where
  inside : ∀ i ∈ chain, i < t.size
  root : chain.head? = some 0
  steps : chain.IsChain fun i j => j ∈ (t.node i).children

variable {t : Tree S O E}

theorem path_rooted (ht : t.Linked) {i : Nat} (hi : i < t.size) : t.RootedPath (t.path i) := by
  refine downward ht (P := fun i => t.RootedPath (t.path i)) ?_ ?_ hi
  · refine ⟨?_, rfl, List.isChain_singleton 0⟩
    intro j hj
    rw [List.mem_singleton.mp hj]
    exact t.size_pos
  · intro i hi p hlt hparent ih
    -- the path to the parent is rooted, and the state is a child of where it ends
    obtain ⟨hinside, hroot, hsteps⟩ := ih
    have hchild : i ∈ (t.node p).children := (mem_children_iff ht (by omega)).mpr ⟨hi, hparent⟩
    rw [path_child ht hi hparent]
    refine ⟨?_, ?_, ?_⟩
    · intro j hj
      rcases List.mem_append.mp hj with hj | hj
      · exact hinside j hj
      · rw [List.mem_singleton.mp hj]
        exact hi
    · rw [List.head?_append, hroot, Option.some_or]
    · refine List.isChain_append.mpr ⟨hsteps, List.isChain_singleton i, ?_⟩
      intro a ha b hb
      rw [getLast_path] at ha
      cases ha
      cases hb
      exact hchild

theorem Stands.rooted (ht : t.Linked) {st : Standing} (h : t.Stands st) :
    st.active = [] ∨ t.RootedPath st.active.reverse := by
  rcases h.chain with hn | ⟨i, hi, ha⟩
  · exact Or.inl hn
  · rw [ha, List.reverse_reverse]
    exact Or.inr (path_rooted ht hi)

/-- After a reset something is active, unless the entry action of the root failed. -/
theorem reset_cases (ht : t.Linked) (c : Configuration O) :
    (t.reset c : Progress S O E).work.active ≠ [] ∨
      ∃ a e, t.root.entry = some a ∧ (a.run c.owner none).1.settle = .error e ∧
        (t.reset c).failure? = some ⟨.entry, t.root.id, e⟩ := by
  let w : Work O E := .start { c with active := [], history := .empty }
  rw [Work.reset_eq_march ht, Work.march]
  cases hs : w.stride t none (.enter 0) with
  | going v =>
    -- the root is active now, and no stride after this one leaves it
    refine Or.inl (Work.march_active ht ?_ ?_)
    · change v.standing.active ≠ []
      rw [Work.stride_going hs]
      exact List.cons_ne_nil _ _
    · rw [Work.stride_going hs]
      exact (reaches_reset ht).1.2
  | stopped v f =>
    have hnode : t.node 0 = t.root := node_of_getElem? (Array.getElem?_eq_getElem t.size_pos)
    obtain ⟨_, call, e, hcall, he, hf⟩ := Work.stride_stopped hs
    obtain ⟨a, ha, hd⟩ := Option.map_eq_some_iff.mp hcall
    rw [hnode] at ha hd
    subst hd
    exact Or.inr ⟨a, e, ha, he, congrArg some hf⟩

variable [DecidableEq S] [EventKind E] {event : E}

/-- A reaction crosses other states than the root only, and leaves something active if something
was. -/
theorem react_apart (ht : t.Sound) {c : Configuration O} (hst : t.Stands c.standing) :
    (c.active ≠ [] → (t.react event c).1.active ≠ []) ∧
      ∀ mark ∈ (t.react event c).1.trail, mark.crossed? ≠ some 0 := by
  rcases react_cases t event c with ⟨hq, _, hmarks⟩ | ⟨x, id, target, hs, hk⟩
  · refine ⟨?_, ?_⟩
    · intro hc
      change (t.react event c).1.standing.active ≠ []
      rw [hq]
      exact hc
    · intro mark hm
      rw [hmarks mark hm]
      nofun
  · -- a transition is selected from an active state, so something is active
    have hfit := (passage_fits ht hst hs hk).1
    have hw : (t.select event c).1.active ≠ [] := by
      change (t.select event c).1.standing.active ≠ []
      rw [select_standing]
      exact List.ne_nil_of_mem (select_mem hs).1
    obtain ⟨hwork, last, htrail, hlast⟩ := react_work ht hst hs hk
    refine ⟨?_, ?_⟩
    · intro _
      rw [congrArg Configuration.active hwork]
      exact Work.march_active ht.toLinked hw hfit
    · intro mark hm
      rw [htrail, List.mem_append] at hm
      rcases hm with hm | hm
      · rcases Work.march_crossed ht.toLinked hw hfit hm with hm | hm
        · -- the search for the transition calls guards only
          rw [select_marks hm]
          nofun
        · exact hm
      · rw [(hlast mark hm).2]
        nofun

end Tree

namespace Work

/-- What a list holds from place `n` on, if it is as long as that. -/
def slice? (as : List Nat) (n : Nat) : Option (List Nat) :=
  if n ≤ as.length then some (as.drop n) else none

/-- Leaves states as `leaveTo` does, but looks the states left so far up in `snapshot`, the chain
before the first one was left, root first. There is no result where a slice is out of bounds. -/
def leaveSlicing (t : Tree S O E) (event : Option E) (limit : Nat) (snapshot : List Nat) :
    List Nat → Work O E → Option (Progress S O E)
  | [], w => some (.going w)
  | i :: rest, w =>
    if i = limit ∨ i = 0 then some (.going w)
    else
      match w.run (t.node i).exit event (.exit i) .exit (t.node i).id with
      | .stopped w f => some (.stopped w f)
      | .going w =>
        match slice? snapshot (rest.length + 1) with
        | none => none
        | some below => leaveSlicing t event limit snapshot rest (w.leave t i below rest)

theorem slice?_append (as bs : List Nat) {n : Nat} (h : n = as.length) :
    slice? (as ++ bs) n = some bs := by
  subst h
  simp [slice?]

/-- The slices are in bounds, and hold the states that were left. -/
theorem leaveSlicing_eq (t : Tree S O E) (event : Option E) (limit : Nat)
    (chain below : List Nat) (w : Work O E) :
    leaveSlicing t event limit (chain.reverse ++ below) chain w =
      some (leaveTo t event limit below chain w) := by
  -- the snapshot always is what is still active, and after it what was left
  induction chain generalizing below w with
  | nil => rfl
  | cons i rest ih =>
    simp only [leaveSlicing, leaveTo]
    split
    · rfl
    · have hslice : slice? ((i :: rest).reverse ++ below) (rest.length + 1) = some below :=
        slice?_append _ _ (by simp)
      cases w.run (t.node i).exit event (.exit i) .exit (t.node i).id with
      | stopped v f => rfl
      | going v =>
        simp only [hslice, Progress.andThen]
        rw [List.reverse_cons, List.append_assoc]
        exact ih (i :: below) _

end Work

namespace Session

variable {W : Type} [StateId S] [EventKind E]

/-- Without a reset no operation takes the last active state away. -/
theorem afterAll_active [DecidableEq S] {t : Tree S O E} (ht : t.Sound)
    {operations : List (Operation W S O E)} (hn : Operation.reset ∉ operations)
    {s : Session W S O E} (hs : s.machine.toMachine.Over t) (ha : s.machine.active ≠ []) :
    (s.afterAll operations).machine.active ≠ [] := by
  have hkeep : (s.afterAll operations).machine.toMachine.Over t ∧
      (s.afterAll operations).machine.active ≠ [] := by
    refine afterAll_keeps (P := fun m => m.Over t ∧ m.active ≠ []) ?_ ?_ ?_ ⟨hs, ha⟩
    · -- there is no reset to consider
      intro hm
      exact absurd hm hn
    · intro m event halive hm
      refine ⟨hm.1.react ht event, ?_⟩
      change (m.tree.react event m.toConfiguration).1.active ≠ []
      rw [hm.1.tree]
      exact (Tree.react_apart ht hm.1.stands).1 hm.2
    · intro m f hm
      exact ⟨hm.1.modifyOwner f, hm.2⟩
  exact hkeep.2

/-- Where nothing is active, the last reset failed at the root's own entry action. -/
theorem afterAll_empty [DecidableEq S] {t : Tree S O E} (ht : t.Sound) {s : Session W S O E}
    (hs : ∀ operations, (s.afterAll operations).machine.toMachine.Over t)
    {operations : List (Operation W S O E)} (hn : (s.afterAll operations).machine.active = []) :
    Operation.reset ∉ operations ∨
      ∃ earlier later, operations = earlier ++ .reset :: later ∧ Operation.reset ∉ later ∧
        ∃ a e, t.root.entry = some a ∧
          (a.run (s.afterAll earlier).machine.owner none).1.settle = .error e ∧
          ((s.afterAll earlier).machine.reset (s.afterAll earlier).world).answer =
            some ⟨.entry, t.root.id, e⟩ := by
  by_cases hr : Operation.reset ∈ operations
  · right
    obtain ⟨earlier, later, hops, hlater⟩ := Operation.last_reset hr
    refine ⟨earlier, later, hops, hlater, ?_⟩
    have hover := hs earlier
    rcases Tree.reset_cases ht.toLinked (s.afterAll earlier).machine.toConfiguration
      with ha | ⟨a, e, ha, he, hf⟩
    · -- what the reset made active would be active still
      have hafter : ((s.afterAll earlier).after .reset).machine.active ≠ [] := by
        change (((s.afterAll earlier).machine.tree.reset _).work).active ≠ []
        rw [hover.tree]
        exact ha
      rw [hops, afterAll_append] at hn
      exact absurd hn (afterAll_active ht hlater (hover.reset ht.toLinked) hafter)
    · refine ⟨a, e, ha, he, ?_⟩
      change ((s.afterAll earlier).machine.tree.reset _).failure? = _
      rw [hover.tree]
      exact hf
  · exact Or.inl hr

theorem fire_apart [DecidableEq S] {t : Tree S O E} (ht : t.Sound) {m : Observed W S O E}
    (hm : m.toMachine.Over t) (event : E) (world : W) :
    ∀ mark ∈ (m.fire event world).trail, mark.crossed? ≠ some 0 := by
  intro mark hmark
  rcases m.fire_cases event world with ⟨_, htrail, _⟩ | ⟨_, _, htrail, _⟩
  · rw [htrail] at hmark
    exact absurd hmark List.not_mem_nil
  · rw [htrail] at hmark
    change mark ∈ (m.tree.react event m.toConfiguration).1.trail at hmark
    rw [hm.tree] at hmark
    exact (Tree.react_apart ht hm.stands).2 mark hmark

/-- The active chain of a machine, after any operations: it is a path from the root, or empty after
a reset that failed at the root; no event crosses the root; and a transition that is taken goes by
an ancestor that is active and on the path to the target. -/
theorem chain_rooted [DecidableEq S] (root : S) (declarations : List (Declaration S O E))
    (name id : String) (owner : O) (world : W) (operations : List (Operation W S O E)) :
    let t := Tree.build root declarations
    let start := idle t name id owner world
    let m := (start.afterAll operations).machine
    (m.active = [] ∨ t.RootedPath m.active.reverse) ∧
    (m.active = [] →
      Operation.reset ∉ operations ∨
        ∃ earlier later, operations = earlier ++ .reset :: later ∧ Operation.reset ∉ later ∧
          ∃ a e, t.root.entry = some a ∧
            (a.run (start.afterAll earlier).machine.owner none).1.settle = .error e ∧
            ((start.afterAll earlier).machine.reset (start.afterAll earlier).world).answer =
              some ⟨.entry, t.root.id, e⟩) ∧
    (∀ event world, ∀ mark ∈ (m.fire event world).trail, mark.crossed? ≠ some 0) ∧
    ∀ event x id target, (t.select event m.toConfiguration).2 = .ok (some x) →
      x.transition.kind = .moves id target →
      let limit := t.commonAncestor x.state target
      let w := (t.select event m.toConfiguration).1
      limit ∈ m.active ∧ limit ∈ t.path target ∧ w.active = m.active ∧
      Work.leaveSlicing t (some event) limit w.active.reverse w.active w =
        some (w.leaveTo t (some event) limit [] w.active) ∧
      (w.cross t event x target).work.active ≠ [] := by
  intro t start m
  have ht : t.Sound := Tree.build_sound root declarations
  have hover (operations : List (Operation W S O E)) :
      (start.afterAll operations).machine.toMachine.Over t :=
    afterAll_over ht name id owner world operations
  have hm : m.toMachine.Over t := hover operations
  refine ⟨hm.stands.rooted ht.toLinked, ?_, ?_, ?_⟩
  · intro hn
    exact afterAll_empty ht hover hn
  · intro event world
    exact fire_apart ht hm event world
  · intro event x id target hs hk limit w
    obtain ⟨hsource, hx, htarget⟩ := Tree.select_bounds ht hm.stands hs hk
    have hw : w.standing = m.standing := Tree.select_standing m.toConfiguration
    have hactive : w.active = m.active := congrArg Standing.active hw
    -- the source is active and the limit is on the path to it
    obtain ⟨⟨xs, hxs⟩, hpath⟩ := Tree.commonAncestor_leads ht.toLinked hx htarget
    have hlimit : limit ∈ m.active := by
      obtain ⟨leaf, seg, hl, ha⟩ := Tree.active_leads ht.toLinked hm.stands hsource
      change m.active = _ at ha
      rw [ha, List.mem_reverse]
      exact (Tree.mem_path_iff ht.toLinked hl.lt).mpr ⟨_, hxs.trans hl⟩
    refine ⟨hlimit, (Tree.mem_path_iff ht.toLinked htarget).mpr hpath, hactive, ?_, ?_⟩
    · have hslices := Work.leaveSlicing_eq t (some event) limit w.active [] w
      rw [List.append_nil] at hslices
      exact hslices
    · rw [Tree.cross_eq_passage ht hm.stands hs hk]
      refine Work.march_active ht.toLinked ?_ (Tree.passage_fits ht hm.stands hs hk).1
      rw [hactive]
      exact List.ne_nil_of_mem hsource

end Session

end StateTree
