import StateTree.Proofs.Step.March
import StateTree.Proofs.Tree.Ancestor

/-!
The itinerary of a transition: all its strides, told from the standing at which it is chosen. Taking
the transition is marching along its itinerary.
-/

namespace StateTree

variable {S O E : Type}

namespace Tree

/-- One path is active, and each record goes on from a history state that is not active. -/
structure Recalls (t : Tree S O E) (active : List Nat) (k : Nat) (chain : List Nat) : Prop where
  ne_root : k ≠ 0
  flagged : (t.node k).history = true
  inactive : k ∉ active
  ne_nil : chain ≠ []
  leads : ∃ j, t.Leads k chain j

structure Stands (t : Tree S O E) (st : Standing) : Prop where
  chain : st.active = [] ∨ ∃ i < t.size, st.active = (t.path i).reverse
  records : ∀ k chain, st.history.get? k = some chain → t.Recalls st.active k chain

/-- Leaves the active states below `limit`. -/
def leaving (t : Tree S O E) (limit : Nat) (active : List Nat) : List (Stride S O E) :=
  (active.filter (t.below limit)).map fun i => .leave i (active.reverse.filter (t.below i))

/-- Follows initial substates from the entered state `i`. -/
def settling (t : Tree S O E) (i : Nat) : List (Stride S O E) :=
  (t.initialLine i).map .enter ++
    if (t.node (t.lineEnd i)).isComposite then [.stuck (t.lineEnd i)] else []

/-- Enters what is below the entered state `i`, beginning with the states of a record. -/
def finishing (t : Tree S O E) (i : Nat) (recorded : List Nat) : List (Stride S O E) :=
  (if recorded = [] then [] else [.restoring i recorded.length]) ++
    (recorded.map .enter ++ t.settling (recorded.getLast?.getD i))

def entering (t : Tree S O E) (limit target : Nat) (recorded : List Nat) : List (Stride S O E) :=
  (if (t.node target).history then [.forget target] else []) ++
    (((t.path target).filter (t.below limit)).map .enter ++ t.finishing target recorded)

/-- What is entered again below a history state: what is active below it if it is left now, or else
what it remembers. -/
def restored (t : Tree S O E) (target : Nat) (st : Standing) : List Nat :=
  if (t.node target).history then
    if target ≠ 0 ∧ target ∈ st.active then st.active.reverse.filter (t.below target)
    else (st.history.get? target).getD []
  else []

def itinerary (t : Tree S O E) (c : Candidate S O E) (target : Nat) (st : Standing) :
    List (Stride S O E) :=
  let limit := t.commonAncestor c.state target
  t.leaving limit st.active ++ .act c :: t.entering limit target (t.restored target st)

variable {t : Tree S O E}

theorem settling_some (ht : t.Linked) {i c : Nat} (hi : i < t.size)
    (h : t.firstInitial? i = some c) : t.settling i = .enter c :: t.settling c := by
  simp only [settling, initialLine_some ht hi h, lineEnd_some ht hi h, List.map_cons,
    List.cons_append]

theorem settling_none {i : Nat} (h : t.firstInitial? i = none) :
    t.settling i = if (t.node i).isComposite then [.stuck i] else [] := by
  simp [settling, initialLine_none h, lineEnd_none h]

theorem active_leads (ht : t.Linked) {st : Standing} (hst : t.Stands st) {k : Nat}
    (hk : k ∈ st.active) :
    ∃ leaf seg, t.Leads k seg leaf ∧ st.active = (t.path leaf).reverse := by
  rcases hst.chain with hn | ⟨leaf, hleaf, ha⟩
  · rw [hn] at hk
    exact absurd hk List.not_mem_nil
  · rw [ha, List.mem_reverse] at hk
    obtain ⟨seg, hl⟩ := (mem_path_iff ht hleaf).mp hk
    exact ⟨leaf, seg, hl, ha⟩

theorem restored_leads (ht : t.Linked) {st : Standing} (hst : t.Stands st) {target : Nat}
    (htarget : target < t.size) : ∃ j, t.Leads target (t.restored target st) j := by
  unfold restored
  split
  · split
    · next hm =>
      obtain ⟨leaf, seg, hl, ha⟩ := active_leads ht hst hm.2
      rw [ha, List.reverse_reverse, filter_below ht hl]
      exact ⟨leaf, hl⟩
    · cases hg : st.history.get? target with
      | none => exact ⟨target, .refl htarget⟩
      | some chain => exact (hst.records target chain hg).leads
  · exact ⟨target, .refl htarget⟩

end Tree

namespace Stride

variable {t : Tree S O E}

theorem active_enters (is : List Nat) (st : Standing) :
    ((is.map (Stride.enter : Nat → Stride S O E)).foldl (pass t) st).active =
      is.reverse ++ st.active := by
  induction is generalizing st with
  | nil => rfl
  | cons i is ih =>
    rw [List.map_cons, List.foldl_cons, ih, List.reverse_cons, List.append_assoc]
    rfl

theorem active_leaves (js : List Nat) (f : Nat → List Nat) (st : Standing) :
    ((js.map fun j => (leave j (f j) : Stride S O E)).foldl (pass t) st).active =
      st.active.drop js.length := by
  induction js generalizing st with
  | nil => rfl
  | cons j js ih =>
    rw [List.map_cons, List.foldl_cons, ih, List.length_cons, ← List.drop_tail]
    rfl

/-- Leaving a state writes the record of that state only. -/
theorem history_leave (i : Nat) (below : List Nat) (st : Standing) (k : Nat) :
    (pass t st (leave i below : Stride S O E)).history.get? k =
      if k = i ∧ (t.node k).history = true ∧ below ≠ [] then some below
      else st.history.get? k := by
  change (if (t.node i).history && !below.isEmpty then st.history.insert i below
    else st.history).get? k = _
  by_cases hk : k = i
  · subst hk
    by_cases hf : (t.node k).history = true ∧ below ≠ []
    · simp [hf, History.get?_insert]
    · have hb : ((t.node k).history && !below.isEmpty) = false := by
        simpa [Bool.and_eq_true] using hf
      simp [hb, hf]
  · split
    · rw [History.get?_insert, if_neg hk, if_neg (fun h => hk h.1)]
    · rw [if_neg (fun h => hk h.1)]

/-- Each history state that is left with a state below it has a record of its own afterwards. -/
theorem history_leaves (js : List Nat) (f : Nat → List Nat) (st : Standing) (k : Nat) :
    ((js.map fun j => (leave j (f j) : Stride S O E)).foldl (pass t) st).history.get? k =
      if k ∈ js ∧ (t.node k).history = true ∧ f k ≠ [] then some (f k)
      else st.history.get? k := by
  induction js generalizing st with
  | nil => simp
  | cons j js ih =>
    rw [List.map_cons, List.foldl_cons, ih, history_leave]
    by_cases hj : k = j
    · subst hj
      by_cases hf : (t.node k).history = true ∧ f k ≠ []
      · simp [hf]
      · simp [hf]
    · simp [hj]

end Stride

namespace Work

variable {t : Tree S O E} {event : Option E}

theorem leave_eq_stride {w : Work O E} {i : Nat} {below rest : List Nat}
    (h : w.active = i :: rest) :
    (w.run (t.node i).exit event (.exit i) .exit (t.node i).id).andThen
        (fun w => .going (w.leave t i below rest)) = w.stride t event (.leave i below) := by
  rw [run_eq_call]
  apply Progress.andThen_congr
  intro v hv
  -- the exit action does not change what is active
  have hst : v.standing = w.standing := by
    have hc := call_standing event w ((Stride.leave i below).call? t)
    rw [show w.call event ((Stride.leave i below).call? t) = .going v from hv] at hc
    exact hc
  have ha : v.active = i :: rest := (congrArg Standing.active hst).trans h
  simp only [leave, settle, stand, Stride.after, Stride.mark?, Configuration.standing, ha,
    List.tail_cons, Option.toList_some]

theorem enter_eq_stride (w : Work O E) (i : Nat) :
    (w.enter t event i : Progress S O E) = w.stride t event (.enter i) := by
  simp only [enter, run_eq_call]
  rfl

theorem act_eq_stride (w : Work O E) (c : Candidate S O E) :
    w.run c.transition.action event (.action c.state c.position) .action (t.node c.state).id =
      w.stride t event (.act c) := by
  have hsettle (v : Work O E) : v.settle t (.act c) = v := by
    simp [settle, stand, Stride.after, Stride.mark?, Configuration.standing]
  rw [run_eq_call]
  simp only [stride, hsettle]
  change _ = Progress.andThen (w.call event ((Stride.act c).call? t)) .going
  cases h : w.call event ((Stride.act c).call? t) with
  | going v => exact h
  | stopped v f => exact h

theorem forget_eq_settle (w : Work O E) (i : Nat) :
    { w with history := w.history.erase i } = w.settle t (.forget i : Stride S O E) := by
  simp [settle, stand, Stride.after, Stride.mark?, Configuration.standing]

theorem enterAll_eq_march (w : Work O E) (is : List Nat) :
    (w.enterAll t event is : Progress S O E) = w.march t event (is.map .enter) := by
  induction is generalizing w with
  | nil => rfl
  | cons i is ih =>
    simp only [enterAll, List.map_cons, march, enter_eq_stride]
    exact Progress.andThen_congr fun v _ => ih v

/-- Enough steps of the descent follow the whole line of initial substates. -/
theorem descend_eq_march (ht : t.Linked) {n i : Nat} (hi : i < t.size) (hn : t.size ≤ n + i)
    (w : Work O E) : (w.descend t event n i : Progress S O E) = w.march t event (t.settling i) := by
  -- the descent reaches a later place with each step, so it does not run out of steps
  induction n generalizing i w with
  | zero => omega
  | succ n ih =>
    simp only [descend]
    cases hc : t.firstInitial? i with
    | some c =>
      have hl := Tree.firstInitial?_leads ht hi hc
      have hlt := hl.mem_increasing ht (List.mem_singleton_self c)
      have hcomp : (t.node i).isComposite = true := by
        cases h : (t.node i).isComposite with
        | true => rfl
        | false =>
          rw [Tree.firstInitial?_of_leaf h] at hc
          cases hc
      rw [if_pos hcomp, Tree.settling_some ht hi hc, march, ← enter_eq_stride]
      exact Progress.andThen_congr fun v _ => ih hl.lt (by omega) v
    | none =>
      rw [Tree.settling_none hc]
      split
      · rfl
      · rfl

theorem enterBelow_eq_march (ht : t.Linked) {i : Nat} (hi : i < t.size) {recorded : List Nat}
    (hl : ∃ j, t.Leads i recorded j) (w : Work O E) :
    (w.enterBelow t event i (if recorded = [] then none else some recorded) : Progress S O E) =
      w.march t event (t.finishing i recorded) := by
  obtain ⟨j, hj⟩ := hl
  by_cases hr : recorded = []
  · -- without a record only initial substates are entered
    subst hr
    exact descend_eq_march ht hi (Nat.le_add_right _ _) w
  · simp only [enterBelow, Tree.finishing, if_neg hr, List.singleton_append]
    change _ = (w.note (.restoring i recorded.length)).march t event
      (recorded.map .enter ++ t.settling (recorded.getLast?.getD i))
    rw [enterAll_eq_march, march_append, hj.last]
    exact Progress.andThen_congr fun v _ => descend_eq_march ht hj.lt (Nat.le_add_right _ _) v

/-- The states of the active path below `limit` are left one after the other. -/
theorem leaveTo_eq_march (ht : t.Linked) {limit i leaf : Nat} {seg below : List Nat}
    (hlimit : t.Leads limit seg i) (hleaf : t.Leads i below leaf) {w : Work O E}
    (hw : w.active = (t.path i).reverse) :
    (w.leaveTo t event limit below (t.path i).reverse : Progress S O E) =
      w.march t event (((t.path i).reverse.filter (t.below limit)).map fun j =>
        .leave j ((t.path leaf).filter (t.below j))) := by
  induction i using Nat.strongRecOn generalizing seg below w with
  | ind i ih =>
    have hi := hlimit.lt
    obtain ⟨above, ha⟩ := t.path_eq_init i
    have hfilter : (t.path i).reverse.filter (t.below limit) = seg.reverse := by
      rw [List.filter_reverse, Tree.filter_below ht hlimit]
    by_cases he : i = limit
    · subst he
      rw [hfilter, hlimit.unique (.refl hlimit.lt), ha, List.reverse_concat]
      simp only [leaveTo, true_or, if_true, List.reverse_nil, List.map_nil, march]
    · -- the innermost state is left, and its parent is the innermost one then
      have hne : seg ≠ [] := fun hn => he (hn ▸ hlimit).eq_of_nil.symm
      have hlt := Tree.below_lt ht hlimit.lt ((Tree.below_iff ht hlimit.lt).mpr ⟨seg, hne, hlimit⟩)
      obtain ⟨p, hp, hparent⟩ := ht.parent i (by omega) hlimit.lt
      have hchild := Tree.Leads.child ht hlimit.lt hparent
      have hrev : (t.path i).reverse = i :: (t.path p).reverse := by
        rw [hchild.path, List.reverse_concat]
      have hmem : limit ∈ t.path p := by
        have hm : limit ∈ t.path i := (Tree.mem_path_iff ht hlimit.lt).mpr ⟨seg, hlimit⟩
        rw [hchild.path, List.mem_append, List.mem_singleton] at hm
        exact hm.resolve_right (Ne.symm he)
      obtain ⟨seg', hseg'⟩ := (Tree.mem_path_iff ht (by omega)).mp hmem
      have hb : t.below limit i = true := (Tree.below_iff ht hlimit.lt).mpr ⟨seg, hne, hlimit⟩
      have hstop : ¬ (i = limit ∨ i = 0) := by omega
      rw [hrev] at hw ⊢
      simp only [leaveTo, if_neg hstop, List.filter_cons_of_pos hb, List.map_cons, march]
      rw [Tree.filter_below ht hleaf, ← leave_eq_stride hw, Progress.andThen_assoc]
      apply Progress.andThen_congr
      intro v _
      exact ih p hp hseg' (hchild.trans hleaf) rfl

/-- Once the states below `limit` are left, the target remembers what will be restored. -/
theorem record?_of_left {limit target : Nat} {st : Standing} (hst : t.Stands st)
    (hbelow : target ≠ 0 → t.below limit target = true) {w : Work O E}
    (hw : w.standing = (t.leaving limit st.active : List (Stride S O E)).foldl (Stride.pass t) st) :
    w.record? t target =
      if t.restored target st = [] then none else some (t.restored target st) := by
  have hhist : w.history.get? target = _ :=
    (congrArg (fun st => st.history.get? target) hw).trans (Stride.history_leaves _ _ st target)
  simp only [record?, Tree.restored]
  by_cases hf : (t.node target).history = true
  · rw [if_pos hf, hhist]
    simp only [hf, if_true, true_and]
    by_cases hm : target ≠ 0 ∧ target ∈ st.active
    · have hleft : target ∈ st.active.filter (t.below limit) :=
        List.mem_filter.mpr ⟨hm.2, hbelow hm.1⟩
      simp only [hm, hleft, true_and, and_self, if_true, ne_eq, not_false_eq_true]
      by_cases hn : st.active.reverse.filter (t.below target) = []
      · -- an active state has no record from before
        simp only [hn, not_true_eq_false, if_false, if_true]
        cases hg : st.history.get? target with
        | none => rfl
        | some chain => exact absurd hm.2 (hst.records target chain hg).inactive
      · simp only [hn, not_false_eq_true, if_true, if_false]
    · -- the record is the old one, since the target is not among the states that were left
      have hleft : target ∉ st.active.filter (t.below limit) := by
        intro h
        obtain ⟨ha, hb⟩ := List.mem_filter.mp h
        have h0 : target = 0 := by
          by_cases h0 : target = 0
          · exact h0
          · exact absurd ⟨h0, ha⟩ hm
        rw [h0] at hb
        cases hb
      simp only [hm, hleft, false_and, if_false]
      cases hg : st.history.get? target with
      | none => rfl
      | some chain =>
        have hne := (hst.records target chain hg).ne_nil
        simp [hne]
  · simp [hf]

/-- Entering a target, with what it remembers, is a march. -/
theorem enterTarget_eq_march (ht : t.Linked) {limit target : Nat} {seg recorded : List Nat}
    (hlimit : t.Leads limit seg target) (hrec : ∃ j, t.Leads target recorded j) {w : Work O E}
    (hw : w.record? t target = if recorded = [] then none else some recorded) :
    (w.enterTarget t event limit target : Progress S O E) =
      w.march t event (t.entering limit target recorded) := by
  have hrest (v : Work O E) :
      (v.enterAll t event (t.pathBelow limit target)).andThen
          (enterBelow t event target (if recorded = [] then none else some recorded)) =
        v.march t event
          (((t.path target).filter (t.below limit)).map .enter ++ t.finishing target recorded) := by
    rw [enterAll_eq_march, march_append, Tree.pathBelow_eq ht hlimit, Tree.filter_below ht hlimit]
    exact Progress.andThen_congr fun u _ => enterBelow_eq_march ht hlimit.lt hrec u
  simp only [enterTarget, hw, Tree.entering]
  split
  · rw [hrest, forget_eq_settle (t := t)]
    rfl
  · rw [hrest]
    rfl

/-- Taking a transition is marching along its itinerary. -/
theorem cross_eq_march (ht : t.Linked) {e : E} {c : Candidate S O E} {target : Nat} {w : Work O E}
    (hst : t.Stands w.standing) (hsource : c.state ∈ w.active) (htarget : target < t.size) :
    w.cross t e c target = w.march t (some e) (t.itinerary c target w.standing) := by
  obtain ⟨leaf, seg, hl, ha⟩ := Tree.active_leads ht hst hsource
  -- both the source and the target lie below the limit, or are the limit
  obtain ⟨⟨xs, hxs⟩, ⟨ys, hys⟩⟩ := Tree.commonAncestor_leads ht (hl.source_lt ht) htarget
  have hleave : (w.leaveTo t (some e) (t.commonAncestor c.state target) [] w.active) =
      w.march t (some e) (t.leaving (t.commonAncestor c.state target) w.active) := by
    change w.active = _ at ha
    rw [ha, leaveTo_eq_march ht (hxs.trans hl) (.refl hl.lt) ha, Tree.leaving, List.reverse_reverse]
  have hact : (fun v : Work O E =>
      v.run c.transition.action (some e) (.action c.state c.position) .action (t.node c.state).id) =
      march t (some e) [.act c] :=
    funext fun v => (act_eq_stride v c).trans (march_singleton _ v).symm
  simp only [cross, Tree.itinerary]
  -- what the target remembers is looked up after the exits, but told from the standing before
  rw [hleave, hact, List.append_cons, march_append, march_append]
  apply Progress.andThen_congr
  intro v hv
  refine enterTarget_eq_march ht hys (Tree.restored_leads ht hst htarget) ?_
  apply record?_of_left hst
    (Tree.commonAncestor_below_target ht (hl.source_lt ht) htarget)
  rw [← march_append] at hv
  rw [march_going hv, List.foldl_append]
  rfl

/-- A reset is a march from nothing. -/
theorem reset_eq_march (ht : t.Linked) (c : Configuration O) :
    t.reset c = (start { c with active := [], history := .empty } : Work O E).march t none
      (.enter 0 :: t.settling 0) := by
  simp only [Tree.reset, march, enter_eq_stride]
  apply Progress.andThen_congr
  intro v _
  exact enterBelow_eq_march ht t.size_pos ⟨0, .refl t.size_pos⟩ v

end Work

end StateTree
