import StateTree.Proofs.Tree.Renaming
import StateTree.Step

/-!
Steps over two trees that are the same up to the places of their states. The step over one tree is
that over the other with every place renamed: in the active chain, in what history states remember
and in the trail. Host code is called with the same owners and events, and fails at the same points.
-/

namespace StateTree

variable {S O E : Type}

def Site.rename (f : Nat → Nat) : Site → Site
  | guard i position => guard (f i) position
  | exit i => exit (f i)
  | action i position => action (f i) position
  | entry i => entry (f i)

def Mark.rename (f : Nat → Nat) : Mark E → Mark E
  | called site event => called (site.rename f) event
  | unmatched event => unmatched event
  | stayed i => stayed (f i)
  | exited i => exited (f i)
  | restoring i depth => restoring (f i) depth
  | entered i => entered (f i)
  | stuck i => stuck (f i)
  | moved source target before after => moved (f source) (f target) (f before) (f after)

def History.rename (f : Nat → Nat) (h : History) : History :=
  ⟨h.records.map fun r => (f r.1, r.2.map f)⟩

def Configuration.rename (f : Nat → Nat) (c : Configuration O) : Configuration O :=
  ⟨c.owner, c.active.map f, c.history.rename f⟩

def Work.rename (f : Nat → Nat) (w : Work O E) : Work O E :=
  ⟨w.toConfiguration.rename f, w.trail.map (Mark.rename f)⟩

def Progress.rename (f : Nat → Nat) : Progress S O E → Progress S O E
  | going w => going (w.rename f)
  | stopped w e => stopped (w.rename f) e

namespace History

variable {f : Nat → Nat} (hf : f.Injective)

include hf

theorem rename_get? (h : History) (i : Nat) :
    (h.rename f).get? (f i) = (h.get? i).map (List.map f) := by
  have hr (rs : List (Nat × List Nat)) :
      (rs.map fun r => (f r.1, r.2.map f)).lookup (f i) = (rs.lookup i).map (List.map f) := by
    induction rs with
    | nil => rfl
    | cons r rs ih =>
      rw [List.map_cons, List.lookup_cons, List.lookup_cons, hf.beq_eq, ih]
      cases i == r.1 <;> rfl
  exact hr h.records

theorem rename_erase (h : History) (i : Nat) :
    (h.rename f).erase (f i) = (h.erase i).rename f := by
  have hne : (fun r : Nat × List Nat => r.1 != f i) ∘ (fun r : Nat × List Nat =>
      (f r.1, r.2.map f)) = fun r => r.1 != i := funext fun r => congrArg not hf.beq_eq
  rw [rename, rename, erase, erase, List.filter_map, hne]

theorem rename_insert (h : History) (i : Nat) (chain : List Nat) :
    (h.rename f).insert (f i) (chain.map f) = (h.insert i chain).rename f := by
  rw [insert, rename_erase hf]
  rfl

end History

theorem Progress.work_rename (f : Nat → Nat) (p : Progress S O E) :
    (p.rename f).work = p.work.rename f := by cases p <;> rfl

theorem Progress.failure?_rename (f : Nat → Nat) (p : Progress S O E) :
    (p.rename f).failure? = p.failure? := by cases p <;> rfl

theorem Progress.andThen_rename {f : Nat → Nat} {next next' : Work O E → Progress S O E}
    (h : ∀ w, next' (w.rename f) = (next w).rename f) (p : Progress S O E) :
    (p.rename f).andThen next' = (p.andThen next).rename f := by
  cases p with
  | going w => exact h w
  | stopped w e => rfl

namespace Work

variable {f : Nat → Nat}

theorem note_rename (w : Work O E) (mark : Mark E) :
    (w.rename f).note (mark.rename f) = (w.note mark).rename f := by
  simp only [note, rename, List.map_append, List.map_cons, List.map_nil]

theorem called_rename (w : Work O E) (owner : O) (site : Site) (event : Option E) :
    (w.rename f).called owner (site.rename f) event = (w.called owner site event).rename f := by
  simp only [called, rename, Configuration.rename, List.map_append, List.map_cons, List.map_nil,
    Mark.rename]

theorem run_rename (w : Work O E) {a b : Option (Action O E)}
    (h : b.map Action.settled = a.map Action.settled) (event : Option E) (site : Site)
    (phase : Phase) (state : S) :
    (w.rename f).run b event (site.rename f) phase state =
      (w.run a event site phase state).rename f := by
  cases a with
  | none =>
    obtain rfl : b = none := Option.map_eq_none_iff.mp h
    rfl
  | some a =>
    obtain ⟨b, rfl, hb⟩ := Option.map_eq_some_iff.mp h
    have howner : (w.rename f).owner = w.owner := rfl
    obtain ⟨hends, hleft⟩ := Prod.mk.inj (congrFun (congrFun hb w.owner) event)
    simp only [run, howner, hends, hleft, called_rename]
    cases (a.run w.owner event).1.settle with
    | ok _ => rfl
    | error e => rfl

/-- Work that goes on after a call goes on alike after the renamed call. -/
theorem run_andThen_rename {a b : Option (Action O E)}
    (h : b.map Action.settled = a.map Action.settled) {next next' : Work O E → Progress S O E}
    (hnext : ∀ w, next' (w.rename f) = (next w).rename f) (w : Work O E) (event : Option E)
    (site : Site) (phase : Phase) (state : S) :
    ((w.rename f).run b event (site.rename f) phase state).andThen next' =
      ((w.run a event site phase state).andThen next).rename f := by
  rw [run_rename w h, Progress.andThen_rename hnext]

variable {t u : Tree S O E} (h : Tree.Renames f t u)

include h

theorem leave_rename (i : Nat) (below rest : List Nat) (w : Work O E) :
    (w.rename f).leave u (f i) (below.map f) (rest.map f) = (w.leave t i below rest).rename f := by
  have hhistory : (if (u.node (f i)).history && !(below.map f).isEmpty then
      (w.history.rename f).insert (f i) (below.map f) else w.history.rename f) =
      (if (t.node i).history && !below.isEmpty then w.history.insert i below
        else w.history).rename f := by
    rw [(h.node i).history, List.isEmpty_map, History.rename_insert h.injective]
    split <;> rfl
  simp only [leave, rename, Configuration.rename, hhistory, List.map_append, List.map_cons,
    List.map_nil, Mark.rename]

theorem leaveTo_rename (event : Option E) (limit : Nat) (below active : List Nat) (w : Work O E) :
    (w.rename f).leaveTo u event (f limit) (below.map f) (active.map f) =
      (w.leaveTo t event limit below active).rename f := by
  induction active generalizing below w with
  | nil => rfl
  | cons i rest ih =>
    -- the root keeps its place, so both stop at the same state
    have hends : (f i = f limit ∨ f i = 0) ↔ (i = limit ∨ i = 0) := by
      have hroot : f i = 0 ↔ i = 0 := by rw [← h.root, h.injective.eq_iff, h.root]
      rw [h.injective.eq_iff, hroot]
    simp only [List.map_cons, leaveTo, hends]
    split
    · rfl
    · rw [(h.node i).id]
      refine run_andThen_rename (h.node i).exit ?_ w event (.exit i) .exit (t.node i).id
      intro w
      rw [leave_rename h]
      exact ih (i :: below) _

theorem enter_rename (event : Option E) (i : Nat) (w : Work O E) :
    (w.rename f).enter u event (f i) = (w.enter t event i).rename f := by
  have herase : { w.rename f with history := (w.rename f).history.erase (f i) } =
      ({ w with history := w.history.erase i } : Work O E).rename f := by
    simp only [rename, Configuration.rename, History.rename_erase h.injective]
  simp only [enter, herase, (h.node i).id]
  refine run_andThen_rename (h.node i).entry ?_ _ event (.entry i) .entry (t.node i).id
  intro w
  simp only [Progress.rename, rename, Configuration.rename, List.map_append, List.map_cons,
    List.map_nil, Mark.rename]

theorem enterAll_rename (event : Option E) (chain : List Nat) (w : Work O E) :
    (w.rename f).enterAll u event (chain.map f) = (w.enterAll t event chain).rename f := by
  induction chain generalizing w with
  | nil => rfl
  | cons i rest ih =>
    simp only [List.map_cons, enterAll, enter_rename h]
    exact Progress.andThen_rename ih _

theorem descend_rename (event : Option E) (n i : Nat) (w : Work O E) :
    (w.rename f).descend u event n (f i) = (w.descend t event n i).rename f := by
  induction n generalizing i w with
  | zero => rfl
  | succ n ih =>
    simp only [descend, (h.node i).isComposite, h.firstInitial?_eq]
    split
    · cases t.firstInitial? i with
      | none =>
        simp only [Option.map_none]
        exact congrArg Progress.going (note_rename w (.stuck i))
      | some c =>
        simp only [Option.map_some, enter_rename h]
        exact Progress.andThen_rename (ih c) _
    · rfl

theorem enterBelow_rename (event : Option E) (i : Nat) (recorded : Option (List Nat))
    (w : Work O E) :
    (w.rename f).enterBelow u event (f i) (recorded.map (List.map f)) =
      (w.enterBelow t event i recorded).rename f := by
  cases recorded with
  | none =>
    simp only [Option.map_none, enterBelow, h.size]
    exact descend_rename h event t.size i w
  | some chain =>
    have hnote : (w.rename f).note (.restoring (f i) (chain.map f).length) =
        (w.note (.restoring i chain.length)).rename f := by
      rw [List.length_map]
      exact note_rename w (.restoring i chain.length)
    simp only [Option.map_some, enterBelow, hnote, enterAll_rename h, h.size,
      List.getLast?_map, Option.getD_map]
    exact Progress.andThen_rename (descend_rename h event t.size _) _

theorem record?_rename (target : Nat) (w : Work O E) :
    (w.rename f).record? u (f target) = (w.record? t target).map (List.map f) := by
  have hget : (w.rename f).history.get? (f target) = (w.history.get? target).map (List.map f) :=
    History.rename_get? h.injective w.history target
  simp only [record?, (h.node target).history, hget]
  split <;> rfl

theorem enterTarget_rename (event : Option E) (limit target : Nat) (w : Work O E) :
    (w.rename f).enterTarget u event (f limit) (f target) =
      (w.enterTarget t event limit target).rename f := by
  have hforget : (if (u.node (f target)).history then
      { w.rename f with history := (w.rename f).history.erase (f target) } else w.rename f) =
      Work.rename f (if (t.node target).history then
        { w with history := w.history.erase target } else w) := by
    rw [(h.node target).history]
    split
    · simp only [rename, Configuration.rename, History.rename_erase h.injective]
    · rfl
  simp only [enterTarget, hforget, record?_rename h, h.pathBelow_eq, enterAll_rename h]
  exact Progress.andThen_rename (enterBelow_rename h event target _) _

theorem innermost_rename (w : Work O E) : (w.rename f).innermost = f w.innermost := by
  have hactive : (w.rename f).active = w.active.map f := rfl
  rw [innermost, hactive, List.head?_map, h.getD_eq, innermost]

end Work

structure Candidate.Renamed (f : Nat → Nat) (c d : Candidate S O E) : Prop where
  state : d.state = f c.state
  position : d.position = c.position
  transition : c.transition.Renamed f d.transition

/-- Searches that end alike: with one failure, without a candidate, or with candidates that
correspond. -/
inductive Work.ChosenAlike (f : Nat → Nat) :
    Work O E × Except (Failure S) (Option (Candidate S O E)) →
      Work O E × Except (Failure S) (Option (Candidate S O E)) → Prop
  | error (w : Work O E) (e : Failure S) : ChosenAlike f (w, .error e) (w.rename f, .error e)
  | none (w : Work O E) : ChosenAlike f (w, .ok none) (w.rename f, .ok none)
  | some (w : Work O E) {c d : Candidate S O E} (h : c.Renamed f d) :
    ChosenAlike f (w, .ok (some c)) (w.rename f, .ok (some d))

section

variable {f : Nat → Nat} {t u : Tree S O E} (h : Tree.Renames f t u)

include h

theorem Tree.offers_renamed [EventKind E] (event : E) (i : Nat) :
    List.Forall₂ (Candidate.Renamed f) (t.offers event i) (u.offers event (f i)) := by
  -- transitions correspond one by one, so those of the right kind have the same positions
  have hfrom {xs ys : List (Transition S O E)} (k : Nat)
      (hxy : List.Forall₂ (Transition.Renamed f) xs ys) :
      List.Forall₂ (Candidate.Renamed f)
        (((xs.zipIdx k).filter fun x => EventKind.same x.1.event event).map
          fun x => ⟨i, x.2, x.1⟩)
        (((ys.zipIdx k).filter fun y => EventKind.same y.1.event event).map
          fun y => ⟨f i, y.2, y.1⟩) := by
    induction hxy generalizing k with
    | nil => exact .nil
    | cons hx _ ih =>
      rw [List.zipIdx_cons, List.zipIdx_cons, List.filter_cons, List.filter_cons, hx.event]
      split
      · exact .cons ⟨rfl, rfl, hx⟩ (ih (k + 1))
      · exact ih (k + 1)
  exact hfrom 0 (h.node i).transitions

theorem Tree.candidates_renamed [EventKind E] (active : List Nat) (event : E) :
    List.Forall₂ (Candidate.Renamed f) (t.candidates active event)
      (u.candidates (active.map f) event) := by
  induction active with
  | nil => exact .nil
  | cons i rest ih =>
    rw [List.map_cons, candidates, candidates, List.flatMap_cons, List.flatMap_cons]
    exact List.rel_append (offers_renamed h event i) ih

namespace Work

theorem choose_rename (event : E) {cs ds : List (Candidate S O E)}
    (hcs : List.Forall₂ (Candidate.Renamed f) cs ds) (w : Work O E) :
    ChosenAlike f (w.choose t event cs) ((w.rename f).choose u event ds) := by
  induction hcs generalizing w with
  | nil => exact .none w
  | @cons c d cs ds hc _ ih =>
    have hguard := hc.transition.guard
    cases hg : c.transition.guard with
    | none =>
      rw [hg] at hguard
      simp only [choose, hg, Option.map_eq_none_iff.mp hguard]
      exact .some w hc
    | some g =>
      rw [hg] at hguard
      obtain ⟨g', hg', hsettled⟩ := Option.map_eq_some_iff.mp hguard
      -- the guards are asked with the same owner, come to the same and leave the same one
      obtain ⟨hends, hleft⟩ := Prod.mk.inj (congrFun (congrFun hsettled w.owner) event)
      have howner : (w.rename f).owner = w.owner := rfl
      have hcalled (owner : O) :
          (w.rename f).called owner (.guard (f c.state) c.position) (some event) =
            (w.called owner (.guard c.state c.position) (some event)).rename f :=
        called_rename w owner (.guard c.state c.position) (some event)
      simp only [choose, hg, hg', howner, hends, hleft, hc.state, hc.position, hcalled,
        (h.node c.state).id]
      cases (g.check w.owner event).1.settle with
      | error e => exact .error _ _
      | ok holds =>
        cases holds with
        | true => exact .some _ hc
        | false => exact ih _

theorem stay_rename (event : E) {c d : Candidate S O E} (hc : c.Renamed f d) (w : Work O E) :
    (w.rename f).stay u event d = ((w.stay t event c).1.rename f, (w.stay t event c).2) := by
  have hrun : (w.rename f).run d.transition.action (some event)
      (.action (f c.state) c.position) .stayAction (t.node c.state).id =
      (w.run c.transition.action (some event) (.action c.state c.position) .stayAction
        (t.node c.state).id).rename f :=
    run_rename w hc.transition.action (some event) (.action c.state c.position) .stayAction _
  simp only [stay, hc.state, hc.position, (h.node c.state).id, hrun]
  cases w.run c.transition.action (some event) (.action c.state c.position) .stayAction
      (t.node c.state).id with
  | going v =>
    have hnote : (v.rename f).note (.stayed (f c.state)) = (v.note (.stayed c.state)).rename f :=
      note_rename v (.stayed c.state)
    simp only [Progress.rename, hnote]
  | stopped v e => rfl

theorem cross_rename (event : E) {c d : Candidate S O E} (hc : c.Renamed f d) (target : Nat)
    (w : Work O E) :
    (w.rename f).cross u event d (f target) = (w.cross t event c target).rename f := by
  have hleft := leaveTo_rename h (some event) (t.commonAncestor c.state target) [] w.active w
  have hactive : (w.rename f).active = w.active.map f := rfl
  simp only [List.map_nil] at hleft
  simp only [cross, hc.state, hc.position, h.commonAncestor_eq, (h.node c.state).id, hactive, hleft]
  rw [Progress.andThen_rename]
  · exact Progress.andThen_rename (enterTarget_rename h (some event) _ target) _
  · intro v
    exact run_rename v hc.transition.action (some event) (.action c.state c.position) .action _

theorem move_rename (event : E) {c d : Candidate S O E} (hc : c.Renamed f d) (target : Nat)
    (w : Work O E) :
    (w.rename f).move u event d (f target) =
      ((w.move t event c target).1.rename f, (w.move t event c target).2) := by
  simp only [move, cross_rename h event hc, innermost_rename h, hc.state]
  cases w.cross t event c target with
  | going v =>
    have hnote := note_rename (f := f) v
      (.moved c.state target w.innermost v.innermost)
    simp only [Mark.rename] at hnote
    simp only [Progress.rename, innermost_rename h, hnote, (h.node _).id]
  | stopped v e => rfl

end Work

namespace Tree

/-- A reaction over the one tree is that over the other, with the places renamed. -/
theorem react_rename [EventKind E] (event : E) (c : Configuration O) :
    u.react event (c.rename f) = ((t.react event c).1.rename f, (t.react event c).2) := by
  have halike := Work.choose_rename h event (candidates_renamed h c.active event) (Work.start c)
  have hstart : (Work.start c : Work O E).rename f = Work.start (c.rename f) := rfl
  have hactive : c.active.map f = (c.rename f).active := rfl
  rw [hstart, hactive] at halike
  simp only [react]
  -- from here on only how the two searches ended counts
  generalize Work.choose t event (t.candidates c.active event) (Work.start c) = chosen at halike ⊢
  generalize Work.choose u event (u.candidates (c.rename f).active event)
    (Work.start (c.rename f)) = chosen' at halike ⊢
  cases halike with
  | error w e => rfl
  | none w =>
    have hnote := Work.note_rename (f := f) w (.unmatched event)
    exact congrArg (fun w => (w, Reaction.ignored)) hnote
  | @some w x y hxy =>
    have hkind := hxy.transition.kind
    cases hk : x.transition.kind with
    | stays =>
      rw [hk] at hkind
      simp only [hk, hkind, Kind.rename]
      exact Work.stay_rename h event hxy w
    | moves id target =>
      rw [hk] at hkind
      simp only [hk, hkind, Kind.rename]
      exact Work.move_rename h event hxy target w

/-- A reset of the one tree is that of the other, with the places renamed. -/
theorem reset_rename (c : Configuration O) : u.reset (c.rename f) = (t.reset c).rename f := by
  let cleared : Work O E := Work.start { c with active := [], history := .empty }
  have hcleared : (Work.start { c.rename f with active := [], history := .empty } : Work O E) =
      cleared.rename f := rfl
  have henter := Work.enter_rename h none 0 cleared
  rw [h.root] at henter
  simp only [reset, hcleared, henter]
  refine Progress.andThen_rename ?_ _
  intro w
  have hbelow := Work.enterBelow_rename h none 0 none w
  rw [h.root] at hbelow
  exact hbelow

end Tree

end

end StateTree
