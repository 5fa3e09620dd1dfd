import Mathlib.Data.List.Basic
import StateTree.Proofs.Step.Stopping

/-!
The exits and entries that a step marks. Replayed on the chain that was active before the step they
give the chain that is active after it, wherever the step stops; and all exits come first.
-/

namespace StateTree

variable {S O E : Type}

/-- An exit or an entry, and what it is of. -/
inductive Passing (α : Type)
  | exited (a : α)
  | entered (a : α)
  deriving DecidableEq

namespace Passing

variable {α β : Type}

def map (f : α → β) : Passing α → Passing β
  | exited a => exited (f a)
  | entered a => entered (f a)

/-- The exits come before the entries. -/
def ExitsFirst (passings : List (Passing α)) : Prop :=
  ∃ exits entries : List α, passings = exits.map exited ++ entries.map entered

theorem ExitsFirst.start {xs ys : List (Passing α)} (h : ExitsFirst (xs ++ ys)) :
    ExitsFirst xs := by
  obtain ⟨exits, entries, h⟩ := h
  rcases List.append_eq_append_iff.mp h with ⟨more, he, _⟩ | ⟨more, hxs, hn⟩
  · obtain ⟨first, _, _, hfirst, _⟩ := List.map_eq_append_iff.mp he
    exact ⟨first, [], by rw [List.map_nil, List.append_nil, hfirst]⟩
  · obtain ⟨first, _, _, hfirst, _⟩ := List.map_eq_append_iff.mp hn
    exact ⟨exits, first, by rw [hxs, hfirst]⟩

theorem ExitsFirst.map {passings : List (Passing α)} (h : ExitsFirst passings) (f : α → β) :
    ExitsFirst (passings.map (Passing.map f)) := by
  obtain ⟨exits, entries, rfl⟩ := h
  refine ⟨exits.map f, entries.map f, ?_⟩
  simp only [List.map_append, List.map_map]
  rfl

variable [DecidableEq α]

/-- An exit takes the end off a chain, which has to be what is exited; an entry adds to the end. -/
def after? (chain : List α) : Passing α → Option (List α)
  | exited a => if chain.getLast? = some a then some chain.dropLast else none
  | entered a => some (chain ++ [a])

/-- The chain that passings in turn make of another one. -/
def replay? (chain : List α) (passings : List (Passing α)) : Option (List α) :=
  passings.foldlM after? chain

theorem replay?_append (chain : List α) (xs ys : List (Passing α)) :
    replay? chain (xs ++ ys) = (replay? chain xs).bind fun between => replay? between ys :=
  List.foldlM_append

variable [DecidableEq β]

theorem after?_map (f : α → β) {chain after : List α} {p : Passing α}
    (h : p.after? chain = some after) : (p.map f).after? (chain.map f) = some (after.map f) := by
  cases p with
  | exited a =>
    simp only [after?] at h
    split at h
    · next hlast =>
      cases h
      simp only [map, after?, List.getLast?_map, hlast, Option.map_some, if_true,
        List.map_dropLast]
    · cases h
  | entered a =>
    cases h
    simp only [map, after?, List.map_append, List.map_cons, List.map_nil]

/-- What is replayed may be renamed. -/
theorem replay?_map (f : α → β) {passings : List (Passing α)} {chain after : List α}
    (h : replay? chain passings = some after) :
    replay? (chain.map f) (passings.map (map f)) = some (after.map f) := by
  induction passings generalizing chain with
  | nil =>
    cases h
    rfl
  | cons p rest ih =>
    obtain ⟨between, hp, hrest⟩ := Option.bind_eq_some_iff.mp h
    exact Option.bind_eq_some_iff.mpr ⟨between.map f, after?_map f hp, ih hrest⟩

end Passing

def Mark.passing? : Mark E → Option (Passing Nat)
  | exited i => some (.exited i)
  | entered i => some (.entered i)
  | _ => none

def passingsOf (trail : List (Mark E)) : List (Passing Nat) := trail.filterMap Mark.passing?

theorem passingsOf_append (xs ys : List (Mark E)) :
    passingsOf (xs ++ ys) = passingsOf xs ++ passingsOf ys := List.filterMap_append

/-- Marks that cross nothing pass nothing. -/
theorem passingsOf_quiet {trail : List (Mark E)} (h : ∀ mark ∈ trail, mark.crossed? = none) :
    passingsOf trail = [] := by
  apply List.filterMap_eq_nil_iff.mpr
  intro mark hm
  have hquiet := h mark hm
  cases mark with
  | exited i => cases hquiet
  | entered i => cases hquiet
  | called site event => rfl
  | unmatched event => rfl
  | stayed i => rfl
  | restoring i depth => rfl
  | stuck i => rfl
  | moved source target before after => rfl

namespace Stride

variable {t : Tree S O E}

def passing? : Stride S O E → Option (Passing Nat)
  | leave i _ => some (.exited i)
  | enter i => some (.entered i)
  | act _ | forget _ | restoring _ _ | stuck _ => none

theorem passingsOf_marks (event : Option E) (s : Stride S O E) :
    passingsOf (s.marks t event) = s.passing?.toList := by
  -- the mark of the call passes nothing
  have hcall : passingsOf
      ((s.call? t).map fun c => (.called c.site event : Mark E)).toList = [] := by
    cases s.call? t <;> rfl
  rw [marks, passingsOf_append, hcall, List.nil_append]
  cases s <;> rfl

theorem passingsOf_flatMap (event : Option E) (ss : List (Stride S O E)) :
    passingsOf (ss.flatMap (marks t event)) = ss.filterMap passing? := by
  induction ss with
  | nil => rfl
  | cons s rest ih =>
    rw [List.flatMap_cons, passingsOf_append, passingsOf_marks, ih, List.filterMap_cons]
    cases s.passing? <;> rfl

theorem active_before (s : Stride S O E) (st : Standing) : (s.before st).active = st.active := by
  cases s <;> rfl

/-- A stride that fits passes what it does to the active chain. -/
theorem Fits.replays {st : Standing} {s : Stride S O E} (h : s.Fits t st) :
    Passing.replay? st.active.reverse s.passing?.toList =
      some (s.pass t st).active.reverse := by
  cases s with
  | leave i below =>
    obtain ⟨_, _, ha, _⟩ := h
    have hlast : st.active.reverse.getLast? = some i := by
      rw [ha, List.reverse_reverse, Tree.getLast_path]
    have hleft : (pass t st (leave i below)).active.reverse = st.active.reverse.dropLast := by
      rw [List.dropLast_reverse]
      rfl
    rw [hleft]
    simp [passing?, Passing.replay?, Passing.after?, hlast]
  | enter i =>
    have hentered :
        (pass t st (enter i : Stride S O E)).active.reverse = st.active.reverse ++ [i] :=
      List.reverse_cons
    rw [hentered]
    rfl
  | act x => rfl
  | forget i => rfl
  | restoring i depth => rfl
  | stuck i => rfl

theorem replays_passAll {st : Standing} {ss : List (Stride S O E)} (h : FitAll t st ss) :
    Passing.replay? st.active.reverse (ss.filterMap passing?) =
      some (ss.foldl (pass t) st).active.reverse := by
  induction ss generalizing st with
  | nil => rfl
  | cons s rest ih =>
    have hsplit : (s :: rest).filterMap passing? =
        s.passing?.toList ++ rest.filterMap passing? := by
      rw [List.filterMap_cons]
      cases s.passing? <;> rfl
    rw [hsplit, Passing.replay?_append, h.1.replays]
    exact ih h.2

theorem passing?_departs (ss : List (Stride S O E)) (h : ∀ s ∈ ss, s.Departs) :
    ∃ exits : List Nat, ss.filterMap passing? = exits.map Passing.exited := by
  refine ⟨ss.filterMap crossed?, ?_⟩
  rw [List.map_filterMap]
  apply List.filterMap_congr
  intro s hs
  have hdeparts := h s hs
  cases s with
  | leave i below => rfl
  | act x => rfl
  | forget i => exact hdeparts.elim
  | enter i => exact hdeparts.elim
  | restoring i depth => exact hdeparts.elim
  | stuck i => exact hdeparts.elim

theorem passing?_arrives (ss : List (Stride S O E)) (h : ∀ s ∈ ss, ¬ s.Departs) :
    ∃ entries : List Nat, ss.filterMap passing? = entries.map Passing.entered := by
  refine ⟨ss.filterMap crossed?, ?_⟩
  rw [List.map_filterMap]
  apply List.filterMap_congr
  intro s hs
  have harrives := h s hs
  cases s with
  | leave i below => exact (harrives trivial).elim
  | act x => exact (harrives trivial).elim
  | forget i => rfl
  | enter i => rfl
  | restoring i depth => rfl
  | stuck i => rfl

end Stride

namespace Work

variable {t : Tree S O E}

/-- The marks that a march leaves replay what it does to the active chain. They pass what its
strides pass, or the start of it. -/
theorem march_passes (event : Option E) {ss : List (Stride S O E)} {w : Work O E}
    (hfit : Stride.FitAll t w.standing ss) :
    ∃ marks rest, (w.march t event ss).work.trail = w.trail ++ marks ∧
      ss.filterMap Stride.passing? = passingsOf marks ++ rest ∧
      Passing.replay? w.active.reverse (passingsOf marks) =
        some (w.march t event ss).work.active.reverse := by
  cases hp : w.march t event ss with
  | going v =>
    have hactive : v.active = (ss.foldl (Stride.pass t) w.standing).active :=
      congrArg Standing.active (march_going hp)
    refine ⟨ss.flatMap (Stride.marks t event), [], trail_march_going hp, ?_, ?_⟩
    · rw [Stride.passingsOf_flatMap, List.append_nil]
    · rw [Stride.passingsOf_flatMap, Progress.work, hactive]
      exact Stride.replays_passAll hfit
  | stopped v f =>
    -- the call that fails passes nothing, and what comes before it leaves the chain alone
    obtain ⟨done, s, rest, he, hstanding, c, _, _, _, htrail⟩ := march_stopped hp
    have hactive : v.active = (done.foldl (Stride.pass t) w.standing).active :=
      (congrArg Standing.active hstanding).trans (s.active_before _)
    have hmarks : passingsOf (done.flatMap (Stride.marks t event) ++ [.called c.site event]) =
        done.filterMap Stride.passing? := by
      rw [passingsOf_append, Stride.passingsOf_flatMap]
      exact List.append_nil _
    rw [he] at hfit
    refine ⟨_, (s :: rest).filterMap Stride.passing?, htrail, ?_, ?_⟩
    · rw [hmarks, he, List.filterMap_append]
    · rw [hmarks, Progress.work, hactive]
      exact Stride.replays_passAll ((Stride.fitAll_append _ _ _).mp hfit).1

end Work

namespace Tree

variable {t : Tree S O E}

theorem exitsFirst_itinerary (x : Candidate S O E) (target : Nat) (st : Standing) :
    Passing.ExitsFirst ((t.itinerary x target st).filterMap Stride.passing?) := by
  obtain ⟨exits, hexits⟩ := Stride.passing?_departs
    (t.departure x target st.active) fun s hs => departs_of_departure hs
  obtain ⟨entries, hentries⟩ := Stride.passing?_arrives
    (t.entering (t.commonAncestor x.state target) target (t.restored target st))
    fun s hs hdeparts => departs_not_mem_entering hdeparts hs
  exact ⟨exits, entries, by rw [itinerary_eq, List.filterMap_append, hexits, hentries]⟩

theorem reset_passes (ht : t.Linked) (c : Configuration O) :
    let w := (t.reset c : Progress S O E).work
    Passing.replay? [] (passingsOf w.trail) = some w.active.reverse ∧
      Passing.ExitsFirst (passingsOf w.trail) := by
  intro w
  have hw : w = _ := congrArg Progress.work (Work.reset_eq_march ht c)
  obtain ⟨marks, rest, htrail, hpassings, hreplay⟩ :=
    Work.march_passes none (w := .start { c with active := [], history := .empty })
      (reaches_reset ht).1
  have harrives (s : Stride S O E) (hs : s ∈ .enter 0 :: t.settling 0) : ¬ s.Departs := by
    intro hdeparts
    rcases List.mem_cons.mp hs with rfl | hs
    · exact hdeparts
    · exact hdeparts.not_arrives (arrives_settling hs)
  obtain ⟨entries, hentries⟩ := Stride.passing?_arrives _ harrives
  rw [← hw] at htrail hreplay
  rw [show w.trail = marks from htrail]
  have hall : Passing.ExitsFirst (passingsOf marks ++ rest) :=
    ⟨[], entries, hpassings.symm.trans hentries⟩
  exact ⟨hreplay, hall.start⟩

variable [DecidableEq S] [EventKind E]

/-- The marks of a reaction replay what it does to the active chain, whatever its outcome. -/
theorem react_passes (ht : t.Sound) (event : E) {c : Configuration O} (hst : t.Stands c.standing) :
    let w := (t.react event c).1
    Passing.replay? c.active.reverse (passingsOf w.trail) = some w.active.reverse ∧
      Passing.ExitsFirst (passingsOf w.trail) := by
  intro w
  rcases react_cases t event c with ⟨hq, _, hmarks⟩ | ⟨x, id, target, hs, hk⟩
  · have hactive : w.active = c.active := congrArg Standing.active hq
    rw [passingsOf_quiet hmarks, hactive]
    exact ⟨rfl, [], [], rfl⟩
  · obtain ⟨marks, rest, htrail, hpassings, hreplay⟩ :=
      Work.march_passes (some event) (passage_fits ht hst hs hk).1
    obtain ⟨hwork, last, hlast, hquiet⟩ := react_work ht hst hs hk
    have hactive : w.active = (t.passage event c x target).work.active :=
      congrArg Configuration.active hwork
    -- neither the search before the march nor the mark of the move after it passes anything
    have hpassed : passingsOf w.trail = passingsOf marks := by
      rw [show w.trail = _ from hlast, show (t.passage event c x target).work.trail = _ from htrail,
        passingsOf_append, passingsOf_append, passingsOf_quiet fun mark hm => select_marks hm,
        passingsOf_quiet fun mark hm => (hquiet mark hm).2, List.nil_append, List.append_nil]
    have hbefore : (t.select event c).1.active = c.active :=
      congrArg Standing.active (select_standing c)
    rw [hbefore] at hreplay
    rw [hpassed, hactive]
    have hall := exitsFirst_itinerary (t := t) x target c.standing
    rw [hpassings] at hall
    exact ⟨hreplay, hall.start⟩

end Tree

end StateTree
