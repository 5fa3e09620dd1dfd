import StateTree.Proofs.Run.Chain
import StateTree.Proofs.Step.Record

/-!
What machines remember in whole runs. No state has two records, and each record belongs to a history
state that is not active and leads down from it, wherever host code has failed.
-/

namespace StateTree

variable {S O E : Type}

namespace Stride

variable {t : Tree S O E}

theorem distinct_before (s : Stride S O E) {st : Standing} (h : st.history.Distinct) :
    (s.before st).history.Distinct := by
  cases s with
  | enter i => exact h.erase i
  | leave i below => exact h
  | act x => exact h
  | forget i => exact h
  | restoring i depth => exact h
  | stuck i => exact h

theorem distinct_pass (s : Stride S O E) {st : Standing} (h : st.history.Distinct) :
    (s.pass t st).history.Distinct := by
  cases s with
  | leave i below =>
    change (if (t.node i).history && !below.isEmpty then st.history.insert i below
      else st.history).Distinct
    split
    · exact h.insert i below
    · exact h
  | enter i => exact h.erase i
  | forget i => exact h.erase i
  | act x => exact h
  | restoring i depth => exact h
  | stuck i => exact h

theorem distinct_passAll {ss : List (Stride S O E)} {st : Standing} (h : st.history.Distinct) :
    (ss.foldl (pass t) st).history.Distinct := by
  induction ss generalizing st with
  | nil => exact h
  | cons s rest ih => exact ih (s.distinct_pass h)

end Stride

theorem Work.march_distinct {t : Tree S O E} {event : Option E} {ss : List (Stride S O E)}
    {w : Work O E} (hw : w.history.Distinct) (hfit : Stride.FitAll t w.standing ss) :
    (w.march t event ss).work.history.Distinct :=
  march_keeps (P := fun st => st.history.Distinct) (fun _ s _ h => s.distinct_before h)
    (fun _ s _ h _ => s.distinct_pass h) hw hfit

namespace Tree

/-- A chain of places of the tree that goes from the state at `k` to one of its substates, and on
from each state to one of its substates. -/
structure LeadsDown (t : Tree S O E) (k : Nat) (chain : List Nat) : Prop where
  ne_nil : chain ≠ []
  inside : ∀ i ∈ chain, i < t.size
  steps : (k :: chain).IsChain fun i j => j ∈ (t.node i).children

variable {t : Tree S O E}

theorem Recalls.leadsDown (ht : t.Linked) {active : List Nat} {k : Nat} {chain : List Nat}
    (h : t.Recalls active k chain) : k < t.size ∧ t.LeadsDown k chain := by
  obtain ⟨j, hj⟩ := h.leads
  obtain ⟨hinside, _, hsteps⟩ := path_rooted ht hj.lt
  obtain ⟨above, ha⟩ := t.path_eq_init k
  -- the chain is what comes after `k` on a path from the root
  have hpath : t.path j = above ++ (k :: chain) := by
    rw [hj.path, ha, List.append_assoc]
    rfl
  rw [hpath] at hinside hsteps
  refine ⟨hj.source_lt ht, h.ne_nil, ?_, hsteps.right_of_append⟩
  intro i hi
  exact hinside i (List.mem_append_right _ (List.mem_cons_of_mem k hi))

theorem reset_distinct (ht : t.Linked) (c : Configuration O) :
    (t.reset c : Progress S O E).work.history.Distinct := by
  rw [Work.reset_eq_march ht]
  exact Work.march_distinct History.distinct_empty (reaches_reset ht).1

theorem react_distinct [DecidableEq S] [EventKind E] {event : E} (ht : t.Sound)
    {c : Configuration O} (hst : t.Stands c.standing) (hc : c.history.Distinct) :
    (t.react event c).1.history.Distinct := by
  rcases react_cases t event c with ⟨hq, _⟩ | ⟨x, id, target, hs, hk⟩
  · have hhistory : (t.react event c).1.history = c.history := congrArg Standing.history hq
    rw [hhistory]
    exact hc
  · rw [congrArg Configuration.history (react_work ht hst hs hk).1]
    apply Work.march_distinct
    · rw [select_history]
      exact hc
    · exact (passage_fits ht hst hs hk).1

end Tree

namespace Session

variable {W : Type} [DecidableEq S] [StateId S] [EventKind E]

theorem afterAll_distinct {t : Tree S O E} (ht : t.Sound) (name id : String) (owner : O) (world : W)
    (operations : List (Operation W S O E)) :
    ((idle t name id owner world).afterAll operations).machine.history.Distinct := by
  have hkept : ((idle t name id owner world).afterAll operations).machine.toMachine.Over t ∧
      ((idle t name id owner world).afterAll operations).machine.history.Distinct := by
    refine afterAll_keeps (P := fun m => m.Over t ∧ m.history.Distinct) ?_ ?_ ?_
      ⟨⟨rfl, Tree.stands_nothing⟩, History.distinct_empty⟩
    · intro _ m ⟨hm, _⟩
      refine ⟨hm.reset ht.toLinked, ?_⟩
      obtain ⟨rfl, _⟩ := hm
      exact Tree.reset_distinct ht.toLinked _
    · intro m event _ ⟨hm, hd⟩
      refine ⟨hm.react ht event, ?_⟩
      obtain ⟨rfl, hstands⟩ := hm
      exact Tree.react_distinct ht hstands hd
    · intro m f ⟨hm, hd⟩
      exact ⟨hm.modifyOwner f, hd⟩
  exact hkept.2

/-- The records of a machine, after any operations: no state has two, and each belongs to a history
state below the root that is not active and leads down from it. -/
theorem records_lead_down (root : S) (declarations : List (Declaration S O E)) (name id : String)
    (owner : O) (world : W) (operations : List (Operation W S O E)) :
    let t := Tree.build root declarations
    let m := ((idle t name id owner world).afterAll operations).machine
    m.history.Distinct ∧
      ∀ k chain, (k, chain) ∈ m.history.records →
        k ≠ 0 ∧ k < t.size ∧ (t.node k).history = true ∧ k ∉ m.active ∧ t.LeadsDown k chain := by
  intro t m
  have ht : t.Sound := Tree.build_sound root declarations
  have hm : m.toMachine.Over t := afterAll_over ht name id owner world operations
  have hd : m.history.Distinct := afterAll_distinct ht name id owner world operations
  refine ⟨hd, ?_⟩
  intro k chain hrecord
  have hrecalls : t.Recalls m.active k chain :=
    hm.stands.records k chain ((History.mem_records_iff hd).mp hrecord)
  obtain ⟨hk, hdown⟩ := hrecalls.leadsDown ht.toLinked
  exact ⟨hrecalls.ne_root, hk, hrecalls.flagged, hrecalls.inactive, hdown⟩

end Session

namespace Radio

theorem switchedOff_remembers :
    let t := Tree.build .root declarations
    let m := (session.afterAll [.reset, .fire .power, .fire .band, .fire .power]).machine
    (2, [4]) ∈ m.history.records ∧ 2 ∉ m.active ∧ t.LeadsDown 2 [4] := by
  intro t m
  have hrecord : (2, [4]) ∈ m.history.records := List.mem_cons_self
  obtain ⟨_, hrecords⟩ :=
    Session.records_lead_down Place.root declarations "radio" "1" [] ()
      [Operation.reset, .fire .power, .fire .band, .fire .power]
  obtain ⟨_, _, _, hinactive, hdown⟩ := hrecords 2 [4] hrecord
  exact ⟨hrecord, hinactive, hdown⟩

end Radio

end StateTree
