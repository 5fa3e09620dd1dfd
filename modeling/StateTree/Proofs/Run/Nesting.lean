import StateTree.Proofs.Run.Reentry

/-!
Records within records. While a machine is consistent, what is remembered below a state agrees with
what each history state among the remembered ones remembers itself.
-/

namespace StateTree

variable {S O E : Type}

namespace Tree

/-- Where a record goes on below a history state, it goes on as the record of that state says. -/
def Nested (t : Tree S O E) (history : History) : Prop :=
  ∀ k above j rest, history.get? k = some (above ++ j :: rest) → (t.node j).history = true →
    rest ≠ [] → history.get? j = some rest

variable {t : Tree S O E}

/-- What is around an active state is active. -/
theorem Stands.active_around (ht : t.Linked) {st : Standing} (hst : t.Stands st) {k j : Nat}
    {seg : List Nat} (hl : t.Leads k seg j) (hj : j ∈ st.active) : k ∈ st.active := by
  obtain ⟨leaf, rest, hleaf, ha⟩ := active_leads ht hst hj
  rw [ha, List.mem_reverse]
  exact (mem_path_iff ht hleaf.lt).mpr ⟨seg ++ rest, hl.trans hleaf⟩

/-- A transition that is completed keeps records within records. The states of a record are left
together, and one of them is entered only after the state that remembers them. -/
theorem itinerary_nested (ht : t.Linked) {st : Standing} (hst : t.Stands st)
    (hn : t.Nested st.history) {x : Candidate S O E} {target : Nat} (hsource : x.state ∈ st.active)
    (htarget : target < t.size) :
    t.Nested ((t.itinerary x target st).foldl (Stride.pass t) st).history := by
  let after := (t.itinerary x target st).foldl (Stride.pass t) st
  intro k above j rest hg hf hne
  have hstands : t.Stands after := hst.passAll ht (reaches_itinerary ht hst hsource htarget).1
  obtain ⟨leaf, hleaf⟩ := (hstands.records k _ hg).leads
  obtain ⟨hkj, _⟩ := hleaf.split ht
  obtain ⟨hinactive, hwritten⟩ := (itinerary_records ht hst hsource htarget k _).mp hg
  refine (itinerary_records ht hst hsource htarget j rest).mpr ⟨?_, ?_⟩
  · intro hj
    exact hinactive (hstands.active_around ht hkj hj)
  · rcases hwritten with ⟨hk, _, hchain, _⟩ | ⟨hk, hold⟩
    · -- both records are written by this transition, from the same active path
      obtain ⟨bottom, seg, hl, ha⟩ := active_leads ht hst hk
      have hseg : above ++ j :: rest = seg := by
        rw [hchain, ha, List.reverse_reverse, filter_below ht hl]
      obtain ⟨_, hrest⟩ := (hseg ▸ hl).split ht
      refine Or.inl ⟨?_, hf, ?_, hne⟩
      · rw [ha, List.mem_reverse]
        exact (mem_path_iff ht hl.lt).mpr ⟨rest, hrest⟩
      · rw [ha, List.reverse_reverse, filter_below ht hrest]
    · -- both records are old
      refine Or.inr ⟨?_, hn k above j rest hold hf hne⟩
      intro hj
      exact hk (hst.active_around ht hkj hj)

theorem reset_nested (ht : t.Linked) (c : Configuration O) :
    t.Nested (t.reset c : Progress S O E).work.history := by
  intro k above j rest hg
  cases (reset_records ht c k).symm.trans hg

variable [DecidableEq S] [EventKind E] {event : E}

theorem react_nested (ht : t.Sound) {c : Configuration O} (hst : t.Stands c.standing)
    (hn : t.Nested c.history)
    (hf : ∀ f, (t.react event c).2 = .failed f → f.leavesConsistent = true) :
    t.Nested (t.react event c).1.history := by
  rcases react_cases t event c with ⟨hq, _⟩ | ⟨x, id, target, hs, hk⟩
  · rw [show (t.react event c).1.history = c.history from congrArg Standing.history hq]
    exact hn
  · obtain ⟨hsource, _, htarget⟩ := select_bounds ht hst hs hk
    have hstanding := react_standing ht hst hs hk hf
    rw [show (t.react event c).1.history = _ from congrArg Standing.history hstanding]
    exact itinerary_nested ht.toLinked hst hn hsource htarget

end Tree

namespace Session

variable {W : Type} [DecidableEq S] [StateId S] [EventKind E]

/-- The records of a live machine that is consistent agree with each other: where the record of a
state goes on below a history state, that state has one record, which is the rest of the first. -/
theorem records_nested (root : S) (declarations : List (Declaration S O E)) (name id : String)
    (owner : O) (world : W) (operations : List (Operation W S O E)) :
    let t := Tree.build root declarations
    let m := ((idle t name id owner world).afterAll operations).machine
    m.alive = true → m.isConsistent = true →
    ∀ k above j rest, (k, above ++ j :: rest) ∈ m.history.records →
      (t.node j).history = true → rest ≠ [] →
      ∀ chain, (j, chain) ∈ m.history.records ↔ chain = rest := by
  intro t m halive hconsistent k above j rest hrecord hf hne chain
  have ht : t.Sound := Tree.build_sound root declarations
  have hd : m.history.Distinct := afterAll_distinct ht name id owner world operations
  have hnested : t.Nested m.history := by
    refine afterAll_consistent ht (P := fun st => t.Nested st.history) ?_ ?_ name id owner world
      operations halive (Option.isNone_iff_eq_none.mp hconsistent)
    · intro c v hv
      have hreset := Tree.reset_nested ht.toLinked c
      rw [hv] at hreset
      exact hreset
    · intro c event hst hn hf
      exact Tree.react_nested ht hst hn hf
  have hg : m.history.get? j = some rest :=
    hnested k above j rest ((History.mem_records_iff hd).mp hrecord) hf hne
  rw [History.mem_records_iff hd, hg, Option.some.injEq, eq_comm]

end Session

namespace Radio

theorem layered_agrees :
    let t := Tree.build .root layered
    let m := (layeredSession.afterAll
      [.reset, .fire .power, .fire .band, .fire .band, .fire .power]).machine
    (2, [3, 4]) ∈ m.history.records ∧ (t.node 3).history = true ∧
      ∀ chain, (3, chain) ∈ m.history.records ↔ chain = [4] := by
  intro t m
  have halive : m.alive = true := by decide +kernel
  have hconsistent : m.isConsistent = true := by decide +kernel
  have hrecord : (2, [] ++ 3 :: [4]) ∈ m.history.records := by decide +kernel
  have hflagged : (t.node 3).history = true := by decide +kernel
  have hagrees := Session.records_nested Place.root layered "radio" "1" [] ()
    [Operation.reset, .fire .power, .fire .band, .fire .band, .fire .power] halive hconsistent
    2 [] 3 [4] hrecord hflagged (by decide)
  exact ⟨hrecord, hflagged, hagrees⟩

end Radio

end StateTree
