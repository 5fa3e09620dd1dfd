import Mathlib.Data.List.Induction
import StateTree.Violation

/-!
What the rules find, told by the nodes of the tree: which ids, nodes and targets are reported, each
once, in which order and with what. Ids may be repeated in the tree.
-/

namespace StateTree

variable {S O E : Type}

theorem firsts_concat [DecidableEq α] (as : List α) (a : α) :
    firsts (as ++ [a]) = if a ∈ firsts as then firsts as else firsts as ++ [a] := by
  rw [firsts, List.foldl_append]
  rfl

theorem mem_firsts [DecidableEq α] {a : α} {as : List α} : a ∈ firsts as ↔ a ∈ as := by
  induction as using List.reverseRecOn with
  | nil => exact Iff.rfl
  | append_singleton as b ih =>
    rw [firsts_concat, List.mem_append, List.mem_singleton, ← ih]
    split
    · next hb =>
      constructor
      · exact Or.inl
      · rintro (h | rfl)
        · exact h
        · exact hb
    · rw [List.mem_append, List.mem_singleton]

/-- Of two values among the first ones, the earlier has an occurrence before all of the later. -/
theorem firsts_ordered [DecidableEq β] {r : α → α → Prop} (g : α → β) {as : List α}
    (h : as.Pairwise r) :
    (firsts (as.map g)).Pairwise fun b c => ∃ x ∈ as, g x = b ∧ ∀ y ∈ as, g y = c → r x y := by
  induction as using List.reverseRecOn with
  | nil => exact List.Pairwise.nil
  | append_singleton as a ih =>
    obtain ⟨has, _, hlast⟩ := List.pairwise_append.mp h
    have hafter (x : α) (hx : x ∈ as) : r x a := hlast x hx a (List.mem_singleton_self a)
    -- what comes last is after everything, so it disturbs no earlier pair
    have hold : (firsts (as.map g)).Pairwise fun b c =>
        ∃ x ∈ as ++ [a], g x = b ∧ ∀ y ∈ as ++ [a], g y = c → r x y := by
      refine (ih has).imp ?_
      rintro b c ⟨x, hx, hb, hbefore⟩
      refine ⟨x, List.mem_append_left _ hx, hb, ?_⟩
      intro y hy hc
      rcases List.mem_append.mp hy with hy | hy
      · exact hbefore y hy hc
      · rw [List.mem_singleton.mp hy]
        exact hafter x hx
    rw [List.map_append, List.map_singleton, firsts_concat]
    split
    · exact hold
    · next hnew =>
      refine List.pairwise_append.mpr ⟨hold, List.pairwise_singleton _ _, ?_⟩
      intro b hb c hc
      rw [List.mem_singleton] at hc
      obtain ⟨x, hx, rfl⟩ := List.mem_map.mp (mem_firsts.mp hb)
      refine ⟨x, List.mem_append_left _ hx, rfl, ?_⟩
      intro y hy he
      rcases List.mem_append.mp hy with hy | hy
      · -- the value is new, so nothing before has it
        have hmem : g a ∈ as.map g := List.mem_map.mpr ⟨y, hy, he.trans hc⟩
        exact absurd (mem_firsts.mpr hmem) hnew
      · rw [List.mem_singleton.mp hy]
        exact hafter x hx

theorem filterMap_if (p : α → Prop) [DecidablePred p] (f : α → β) (as : List α) :
    as.filterMap (fun a => if p a then some (f a) else none) = (as.filter (p ·)).map f := by
  induction as with
  | nil => rfl
  | cons a as ih =>
    by_cases ha : p a
    · simp [ha, ih]
    · simp [ha, ih]

/-- The ids of the substates that are flagged initial. -/
def State.initialIds (s : State S O E) : List S :=
  (s.substates.filter fun c => c.node.initial).map State.id

/-- A transition that leads to a target: the places of the two states, and where the transition
stands among those of its source. -/
structure Pointer where
  source : Nat
  position : Nat
  target : Nat

/-- Sources come in the order of the table, transitions of one source in that of their
declaration. -/
def Pointer.Before (p q : Pointer) : Prop :=
  p.source < q.source ∨ p.source = q.source ∧ p.position < q.position

namespace Tree

theorem nodes_eq (t : Tree S O E) : t.nodes.toList = (List.range t.size).map t.node := by
  apply List.ext_getElem?
  intro i
  rw [Array.getElem?_toList, List.getElem?_map]
  by_cases hi : i < t.size
  · rw [getElem?_nodes t i hi, List.getElem?_range hi, Option.map_some]
  · rw [Array.getElem?_eq_none (Nat.le_of_not_lt hi),
      List.getElem?_eq_none (by simpa using Nat.le_of_not_lt hi), Option.map_none]

/-- The places of the nodes that an id labels. -/
def labelled [DecidableEq S] (t : Tree S O E) (id : S) : List Nat :=
  (List.range t.size).filter fun i => (t.node i).id = id

/-- There is such a transition in the tree. -/
def Points (t : Tree S O E) (p : Pointer) : Prop :=
  p.source < t.size ∧ ∃ x id, (t.node p.source).transitions[p.position]? = some x ∧
    x.kind = .moves id p.target

def pointersAt (t : Tree S O E) (i : Nat) : List Pointer :=
  (t.node i).transitions.zipIdx.filterMap fun x => x.1.kind.index?.map (Pointer.mk i x.2)

def pointers (t : Tree S O E) : List Pointer := (List.range t.size).flatMap t.pointersAt

theorem mem_pointersAt {t : Tree S O E} {i : Nat} {p : Pointer} :
    p ∈ t.pointersAt i ↔ p.source = i ∧ ∃ x id,
      (t.node i).transitions[p.position]? = some x ∧ x.kind = .moves id p.target := by
  simp only [pointersAt, List.mem_filterMap, Prod.exists, List.mem_zipIdx_iff_getElem?,
    Option.map_eq_some_iff]
  constructor
  · rintro ⟨x, n, hx, j, hj, rfl⟩
    cases hk : x.kind with
    | moves id k =>
      rw [hk] at hj
      cases hj
      exact ⟨rfl, x, id, hx, hk⟩
    | stays =>
      rw [hk] at hj
      cases hj
  · rintro ⟨rfl, x, id, hx, hk⟩
    exact ⟨x, p.position, hx, p.target, by rw [hk]; rfl, rfl⟩

theorem mem_pointers {t : Tree S O E} {p : Pointer} : p ∈ t.pointers ↔ t.Points p := by
  simp only [pointers, List.mem_flatMap, List.mem_range, mem_pointersAt, Points]
  constructor
  · rintro ⟨i, hi, rfl, h⟩
    exact ⟨hi, h⟩
  · rintro ⟨hi, h⟩
    exact ⟨p.source, hi, rfl, h⟩

theorem pointers_ordered (t : Tree S O E) : t.pointers.Pairwise Pointer.Before := by
  refine List.pairwise_flatMap.mpr ⟨?_, ?_⟩
  · intro i _
    -- the positions within one state count up
    have hpositions : ((t.node i).transitions.zipIdx.map Prod.snd).Pairwise (· < ·) := by
      rw [List.zipIdx_map_snd]
      exact List.pairwise_lt_range'
    refine List.pairwise_filterMap.mpr ((List.pairwise_map.mp hpositions).imp ?_)
    intro x y hlt p hp q hq
    obtain ⟨j, _, rfl⟩ := Option.map_eq_some_iff.mp hp
    obtain ⟨k, _, rfl⟩ := Option.map_eq_some_iff.mp hq
    exact Or.inr ⟨rfl, hlt⟩
  · refine List.pairwise_lt_range.imp ?_
    intro i j hlt p hp q hq
    rw [← (mem_pointersAt.mp hp).1, ← (mem_pointersAt.mp hq).1] at hlt
    exact Or.inl hlt

theorem targets_eq (t : Tree S O E) : t.targets = firsts (t.pointers.map Pointer.target) := by
  have hat (i : Nat) : (t.pointersAt i).map Pointer.target =
      (t.node i).transitions.filterMap fun x => x.kind.index? := by
    have hkind (x : Transition S O E × Nat) :
        (x.1.kind.index?.map (Pointer.mk i x.2)).map Pointer.target = x.1.kind.index? := by
      cases x.1.kind <;> rfl
    calc (t.pointersAt i).map Pointer.target
      _ = (t.node i).transitions.zipIdx.filterMap fun x => x.1.kind.index? := by
        simp only [pointersAt, List.map_filterMap, hkind]
      _ = ((t.node i).transitions.zipIdx.map Prod.fst).filterMap fun x => x.kind.index? := by
        rw [List.filterMap_map]
        rfl
      _ = (t.node i).transitions.filterMap fun x => x.kind.index? := by
        rw [List.zipIdx_map_fst]
  rw [targets, nodes_eq, pointers, List.map_flatMap, List.flatMap_map]
  simp only [hat]

theorem mem_targets_iff {t : Tree S O E} {i : Nat} :
    i ∈ t.targets ↔ ∃ p, t.Points p ∧ p.target = i := by
  rw [targets_eq, mem_firsts, List.mem_map]
  simp only [mem_pointers]

theorem initialIds_eq (t : Tree S O E) (i : Nat) : t.initialIds i = (State.mk t i).initialIds := by
  rw [initialIds, initials, State.initialIds, State.substates, List.filter_map, List.map_map]
  rfl

theorem ids_eq (t : Tree S O E) : t.ids = (List.range t.size).map fun i => (t.node i).id := by
  rw [ids, nodes_eq, List.map_map]
  rfl

theorem rivalInitials_eq (t : Tree S O E) : ∃ rivals : List Nat,
    t.rivalInitials =
        rivals.map (fun i => .severalInitials (t.node i).id (State.mk t i).initialIds) ∧
      (∀ i, i ∈ rivals ↔ i < t.size ∧ 1 < (State.mk t i).initialIds.length) ∧
      rivals.Pairwise (· < ·) := by
  refine ⟨(List.range t.size).filter fun i => 1 < (State.mk t i).initialIds.length, ?_, ?_, ?_⟩
  · rw [rivalInitials, ← filterMap_if]
    simp only [initialIds_eq]
  · intro i
    rw [List.mem_filter, decide_eq_true_eq, List.mem_range]
  · exact List.pairwise_lt_range.filter _

theorem unclearTargets_eq (t : Tree S O E) : ∃ targets : List Nat,
    t.unclearTargets =
        targets.map (fun i => .targetInitials (t.node i).id (State.mk t i).initialIds) ∧
      (∀ i, i ∈ targets ↔ (∃ p, t.Points p ∧ p.target = i) ∧
        (State.mk t i).isComposite = true ∧ (State.mk t i).initialIds.length ≠ 1) ∧
      targets.Pairwise fun i j =>
        ∃ p, t.Points p ∧ p.target = i ∧ ∀ q, t.Points q → q.target = j → p.Before q := by
  refine ⟨(t.targets.filter fun i => (t.node i).isComposite).filter fun i =>
    (State.mk t i).initialIds.length ≠ 1, ?_, ?_, ?_⟩
  · rw [unclearTargets, ← filterMap_if]
    simp only [initialIds_eq]
  · intro i
    rw [List.mem_filter, List.mem_filter, decide_eq_true_eq, mem_targets_iff, and_assoc]
    rfl
  · have hordered := firsts_ordered Pointer.target (pointers_ordered t)
    rw [← targets_eq] at hordered
    refine ((hordered.filter _).filter _).imp ?_
    rintro i j ⟨p, hp, hi, hbefore⟩
    exact ⟨p, mem_pointers.mp hp, hi, fun q hq => hbefore q (mem_pointers.mpr hq)⟩

section

variable [DecidableEq S] (t : Tree S O E)

theorem mem_labelled {id : S} {i : Nat} :
    i ∈ t.labelled id ↔ i ∈ List.range t.size ∧ (t.node i).id = id := by
  rw [labelled, List.mem_filter, decide_eq_true_eq]

theorem repeatedIds_eq : ∃ ids : List S,
    t.repeatedIds = ids.map (fun id => .duplicateId id (t.labelled id).length) ∧
      (∀ id, id ∈ ids ↔ 1 < (t.labelled id).length) ∧
      ids.Pairwise fun a b => ∃ i ∈ t.labelled a, ∀ j ∈ t.labelled b, i < j := by
  have hcount (id : S) : t.ids.countP (· = id) = (t.labelled id).length := by
    rw [ids_eq, List.countP_map, List.countP_eq_length_filter]
    rfl
  refine ⟨(firsts t.ids).filter fun id => 1 < (t.labelled id).length, ?_, ?_, ?_⟩
  · rw [repeatedIds, ← filterMap_if]
    simp only [hcount]
  · intro id
    rw [List.mem_filter, decide_eq_true_eq, mem_firsts]
    refine and_iff_right_of_imp fun hmany => ?_
    -- an id that labels a node is among the ids
    obtain ⟨i, hi⟩ := List.exists_mem_of_length_pos (Nat.lt_of_succ_lt hmany)
    rw [ids_eq]
    exact List.mem_map.mpr ⟨i, (mem_labelled t).mp hi⟩
  · have hordered := firsts_ordered (fun i => (t.node i).id) (List.pairwise_lt_range (n := t.size))
    rw [← ids_eq] at hordered
    refine (hordered.filter _).imp ?_
    rintro a b ⟨i, hi, ha, hbefore⟩
    refine ⟨i, (mem_labelled t).mpr ⟨hi, ha⟩, ?_⟩
    intro j hj
    obtain ⟨hj, hb⟩ := (mem_labelled t).mp hj
    exact hbefore j hj hb

/-- The rules report, one after the other and each thing once: the ids that label several nodes, in
the order of their first nodes, with the number of nodes; the nodes with several initial substates,
in their own order, with those; and the targets that are composite but have not exactly one initial
substate, in the order of the first transitions to them, with those that they have. A tree is valid
exactly if nothing is reported, and else fails with just that. -/
theorem check_reports_exactly :
    ∃ (ids : List S) (rivals targets : List Nat),
      let reports : List (Violation S) :=
        ids.map (fun id => .duplicateId id (t.labelled id).length) ++
          rivals.map (fun i => .severalInitials (t.node i).id (State.mk t i).initialIds) ++
          targets.map (fun i => .targetInitials (t.node i).id (State.mk t i).initialIds)
      t.check = reports ∧
      ((∀ id, id ∈ ids ↔ 1 < (t.labelled id).length) ∧
        ids.Pairwise fun a b => ∃ i ∈ t.labelled a, ∀ j ∈ t.labelled b, i < j) ∧
      ((∀ i, i ∈ rivals ↔ i < t.size ∧ 1 < (State.mk t i).initialIds.length) ∧
        rivals.Pairwise (· < ·)) ∧
      ((∀ i, i ∈ targets ↔ (∃ p, t.Points p ∧ p.target = i) ∧
          (State.mk t i).isComposite = true ∧ (State.mk t i).initialIds.length ≠ 1) ∧
        targets.Pairwise fun i j =>
          ∃ p, t.Points p ∧ p.target = i ∧ ∀ q, t.Points q → q.target = j → p.Before q) ∧
      (t.validate = .ok () ↔ reports = []) ∧
      ∀ vs, t.validate = .error vs ↔ vs.1 = reports := by
  obtain ⟨ids, hids, hmany, hfirst⟩ := repeatedIds_eq t
  obtain ⟨rivals, hrivals, hseveral, hascending⟩ := rivalInitials_eq t
  obtain ⟨targets, htargets, hunclear, hnamed⟩ := unclearTargets_eq t
  refine ⟨ids, rivals, targets, ?_⟩
  intro reports
  have hcheck : t.check = reports := by
    simp only [check, rules, List.flatMap_cons, List.flatMap_nil, List.append_nil, hids, hrivals,
      htargets, reports, List.append_assoc]
  refine ⟨hcheck, ⟨hmany, hfirst⟩, ⟨hseveral, hascending⟩, ⟨hunclear, hnamed⟩, ?_, ?_⟩
  · rw [← hcheck, validate]
    split
    · next hnone => exact iff_of_true rfl hnone
    · next hsome =>
      refine iff_of_false ?_ hsome
      intro h
      cases h
  · intro vs
    rw [← hcheck, validate]
    split
    · next hnone =>
      refine iff_of_false ?_ ?_
      · intro h
        cases h
      · -- a failure holds at least one violation
        intro h
        exact vs.2 (h.trans hnone)
    · rw [Except.error.injEq, Subtype.ext_iff, eq_comm]

end

/-- Two nodes share an id, both are initial, and a transition of one leads to their parent. -/
example :
    let first (n : Node Nat Unit Unit) := { n with initial := true }
    let back (n : Node Nat Unit Unit) :=
      { n with transitions := [⟨1, (), .moves 0 0, none, none, none⟩] }
    let t := ((((single 0).addNode 1 0).addNode 1 0).modify 1 (first ∘ back)).modify 2 first
    t.check = [.duplicateId 1 2, .severalInitials 0 [1, 1], .targetInitials 0 [1, 1]] := by
  decide

end Tree

end StateTree
