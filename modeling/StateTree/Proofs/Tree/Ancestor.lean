import StateTree.Proofs.Tree.Path

/-!
The deepest state around two others, and the line of initial substates below a state.
-/

namespace StateTree

theorem sharedStart_prefix_left [DecidableEq α] (as bs : List α) : sharedStart as bs <+: as := by
  induction as generalizing bs with
  | nil => exact List.prefix_rfl
  | cons a as ih =>
    cases bs with
    | nil => exact List.nil_prefix
    | cons b bs =>
      simp only [sharedStart]
      split
      · exact (List.prefix_cons_inj a).mpr (ih bs)
      · exact List.nil_prefix

theorem sharedStart_prefix_right [DecidableEq α] (as bs : List α) : sharedStart as bs <+: bs := by
  induction as generalizing bs with
  | nil => exact List.nil_prefix
  | cons a as ih =>
    cases bs with
    | nil => exact List.nil_prefix
    | cons b bs =>
      simp only [sharedStart]
      split
      · next h => exact h ▸ (List.prefix_cons_inj a).mpr (ih bs)
      · exact List.nil_prefix

theorem prefix_sharedStart [DecidableEq α] {start as bs : List α} (ha : start <+: as)
    (hb : start <+: bs) : start <+: sharedStart as bs := by
  induction start generalizing as bs with
  | nil => exact List.nil_prefix
  | cons x start ih =>
    obtain ⟨as, rfl⟩ := ha
    obtain ⟨bs, rfl⟩ := hb
    simp only [List.cons_append, sharedStart, if_true]
    exact (List.prefix_cons_inj x).mpr (ih (List.prefix_append _ _) (List.prefix_append _ _))

namespace Tree

variable {S O E : Type} {t : Tree S O E}

theorem commonAncestor_root {i j : Nat} (h : i = 0 ∨ j = 0) : t.commonAncestor i j = 0 := by
  have hn (k : Nat) : sharedStart (t.path k).dropLast [] = [] := by
    cases (t.path k).dropLast <;> rfl
  rcases h with h | h
  · subst h
    rfl
  · subst h
    simp only [commonAncestor, path_zero, List.dropLast_singleton, hn]
    rfl

theorem root_below (ht : t.Linked) {i : Nat} (hi : i < t.size) (h0 : i ≠ 0) :
    t.below 0 i = true := by
  obtain ⟨seg, hl⟩ := root_leads ht hi
  exact (below_iff ht hi).mpr ⟨seg, fun hn => h0 (hn ▸ hl).eq_of_nil.symm, hl⟩

theorem path_prefix_of_below (ht : t.Linked) {i j : Nat} (hj : j < t.size)
    (h : t.below i j = true) : t.path i <+: (t.path j).dropLast := by
  obtain ⟨seg, hn, hl⟩ := (below_iff ht hj).mp h
  rw [hl.path, List.dropLast_append_of_ne_nil hn]
  exact List.prefix_append _ _

/-- What the proper paths to two states share is the path to the deepest state around them. -/
theorem path_commonAncestor (ht : t.Linked) {i j : Nat} (hi : i < t.size) (hj : j < t.size)
    (hi0 : i ≠ 0) (hj0 : j ≠ 0) :
    t.path (t.commonAncestor i j) = sharedStart (t.path i).dropLast (t.path j).dropLast := by
  have hroot : [0] <+: sharedStart (t.path i).dropLast (t.path j).dropLast :=
    prefix_sharedStart (path_prefix_of_below ht hi (root_below ht hi hi0))
      (path_prefix_of_below ht hj (root_below ht hj hj0))
  have hstart : sharedStart (t.path i).dropLast (t.path j).dropLast <+: t.path i :=
    (sharedStart_prefix_left _ _).trans (List.dropLast_prefix _)
  unfold commonAncestor
  rcases List.eq_nil_or_concat (sharedStart (t.path i).dropLast (t.path j).dropLast) with
    hn | ⟨above, last, hs⟩
  · rw [hn] at hroot
    exact absurd (List.prefix_nil.mp hroot) (List.cons_ne_nil 0 [])
  · -- a start of a path is the path to the state where it ends
    rw [hs, List.concat_eq_append] at hstart ⊢
    obtain ⟨rest, hpath⟩ := hstart
    rw [List.append_assoc, List.singleton_append] at hpath
    rw [List.getLast?_concat, Option.getD_some]
    exact (path_of_start ht hi hpath.symm).2

/-- Two states apart from the root share a state that properly contains both. -/
theorem commonAncestor_below (ht : t.Linked) {i j : Nat} (hi : i < t.size) (hj : j < t.size)
    (hi0 : i ≠ 0) (hj0 : j ≠ 0) :
    t.below (t.commonAncestor i j) i = true ∧ t.below (t.commonAncestor i j) j = true := by
  -- the path to it is what the proper paths to both share
  have hlast : t.commonAncestor i j ∈ t.path (t.commonAncestor i j) :=
    List.mem_of_getLast? (getLast_path _)
  rw [path_commonAncestor ht hi hj hi0 hj0] at hlast
  constructor
  · simpa [below] using (sharedStart_prefix_left _ _).subset hlast
  · simpa [below] using (sharedStart_prefix_right _ _).subset hlast

theorem below_leads (ht : t.Linked) {limit i : Nat} (hi : i < t.size)
    (h : t.below limit i = true) : ∃ seg, t.Leads limit seg i := by
  obtain ⟨seg, _, hl⟩ := (below_iff ht hi).mp h
  exact ⟨seg, hl⟩

theorem commonAncestor_leads (ht : t.Linked) {i j : Nat} (hi : i < t.size) (hj : j < t.size) :
    (∃ seg, t.Leads (t.commonAncestor i j) seg i) ∧
      ∃ seg, t.Leads (t.commonAncestor i j) seg j := by
  -- the root is around every state; other states share one that contains both
  by_cases h0 : i = 0 ∨ j = 0
  · rw [commonAncestor_root h0]
    exact ⟨root_leads ht hi, root_leads ht hj⟩
  · obtain ⟨hbi, hbj⟩ := commonAncestor_below ht hi hj (fun h => h0 (Or.inl h))
      (fun h => h0 (Or.inr h))
    exact ⟨below_leads ht hi hbi, below_leads ht hj hbj⟩

/-- A target other than the root lies below the deepest state around it and any source. -/
theorem commonAncestor_below_target (ht : t.Linked) {i j : Nat} (hi : i < t.size)
    (hj : j < t.size) (hj0 : j ≠ 0) : t.below (t.commonAncestor i j) j = true := by
  by_cases hi0 : i = 0
  · rw [commonAncestor_root (Or.inl hi0)]
    exact root_below ht hj hj0
  · exact (commonAncestor_below ht hi hj hi0 hj0).2

theorem firstInitial?_eq_none_iff {i : Nat} :
    t.firstInitial? i = none ↔ ∀ c ∈ (t.node i).children, (t.node c).initial = false := by
  simp [firstInitial?]

/-- A state without substates has no initial one. -/
theorem firstInitial?_of_leaf {i : Nat} (h : (t.node i).isComposite = false) :
    t.firstInitial? i = none := by
  have hn : (t.node i).children = [] := by simpa [Node.isComposite] using h
  rw [firstInitial?, hn, List.find?_nil]

theorem firstInitial?_leads (ht : t.Linked) {i c : Nat} (hi : i < t.size)
    (h : t.firstInitial? i = some c) : t.Leads i [c] c := by
  have hm : c ∈ (t.node i).children := List.mem_of_find?_eq_some h
  obtain ⟨hc, hp⟩ := (mem_children_iff ht hi).mp hm
  exact .child ht hc hp

/-- What holds of a state without an initial substate, and of a state if it holds of its first
initial substate, holds of all states. -/
theorem upward_initial (ht : t.Linked) {P : Nat → Prop}
    (hends : ∀ i < t.size, t.firstInitial? i = none → P i)
    (hgoes : ∀ i < t.size, ∀ c, t.firstInitial? i = some c → P c → P i) {i : Nat}
    (hi : i < t.size) : P i := by
  refine upward ht ?_ hi
  intro i hi ih
  cases hc : t.firstInitial? i with
  | none => exact hends i hi hc
  | some c => exact hgoes i hi c hc (ih c (List.mem_of_find?_eq_some hc))

/-- First initial substates in turn below the state at `i`, at most `n` of them. -/
def initialsFrom (t : Tree S O E) : Nat → Nat → List Nat
  | 0, _ => []
  | n + 1, i =>
    match t.firstInitial? i with
    | some c => c :: t.initialsFrom n c
    | none => []

/-- All first initial substates in turn below the state at `i`. -/
def initialLine (t : Tree S O E) (i : Nat) : List Nat := t.initialsFrom t.size i

theorem initialsFrom_enough (ht : t.Linked) {n m i : Nat} (hi : i < t.size)
    (hn : t.size ≤ n + i) (hm : t.size ≤ m + i) : t.initialsFrom n i = t.initialsFrom m i := by
  -- each step goes to a later place, so `t.size - i` steps are enough
  induction n generalizing m i with
  | zero => omega
  | succ n ih =>
    obtain ⟨m, rfl⟩ : ∃ k, m = k + 1 := ⟨m - 1, by omega⟩
    simp only [initialsFrom]
    cases hc : t.firstInitial? i with
    | none => rfl
    | some c =>
      have hl := firstInitial?_leads ht hi hc
      have hlt := hl.mem_increasing ht (List.mem_singleton_self c)
      simp only [ih hl.lt (by omega) (by omega : t.size ≤ m + c)]

theorem initialLine_none {i : Nat} (h : t.firstInitial? i = none) : t.initialLine i = [] := by
  unfold initialLine
  cases t.size with
  | zero => rfl
  | succ n => simp only [initialsFrom, h]

theorem initialLine_some (ht : t.Linked) {i c : Nat} (hi : i < t.size)
    (h : t.firstInitial? i = some c) : t.initialLine i = c :: t.initialLine c := by
  have hl := firstInitial?_leads ht hi h
  have hlt := hl.mem_increasing ht (List.mem_singleton_self c)
  obtain ⟨n, hn⟩ : ∃ n, t.size = n + 1 := ⟨t.size - 1, by omega⟩
  have hline : t.initialLine i = c :: t.initialsFrom n c := by
    simp only [initialLine, hn, initialsFrom, h]
  rw [hline, initialLine, initialsFrom_enough ht hl.lt (by omega) (Nat.le_add_right _ _)]

/-- The state in which following initial substates ends. -/
def lineEnd (t : Tree S O E) (i : Nat) : Nat := (t.initialLine i).getLast?.getD i

theorem lineEnd_none {i : Nat} (h : t.firstInitial? i = none) : t.lineEnd i = i := by
  rw [lineEnd, initialLine_none h]
  rfl

theorem lineEnd_some (ht : t.Linked) {i c : Nat} (hi : i < t.size)
    (h : t.firstInitial? i = some c) : t.lineEnd i = t.lineEnd c := by
  rw [lineEnd, initialLine_some ht hi h, List.getLast?_cons, Option.getD_some]
  rfl

theorem initialLine_leads (ht : t.Linked) {i : Nat} (hi : i < t.size) :
    t.Leads i (t.initialLine i) (t.lineEnd i) ∧ t.firstInitial? (t.lineEnd i) = none := by
  refine upward_initial ht
    (P := fun i => t.Leads i (t.initialLine i) (t.lineEnd i) ∧ t.firstInitial? (t.lineEnd i) = none)
    ?_ ?_ hi
  · intro i hi hnone
    rw [lineEnd_none hnone, initialLine_none hnone]
    exact ⟨.refl hi, hnone⟩
  · intro i hi c hc ⟨hline, hend⟩
    rw [initialLine_some ht hi hc, lineEnd_some ht hi hc]
    exact ⟨(firstInitial?_leads ht hi hc).trans hline, hend⟩

end Tree

end StateTree
