import Mathlib.Logic.Relation
import StateTree.Proofs.Run

/-!
The deepest state around two others, told by parents alone: of the states that properly contain both
it is the one that all others contain.
-/

namespace StateTree

theorem sharedStart_comm [DecidableEq α] (as bs : List α) :
    sharedStart as bs = sharedStart bs as := by
  -- each is a start of both lists, and so of the other
  have hle (as bs : List α) : sharedStart as bs <+: sharedStart bs as :=
    prefix_sharedStart (sharedStart_prefix_right as bs) (sharedStart_prefix_left as bs)
  exact (hle as bs).eq_of_length_le (hle bs as).length_le

theorem sharedStart_of_prefix [DecidableEq α] {as bs : List α} (h : as <+: bs) :
    sharedStart as bs = as := by
  have hle : as <+: sharedStart as bs := prefix_sharedStart List.prefix_rfl h
  exact (hle.eq_of_length_le (sharedStart_prefix_left as bs).length_le).symm

namespace Tree

variable {S O E : Type} {t : Tree S O E}

/-- The state at `i` properly contains the state at `j`: it is its parent, or the parent of one that
properly contains it. -/
def Above (t : Tree S O E) : Nat → Nat → Prop :=
  Relation.TransGen fun p c => (t.node c).parent = some p

theorem above_of_leads (ht : t.Linked) {i j : Nat} {seg : List Nat} (hn : seg ≠ [])
    (h : t.Leads i seg j) : t.Above i j := by
  induction seg generalizing i with
  | nil => exact absurd rfl hn
  | cons k seg ih =>
    obtain ⟨hk, hrest⟩ := h.cons ht
    cases seg with
    | nil => exact .single (hrest.eq_of_nil ▸ hk.parent ht)
    | cons l seg => exact .head (hk.parent ht) (ih (List.cons_ne_nil l seg) hrest)

theorem above_iff_below (ht : t.Linked) {i j : Nat} (hj : j < t.size) :
    t.Above i j ↔ t.below i j = true := by
  rw [below_iff ht hj]
  constructor
  · intro h
    induction h with
    | single hparent => exact ⟨_, List.cons_ne_nil _ _, .child ht hj hparent⟩
    | tail _ hparent ih =>
      -- a parent is placed before its child, so it is inside the tree as well
      have hlt := parent_lt ht hj hparent
      obtain ⟨seg, _, hl⟩ := ih (by omega)
      exact ⟨seg ++ [_], by simp, hl.trans (.child ht hj hparent)⟩
  · rintro ⟨seg, hn, hl⟩
    exact above_of_leads ht hn hl

theorem commonAncestor_contains (ht : t.Linked) {i j k : Nat} (hi : i < t.size) (hj : j < t.size)
    (hi0 : i ≠ 0) (hj0 : j ≠ 0) (hki : t.below k i = true) (hkj : t.below k j = true) :
    k = t.commonAncestor i j ∨ t.Above k (t.commonAncestor i j) := by
  have hshared : t.path k <+: t.path (t.commonAncestor i j) := by
    rw [path_commonAncestor ht hi hj hi0 hj0]
    exact prefix_sharedStart (path_prefix_of_below ht hi hki) (path_prefix_of_below ht hj hkj)
  have hlt : t.commonAncestor i j < t.size :=
    Nat.lt_trans (below_lt ht hi (commonAncestor_below ht hi hj hi0 hj0).1) hi
  obtain ⟨seg, hpath⟩ := hshared
  have hl : t.Leads k seg (t.commonAncestor i j) := ⟨hlt, hpath.symm⟩
  by_cases hn : seg = []
  · exact Or.inl (hn ▸ hl).eq_of_nil
  · exact Or.inr (above_of_leads ht hn hl)

theorem commonAncestor_comm (t : Tree S O E) (i j : Nat) :
    t.commonAncestor i j = t.commonAncestor j i := by
  rw [commonAncestor, commonAncestor, sharedStart_comm]

/-- Above a state and one that it contains, or itself, its parent is the deepest state. -/
theorem commonAncestor_parent (ht : t.Linked) {i j : Nat} (hi : i < t.size) (hi0 : i ≠ 0)
    (h : (t.path i).dropLast <+: (t.path j).dropLast) :
    (t.node i).parent = some (t.commonAncestor i j) := by
  obtain ⟨p, _, hparent⟩ := ht.parent i (by omega) hi
  have hpath : (t.path i).dropLast = t.path p := by
    rw [path_child ht hi hparent, List.dropLast_concat]
  rw [commonAncestor, sharedStart_of_prefix h, hpath, getLast_path, Option.getD_some, hparent]

/-- Two states apart from the root are both properly contained in the deepest state around them, and
every other state that properly contains both contains that one. It is the root where one of them is
the root, the parent of a state with itself, and the parent of a state with one below it. -/
theorem commonAncestor_deepest [DecidableEq S] (root : S)
    (declarations : List (Declaration S O E)) :
    let t := build root declarations
    ∀ i < t.size, ∀ j < t.size,
      (i ≠ 0 → j ≠ 0 →
        t.Above (t.commonAncestor i j) i ∧ t.Above (t.commonAncestor i j) j ∧
          ∀ k, t.Above k i → t.Above k j →
            k = t.commonAncestor i j ∨ t.Above k (t.commonAncestor i j)) ∧
      (i = 0 ∨ j = 0 → t.commonAncestor i j = 0) ∧
      t.commonAncestor i j = t.commonAncestor j i ∧
      (i ≠ 0 → (t.node i).parent = some (t.commonAncestor i i)) ∧
      (i ≠ 0 → t.Above i j → (t.node i).parent = some (t.commonAncestor i j)) := by
  intro t i hi j hj
  have ht : t.Linked := (build_sound root declarations).toLinked
  refine ⟨?_, commonAncestor_root, commonAncestor_comm t i j, ?_, ?_⟩
  · intro hi0 hj0
    obtain ⟨hai, haj⟩ := commonAncestor_below ht hi hj hi0 hj0
    refine ⟨(above_iff_below ht hi).mpr hai, (above_iff_below ht hj).mpr haj, ?_⟩
    intro k hki hkj
    exact commonAncestor_contains ht hi hj hi0 hj0 ((above_iff_below ht hi).mp hki)
      ((above_iff_below ht hj).mp hkj)
  · intro hi0
    exact commonAncestor_parent ht hi hi0 List.prefix_rfl
  · intro hi0 habove
    have hbelow := (above_iff_below ht hj).mp habove
    exact commonAncestor_parent ht hi hi0
      ((List.dropLast_prefix _).trans (path_prefix_of_below ht hj hbelow))

end Tree

namespace Radio

theorem bands_share_on :
    let t := Tree.build .root declarations
    3 < t.size ∧ 4 < t.size ∧ t.commonAncestor 3 4 = 2 ∧ t.commonAncestor 2 4 = 0 ∧
      t.Above 2 3 ∧ t.Above 2 4 ∧ t.Above 0 3 ∧ t.Above 0 4 ∧ t.Above 0 2 ∧
      (t.node 2).parent = some 0 := by
  intro t
  have h3 : 3 < t.size := by decide
  have h4 : 4 < t.size := by decide
  have hbands : t.commonAncestor 3 4 = 2 := by decide
  have hon : t.commonAncestor 2 4 = 0 := by decide
  have hroot3 : t.Above 0 3 := .tail (b := 2) (.single rfl) rfl
  have hroot4 : t.Above 0 4 := .tail (b := 2) (.single rfl) rfl
  obtain ⟨hdeepest, _⟩ := Tree.commonAncestor_deepest Place.root declarations 3 h3 4 h4
  obtain ⟨ha3, ha4, hall⟩ := hdeepest (by decide) (by decide)
  have habove : t.Above 0 (t.commonAncestor 3 4) :=
    (hall 0 hroot3 hroot4).resolve_left (by decide)
  obtain ⟨_, _, _, _, hparent⟩ :=
    Tree.commonAncestor_deepest Place.root declarations 2 (by decide) 4 h4
  rw [hbands] at ha3 ha4 habove
  exact ⟨h3, h4, hbands, hon, ha3, ha4, hroot3, hroot4, habove, hon ▸ hparent (by decide) ha4⟩

end Radio

end StateTree
