import Mathlib.Data.List.Nodup
import Mathlib.Data.List.Perm.Basic
import StateTree.Proofs.Tree.Path
import StateTree.Tree.Outline

/-!
The outline of a linked tree. It shows at every place the state there and, as its parts, the outlines
of the substates in their order; so every state is in it once, within its ancestors and nothing else.
-/

namespace StateTree

variable {S O E : Type} {α β : Type}

namespace Outline

mutual

def map (f : α → β) : Outline α → Outline β
  | .node a parts => .node (f a) (mapAll f parts)

def mapAll (f : α → β) : List (Outline α) → List (Outline β)
  | [] => []
  | o :: rest => o.map f :: mapAll f rest

end

mutual

/-- Each content with those around it, the outermost first. -/
def placed (around : List α) : Outline α → List (List α × α)
  | .node a parts => (around, a) :: allPlaced (around ++ [a]) parts

def allPlaced (around : List α) : List (Outline α) → List (List α × α)
  | [] => []
  | o :: rest => o.placed around ++ allPlaced around rest

end

theorem mapAll_eq (f : α → β) (parts : List (Outline α)) : mapAll f parts = parts.map (map f) := by
  induction parts with
  | nil => rfl
  | cons o rest ih => rw [mapAll, ih, List.map_cons]

theorem allPlaced_eq (around : List α) (parts : List (Outline α)) :
    allPlaced around parts = parts.flatMap (placed around) := by
  induction parts with
  | nil => rfl
  | cons o rest ih => rw [allPlaced, ih, List.flatMap_cons]

mutual

theorem map_snd_placed (around : List α) (o : Outline α) :
    (o.placed around).map Prod.snd = o.contents :=
  match o with
  | .node a parts => by
    rw [placed, contents, List.map_cons, map_snd_allPlaced (around ++ [a]) parts]

theorem map_snd_allPlaced (around : List α) (parts : List (Outline α)) :
    (allPlaced around parts).map Prod.snd = allContents parts :=
  match parts with
  | [] => rfl
  | o :: rest => by
    rw [allPlaced, allContents, List.map_append, map_snd_placed around o,
      map_snd_allPlaced around rest]

end

end Outline

/-- The contents of an outline are what it shows of a state and of all states below it: its parts
are those of the substates, in their order. -/
inductive Tree.Shows (t : Tree S O E) (f : State S O E → α) : Nat → Outline α → Prop
  | node (i : Nat) (parts : List (Outline α)) :
    List.Forall₂ (t.Shows f) (t.node i).children parts → t.Shows f i (.node (f ⟨t, i⟩) parts)

namespace Tree

variable {t : Tree S O E}

/-- The outline of the state at `i`. -/
def outlineAt (t : Tree S O E) (f : State S O E → α) (i : Nat) : Outline α :=
  t.outlineFrom f t.size i

theorem outlineFrom_enough (ht : t.Linked) (f : State S O E → α) {n m i : Nat} (hi : i < t.size)
    (hn : t.size ≤ n + i) (hm : t.size ≤ m + i) :
    t.outlineFrom f n i = t.outlineFrom f m i := by
  -- substates are placed after their parent, so `t.size - i` levels are enough
  induction n generalizing m i with
  | zero => omega
  | succ n ih =>
    obtain ⟨m, rfl⟩ : ∃ k, m = k + 1 := ⟨m - 1, by omega⟩
    simp only [outlineFrom]
    congr 1
    apply List.map_congr_left
    intro c hc
    obtain ⟨hlt, hsize⟩ := child_lt ht hi hc
    exact ih hsize (by omega) (by omega)

theorem outlineAt_eq (ht : t.Linked) (f : State S O E → α) {i : Nat} (hi : i < t.size) :
    t.outlineAt f i = .node (f ⟨t, i⟩) ((t.node i).children.map (t.outlineAt f)) := by
  obtain ⟨n, hn⟩ : ∃ n, t.size = n + 1 := ⟨t.size - 1, by omega⟩
  have hparts : (t.node i).children.map (t.outlineFrom f n) =
      (t.node i).children.map (t.outlineAt f) := by
    apply List.map_congr_left
    intro c hc
    obtain ⟨hlt, hsize⟩ := child_lt ht hi hc
    exact outlineFrom_enough ht f hsize (by omega) (by omega)
  rw [← hparts, outlineAt, hn, outlineFrom]

theorem outlineAt_shows (ht : t.Linked) (f : State S O E → α) {i : Nat} (hi : i < t.size) :
    t.Shows f i (t.outlineAt f i) := by
  refine upward ht (P := fun i => t.Shows f i (t.outlineAt f i)) ?_ hi
  intro i hi ih
  rw [outlineAt_eq ht f hi]
  refine .node i _ ?_
  rw [List.forall₂_map_right_iff, List.forall₂_same]
  exact ih

theorem outlineAt_map (ht : t.Linked) {f : State S O E → α} {g : State S O E → β} {h : α → β}
    (hg : ∀ i < t.size, h (f ⟨t, i⟩) = g ⟨t, i⟩) {i : Nat} (hi : i < t.size) :
    (t.outlineAt f i).map h = t.outlineAt g i := by
  refine upward ht (P := fun i => (t.outlineAt f i).map h = t.outlineAt g i) ?_ hi
  intro i hi ih
  rw [outlineAt_eq ht f hi, outlineAt_eq ht g hi, Outline.map, Outline.mapAll_eq, List.map_map,
    hg i hi]
  exact congrArg _ (List.map_congr_left ih)

/-- What `f` says of the states that properly contain the one at `i`, the root first. -/
def around (t : Tree S O E) (f : State S O E → α) (i : Nat) : List α :=
  (t.path i).dropLast.map fun j => f ⟨t, j⟩

theorem around_child (ht : t.Linked) (f : State S O E → α) {i c : Nat} (hi : i < t.size)
    (hc : c ∈ (t.node i).children) : t.around f c = t.around f i ++ [f ⟨t, i⟩] := by
  obtain ⟨hlt, hp⟩ := (mem_children_iff ht hi).mp hc
  obtain ⟨above, ha⟩ := t.path_eq_init i
  rw [around, around, path_child ht hlt hp, List.dropLast_concat, ha, List.dropLast_concat,
    List.map_append]
  rfl

/-- The places of the state at `i` and of all states below it. -/
def within (t : Tree S O E) (i : Nat) : List Nat :=
  (List.range t.size).filter fun j => i ∈ t.path j

theorem mem_within {i j : Nat} : j ∈ t.within i ↔ j < t.size ∧ i ∈ t.path j := by
  simp [within]

theorem mem_path_child (ht : t.Linked) {i j : Nat} (hi : i < t.size) (hj : j < t.size) :
    i ∈ t.path j ↔ j = i ∨ ∃ c ∈ (t.node i).children, c ∈ t.path j := by
  rw [mem_path_iff ht hj]
  constructor
  · rintro ⟨seg, hl⟩
    cases seg with
    | nil => exact .inl hl.eq_of_nil.symm
    | cons c seg =>
      obtain ⟨hc, hrest⟩ := hl.cons ht
      exact .inr ⟨c, (mem_children_iff ht hi).mpr ⟨hc.lt, hc.parent ht⟩,
        (mem_path_iff ht hj).mpr ⟨seg, hrest⟩⟩
  · rintro (rfl | ⟨c, hc, hm⟩)
    · exact ⟨[], .refl hj⟩
    · obtain ⟨hlt, hp⟩ := (mem_children_iff ht hi).mp hc
      obtain ⟨seg, hl⟩ := (mem_path_iff ht hj).mp hm
      exact ⟨_, (Leads.child ht hlt hp).trans hl⟩

/-- The states within a state are the state itself and those within its substates, which have none
in common. -/
theorem within_perm (ht : t.Linked) {i : Nat} (hi : i < t.size) :
    (t.within i).Perm (i :: (t.node i).children.flatMap t.within) := by
  have hnodup (i : Nat) : (t.within i).Nodup := List.nodup_range.filter _
  have hapart {c c' j : Nat} (hc : c ∈ (t.node i).children) (hc' : c' ∈ (t.node i).children)
      (hj : j ∈ t.within c) (hj' : j ∈ t.within c') : c = c' := by
    obtain ⟨hlt, hp⟩ := (mem_children_iff ht hi).mp hc
    obtain ⟨hlt', hp'⟩ := (mem_children_iff ht hi).mp hc'
    obtain ⟨seg, hl⟩ := (mem_path_iff ht (mem_within.mp hj).1).mp (mem_within.mp hj).2
    obtain ⟨seg', hl'⟩ := (mem_path_iff ht (mem_within.mp hj').1).mp (mem_within.mp hj').2
    -- there is one way only down from the state
    have hway := ((Leads.child ht hlt hp).trans hl).unique ((Leads.child ht hlt' hp').trans hl')
    exact (List.cons.inj hway).1
  have hchildren : (t.node i).children.Nodup := by
    rw [ht.children i hi]
    exact List.nodup_range.filter _
  refine (List.perm_ext_iff_of_nodup (hnodup i) (List.nodup_cons.mpr ⟨?_, ?_⟩)).mpr ?_
  · rw [List.mem_flatMap]
    rintro ⟨c, hc, hm⟩
    have hle := mem_path_le ht hi (mem_within.mp hm).2
    have hlt := (child_lt ht hi hc).1
    omega
  · refine List.nodup_flatMap.mpr ⟨fun c _ => hnodup c, ?_⟩
    refine hchildren.imp_of_mem ?_
    intro c c' hc hc' hne j hj hj'
    exact hne (hapart hc hc' hj hj')
  · intro j
    rw [mem_within, List.mem_cons, List.mem_flatMap]
    constructor
    · rintro ⟨hj, hm⟩
      rcases (mem_path_child ht hi hj).mp hm with he | ⟨c, hc, hm⟩
      · exact .inl he
      · exact .inr ⟨c, hc, mem_within.mpr ⟨hj, hm⟩⟩
    · rintro (rfl | ⟨c, hc, hm⟩)
      · exact ⟨hi, (mem_path_child ht hi hi).mpr (.inl rfl)⟩
      · have hj := (mem_within.mp hm).1
        exact ⟨hj, (mem_path_child ht hi hj).mpr (.inr ⟨c, hc, (mem_within.mp hm).2⟩)⟩

theorem placed_outlineAt (ht : t.Linked) (f : State S O E → α) {i : Nat} (hi : i < t.size) :
    ((t.outlineAt f i).placed (t.around f i)).Perm
      ((t.within i).map fun j => (t.around f j, f ⟨t, j⟩)) := by
  refine upward ht (P := fun i => ((t.outlineAt f i).placed (t.around f i)).Perm
    ((t.within i).map fun j => (t.around f j, f ⟨t, j⟩))) ?_ hi
  intro i hi ih
  rw [outlineAt_eq ht f hi, Outline.placed, Outline.allPlaced_eq, List.flatMap_map]
  have hwithin := (within_perm ht hi).map fun j => (t.around f j, f ⟨t, j⟩)
  rw [List.map_cons, List.map_flatMap] at hwithin
  refine (List.Perm.cons _ ?_).trans hwithin.symm
  apply List.Perm.flatMap_left
  intro c hc
  rw [← around_child ht f hi hc]
  exact ih c hc

theorem within_root (ht : t.Linked) : t.within 0 = List.range t.size := by
  apply List.filter_eq_self.mpr
  intro j hj
  obtain ⟨seg, hl⟩ := root_leads ht (List.mem_range.mp hj)
  exact decide_eq_true ((mem_path_iff ht (List.mem_range.mp hj)).mpr ⟨seg, hl⟩)

/-- Every state is in the outline once, with its ancestors around it. -/
theorem placed_outline (ht : t.Linked) (f : State S O E → α) :
    ((t.outline f).placed []).Perm (t.states.map fun s => (t.around f s.index, f s)) := by
  have hroot := placed_outlineAt ht f t.size_pos
  rw [within_root ht] at hroot
  rw [states, List.map_map]
  exact hroot

theorem mem_states {s : State S O E} : s ∈ t.states ↔ ∃ i < t.size, ⟨t, i⟩ = s := by
  simp [states]

theorem mem_contents_outline (ht : t.Linked) (f : State S O E → α) {a : α} :
    a ∈ (t.outline f).contents ↔ ∃ s ∈ t.states, f s = a := by
  have hperm := (placed_outline ht f).map Prod.snd
  rw [Outline.map_snd_placed, List.map_map] at hperm
  rw [hperm.mem_iff, List.mem_map]
  rfl

end Tree

end StateTree
