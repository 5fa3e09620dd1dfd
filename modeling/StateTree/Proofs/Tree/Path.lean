import StateTree.Proofs.Tree.Sound
import StateTree.Tree.Ancestry

/-!
Paths of a linked tree. The path to a state extends the path to its parent, so a state is on the
path to another one exactly if its own path is the start of that path.
-/

namespace StateTree.Tree

variable {S O E : Type} {t : Tree S O E}

theorem climb_enough (ht : t.Linked) {i n : Nat} (hi : i < t.size) (hn : i ≤ n) :
    t.climb n i = t.path i := by
  refine downward ht (P := fun i => ∀ n, i ≤ n → t.climb n i = t.path i) ?_ ?_ hi n hn
  · intro n _
    cases n with
    | zero => rfl
    | succ n =>
      simp only [climb, ht.root]
      rfl
  · intro i _ p hlt hp ih n hn
    obtain ⟨n, rfl⟩ : ∃ m, n = m + 1 := ⟨n - 1, by omega⟩
    obtain ⟨k, rfl⟩ : ∃ k, i = k + 1 := ⟨i - 1, by omega⟩
    simp only [path, climb, hp]
    rw [ih n (by omega), ih k (by omega)]

theorem path_zero : t.path 0 = [0] := rfl

theorem path_child (ht : t.Linked) {c p : Nat} (hc : c < t.size) (hp : (t.node c).parent = some p) :
    t.path c = t.path p ++ [c] := by
  have hlt := parent_lt ht hc hp
  obtain ⟨k, rfl⟩ : ∃ k, c = k + 1 := ⟨c - 1, by omega⟩
  simp only [path, climb, hp]
  rw [climb_enough ht (by omega) (by omega : p ≤ k)]
  rfl

theorem path_eq_init (i : Nat) : ∃ above, t.path i = above ++ [i] := by
  cases i with
  | zero => exact ⟨[], rfl⟩
  | succ k =>
    simp only [path, climb]
    split
    · exact ⟨[], rfl⟩
    · exact ⟨_, rfl⟩

theorem path_ne_nil (i : Nat) : t.path i ≠ [] := by
  obtain ⟨above, h⟩ := t.path_eq_init i
  simp [h]

theorem getLast_path (i : Nat) : (t.path i).getLast? = some i := by
  obtain ⟨above, h⟩ := t.path_eq_init i
  simp [h]

theorem path_injective {i j : Nat} (h : t.path i = t.path j) : i = j := by
  have hl := congrArg List.getLast? h
  rw [getLast_path, getLast_path] at hl
  exact Option.some.inj hl

/-- Every start of a path is the path to the state where it ends. -/
theorem path_of_start (ht : t.Linked) {j : Nat} (hj : j < t.size) {above below : List Nat} {i : Nat}
    (h : t.path j = above ++ i :: below) : i ≤ j ∧ t.path i = above ++ [i] := by
  induction j using Nat.strongRecOn generalizing below with
  | ind j ih =>
    -- `below` loses its last state with each step up to the parent
    rcases List.eq_nil_or_concat below with hb | ⟨rest, last, hb⟩
    · have hl := getLast_path (t := t) j
      rw [h, hb, List.getLast?_append, List.getLast?_singleton, Option.some_or] at hl
      cases hl
      rw [hb] at h
      exact ⟨Nat.le_refl _, h⟩
    · subst hb
      rw [List.concat_eq_append, ← List.cons_append, ← List.append_assoc] at h
      by_cases h0 : j = 0
      · subst h0
        have hl := congrArg List.length h
        rw [path_zero, List.length_append, List.length_append] at hl
        simp only [List.length_cons, List.length_nil] at hl
        omega
      · obtain ⟨p, hp, he⟩ := ht.parent j (by omega) hj
        have hshort : t.path p = above ++ i :: rest := by
          rw [path_child ht hj he] at h
          exact (List.append_inj' h rfl).1
        obtain ⟨hle, hpath⟩ := ih p hp (by omega) hshort
        exact ⟨by omega, hpath⟩

theorem mem_path_le (ht : t.Linked) {i j : Nat} (hj : j < t.size) (h : i ∈ t.path j) : i ≤ j := by
  obtain ⟨above, below, hs⟩ := List.append_of_mem h
  exact (path_of_start ht hj hs).1

theorem path_increasing (ht : t.Linked) {i : Nat} (hi : i < t.size) :
    (t.path i).Pairwise (· < ·) := by
  refine downward ht (P := fun i => (t.path i).Pairwise (· < ·)) (List.pairwise_singleton _ _) ?_ hi
  intro i hi p hlt hp ih
  rw [path_child ht hi hp, List.pairwise_append]
  -- nothing on the path to the parent is placed after the parent
  refine ⟨ih, List.pairwise_singleton _ _, ?_⟩
  intro a ha b hb
  have hle := mem_path_le ht (by omega) ha
  rw [List.mem_singleton] at hb
  omega

/-- From the state at `i` the path to the state at `j` goes on through `seg`. -/
structure Leads (t : Tree S O E) (i : Nat) (seg : List Nat) (j : Nat) : Prop where
  lt : j < t.size
  path : t.path j = t.path i ++ seg

namespace Leads

theorem refl {i : Nat} (hi : i < t.size) : t.Leads i [] i := ⟨hi, by simp⟩

theorem trans {i j k : Nat} {xs ys : List Nat} (hij : t.Leads i xs j) (hjk : t.Leads j ys k) :
    t.Leads i (xs ++ ys) k := ⟨hjk.lt, by rw [hjk.path, hij.path, List.append_assoc]⟩

theorem child (ht : t.Linked) {c p : Nat} (hc : c < t.size) (hp : (t.node c).parent = some p) :
    t.Leads p [c] c := ⟨hc, path_child ht hc hp⟩

theorem last {i j : Nat} {seg : List Nat} (h : t.Leads i seg j) : seg.getLast?.getD i = j := by
  have hl := getLast_path (t := t) j
  rw [h.path, List.getLast?_append, getLast_path] at hl
  cases hs : seg.getLast? with
  | none => simpa [hs] using hl
  | some k => simpa [hs] using hl

theorem eq_of_nil {i j : Nat} (h : t.Leads i [] j) : i = j := h.last

/-- A way can be broken off at every state on it. -/
theorem split (ht : t.Linked) {i j k : Nat} {xs ys : List Nat} (h : t.Leads i (xs ++ k :: ys) j) :
    t.Leads i (xs ++ [k]) k ∧ t.Leads k ys j := by
  have hp := h.path
  rw [← List.append_assoc] at hp
  obtain ⟨hle, hk⟩ := path_of_start ht h.lt hp
  have hlt := h.lt
  refine ⟨⟨by omega, by rw [hk, List.append_assoc]⟩, ⟨hlt, ?_⟩⟩
  rw [hp, hk, List.append_assoc (t.path i ++ xs)]
  rfl

theorem parent (ht : t.Linked) {i k : Nat} (h : t.Leads i [k] k) : (t.node k).parent = some i := by
  have h0 : k ≠ 0 := by
    intro h0
    have hl := congrArg List.length h.path
    have hpos := List.length_pos_iff.mpr (t.path_ne_nil i)
    rw [h0, path_zero, List.length_append, List.length_singleton] at hl
    omega
  obtain ⟨p, _, he⟩ := ht.parent k (by omega) h.lt
  have hpath := h.path
  -- the two ways of writing the path to `k` agree up to its last state
  rw [path_child ht h.lt he] at hpath
  rw [he, path_injective (List.append_inj' hpath rfl).1]

theorem cons (ht : t.Linked) {i j k : Nat} {seg : List Nat} (h : t.Leads i (k :: seg) j) :
    t.Leads i [k] k ∧ t.Leads k seg j := by
  rw [← List.nil_append (k :: seg)] at h
  exact h.split ht

theorem source_lt (ht : t.Linked) {i j : Nat} {seg : List Nat} (h : t.Leads i seg j) :
    i < t.size := by
  have hlt := h.lt
  obtain ⟨above, ha⟩ := t.path_eq_init i
  have hp := h.path
  rw [ha, List.append_assoc, List.singleton_append] at hp
  have hle := (path_of_start ht h.lt hp).1
  omega

/-- There is one way from a state to another at most. -/
theorem unique {i j : Nat} {xs ys : List Nat} (hx : t.Leads i xs j) (hy : t.Leads i ys j) :
    xs = ys := by
  have h := hx.path
  rw [hy.path] at h
  exact (List.append_cancel_left h).symm

theorem mem_increasing (ht : t.Linked) {i j k : Nat} {seg : List Nat} (h : t.Leads i seg j)
    (hk : k ∈ seg) : i < k := by
  have hinc := path_increasing ht h.lt
  rw [h.path, List.pairwise_append] at hinc
  exact hinc.2.2 i (List.mem_of_getLast? (getLast_path i)) k hk

end Leads

theorem mem_path_iff (ht : t.Linked) {i j : Nat} (hj : j < t.size) :
    i ∈ t.path j ↔ ∃ seg, t.Leads i seg j := by
  constructor
  · intro h
    obtain ⟨above, below, hs⟩ := List.append_of_mem h
    refine ⟨below, hj, ?_⟩
    rw [hs, (path_of_start ht hj hs).2, List.append_assoc]
    rfl
  · rintro ⟨seg, h⟩
    rw [h.path]
    exact List.mem_append_left _ (List.mem_of_getLast? (getLast_path i))

theorem root_leads (ht : t.Linked) {i : Nat} (hi : i < t.size) : ∃ seg, t.Leads 0 seg i := by
  refine downward ht (P := fun i => ∃ seg, t.Leads 0 seg i) ⟨[], .refl t.size_pos⟩ ?_ hi
  intro i hi p _ hp ih
  obtain ⟨seg, h⟩ := ih
  exact ⟨_, h.trans (.child ht hi hp)⟩

/-- The state at `limit` properly contains the state at `i`. -/
def below (t : Tree S O E) (limit i : Nat) : Bool := limit ∈ (t.path i).dropLast

theorem below_iff (ht : t.Linked) {limit i : Nat} (hi : i < t.size) :
    t.below limit i = true ↔ ∃ seg ≠ [], t.Leads limit seg i := by
  obtain ⟨above, ha⟩ := t.path_eq_init i
  simp only [below, decide_eq_true_eq]
  constructor
  · intro h
    obtain ⟨seg, hl⟩ := (mem_path_iff ht hi).mp (List.dropLast_subset _ h)
    refine ⟨seg, ?_, hl⟩
    intro hn
    -- a path meets its last state only once
    have hinc := path_increasing ht hi
    rw [hn] at hl
    rw [hl.eq_of_nil] at h
    rw [ha, List.dropLast_concat] at h
    rw [ha, List.pairwise_append] at hinc
    exact absurd (hinc.2.2 i h i (List.mem_singleton_self i)) (Nat.lt_irrefl i)
  · rintro ⟨seg, hn, hl⟩
    rw [hl.path, List.dropLast_append_of_ne_nil hn]
    exact List.mem_append_left _ (List.mem_of_getLast? (getLast_path limit))

theorem below_lt (ht : t.Linked) {limit i : Nat} (hi : i < t.size) (h : t.below limit i = true) :
    limit < i := by
  obtain ⟨seg, hn, hl⟩ := (below_iff ht hi).mp h
  have hlast := hl.last
  rw [List.getLast?_eq_some_getLast hn, Option.getD_some] at hlast
  exact hlast ▸ hl.mem_increasing ht (List.getLast_mem hn)

/-- The states of a path that a state on it properly contains are those that come after it. -/
theorem filter_below (ht : t.Linked) {i j : Nat} {seg : List Nat} (h : t.Leads i seg j) :
    (t.path j).filter (t.below i) = seg := by
  have hi := h.source_lt ht
  -- places increase along a path, so nothing up to `i` lies below `i`
  have habove : (t.path i).filter (t.below i) = [] := by
    apply List.filter_eq_nil_iff.mpr
    intro k hk hb
    have hle := mem_path_le ht hi hk
    have hlt := below_lt ht (by omega) hb
    omega
  have hseg : seg.filter (t.below i) = seg := by
    apply List.filter_eq_self.mpr
    intro k hk
    obtain ⟨xs, ys, hs⟩ := List.append_of_mem hk
    rw [hs] at h
    obtain ⟨hl, _⟩ := h.split ht
    exact (below_iff ht hl.lt).mpr ⟨xs ++ [k], by simp, hl⟩
  rw [h.path, List.filter_append, habove, hseg, List.nil_append]

theorem pathBelow_eq (ht : t.Linked) {i j : Nat} {seg : List Nat} (h : t.Leads i seg j) :
    t.pathBelow i j = seg := by
  obtain ⟨above, ha⟩ := t.path_eq_init i
  have hmem : i ∈ t.path j := (mem_path_iff ht h.lt).mpr ⟨seg, h⟩
  -- the path is dropped up to `i`, which it meets only once
  have habove (k : Nat) (hk : k ∈ above) : (k != i) = true := by
    have hinc := path_increasing ht (h.source_lt ht)
    rw [ha, List.pairwise_append] at hinc
    have hlt := hinc.2.2 k hk i (List.mem_singleton_self i)
    simpa using Nat.ne_of_lt hlt
  have hdrop : (t.path j).dropWhile (· != i) = i :: seg := by
    rw [h.path, ha, List.append_assoc, List.dropWhile_append_of_pos habove]
    simp
  simp only [pathBelow, if_pos hmem, hdrop, List.drop_succ_cons, List.drop_zero]

end StateTree.Tree
