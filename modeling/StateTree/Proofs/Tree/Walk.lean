import Mathlib.Data.List.Chain
import Mathlib.Data.List.Induction
import StateTree.Proofs.Tree.Outline

/-!
Walks in a tree, along the links to substates and along those to parents. Downwards from the root
every state is visited once, as deep as it lies; upwards every state leads to the root, along the
only path between the two.
-/

namespace StateTree

variable {S O E : Type}

namespace State

mutual

/-- What a walk from a state at some depth visits: the state, and then what the walks from its
substates visit one level deeper, in their order. -/
inductive Visits : State S O E → Nat → List (State S O E × Nat) → Prop
  | visit {s : State S O E} {depth : Nat} {below : List (State S O E × Nat)} :
    AllVisit s.substates (depth + 1) below → Visits s depth ((s, depth) :: below)

inductive AllVisit : List (State S O E) → Nat → List (State S O E × Nat) → Prop
  | nil {depth : Nat} : AllVisit [] depth []
  | cons {s : State S O E} {rest : List (State S O E)} {depth : Nat}
    {first later : List (State S O E × Nat)} : Visits s depth first → AllVisit rest depth later →
      AllVisit (s :: rest) depth (first ++ later)

end

/-- The state that a number of steps to the parent lead to. -/
def above? (s : State S O E) : Nat → Option (State S O E)
  | 0 => some s
  | n + 1 => s.parent?.bind fun p => p.above? n

theorem visits_iff {s : State S O E} {depth : Nat} {visited : List (State S O E × Nat)} :
    s.Visits depth visited ↔
      ∃ below, AllVisit s.substates (depth + 1) below ∧ visited = (s, depth) :: below := by
  constructor
  · rintro ⟨h⟩
    exact ⟨_, h, rfl⟩
  · rintro ⟨below, h, rfl⟩
    exact .visit h

/-- If the walk from each of some states is known, so are all of them in turn. -/
theorem allVisit_iff {ss : List (State S O E)} {depth : Nat}
    {f : State S O E → List (State S O E × Nat)}
    (h : ∀ s ∈ ss, ∀ visited, s.Visits depth visited ↔ visited = f s)
    {visited : List (State S O E × Nat)} :
    AllVisit ss depth visited ↔ visited = ss.flatMap f := by
  induction ss generalizing visited with
  | nil =>
    constructor
    · rintro ⟨⟩
      rfl
    · rintro rfl
      exact .nil
  | cons s rest ih =>
    have hs := h s List.mem_cons_self
    have hrest (later : List (State S O E × Nat)) :
        AllVisit rest depth later ↔ later = rest.flatMap f :=
      ih fun s' hm => h s' (List.mem_cons_of_mem s hm)
    rw [List.flatMap_cons]
    constructor
    · rintro (_ | ⟨hfirst, hlater⟩)
      rw [(hs _).mp hfirst, (hrest _).mp hlater]
    · rintro rfl
      exact .cons ((hs _).mpr rfl) ((hrest _).mpr rfl)

end State

namespace Tree

/-- The path that is collected from a state upwards, up to a state without a parent. -/
inductive Climbs (t : Tree S O E) : Nat → List Nat → Prop
  | top {i : Nat} : (t.node i).parent = none → Climbs t i [i]
  | up {i p : Nat} {path : List Nat} :
    (t.node i).parent = some p → Climbs t p path → Climbs t i (path ++ [i])

variable {t : Tree S O E}

theorem Climbs.unique {i : Nat} {xs ys : List Nat} (hx : t.Climbs i xs) (hy : t.Climbs i ys) :
    xs = ys := by
  induction hx generalizing ys with
  | top hn =>
    cases hy with
    | top _ => rfl
    | up hp _ => cases hn.symm.trans hp
  | up hp _ ih =>
    cases hy with
    | top hn => cases hn.symm.trans hp
    | up hp' hup =>
      cases hp.symm.trans hp'
      rw [ih hup]

/-- What is collected is a path from the root on which each state is the parent of the next. -/
theorem climbs_iff (ht : t.Linked) {i : Nat} (hi : i < t.size) {path : List Nat} :
    t.Climbs i path ↔ path.head? = some 0 ∧ path.getLast? = some i ∧
      path.IsChain fun p c => (t.node c).parent = some p := by
  induction path using List.reverseRecOn generalizing i with
  | nil =>
    constructor
    · intro h
      generalize hpath : ([] : List Nat) = path at h
      cases h with
      | top _ => cases hpath
      | up _ _ => simp at hpath
    · rintro ⟨hhead, _⟩
      cases hhead
  | append_singleton above j ih =>
    constructor
    · intro h
      generalize hpath : above ++ [j] = path at h
      cases h with
      | top hn =>
        rw [(parent_none_iff ht hi).mp hn]
        exact ⟨rfl, rfl, List.isChain_singleton 0⟩
      | up hp hup =>
        obtain ⟨rfl, _⟩ := List.append_inj' hpath rfl
        have hlt := parent_lt ht hi hp
        obtain ⟨hhead, hlast, hchain⟩ := (ih (by omega)).mp hup
        refine ⟨by rw [List.head?_append, hhead, Option.some_or], List.getLast?_concat, ?_⟩
        refine List.isChain_append.mpr ⟨hchain, List.isChain_singleton i, ?_⟩
        intro a ha b hb
        cases hlast.symm.trans ha
        cases hb
        exact hp
    · rintro ⟨hhead, hlast, hchain⟩
      rw [List.getLast?_concat] at hlast
      cases hlast
      obtain ⟨habove, _, hjoin⟩ := List.isChain_append.mp hchain
      cases hl : above.getLast? with
      | none =>
        rw [List.getLast?_eq_none_iff.mp hl] at hhead ⊢
        cases hhead
        exact .top ht.root
      | some p =>
        have hp := hjoin p hl j rfl
        have hlt := parent_lt ht hi hp
        have hhead' : above.head? = some 0 := by
          cases above with
          | nil => cases hl
          | cons a rest => exact hhead
        exact .up hp ((ih (by omega)).mpr ⟨hhead', hl, habove⟩)

theorem climbs_path (ht : t.Linked) {i : Nat} (hi : i < t.size) : t.Climbs i (t.path i) := by
  refine downward ht (P := fun i => t.Climbs i (t.path i)) (.top ht.root) ?_ hi
  intro i hi p _ hp ih
  rw [path_child ht hi hp]
  exact .up hp ih

theorem climbs_iff_path (ht : t.Linked) {i : Nat} (hi : i < t.size) {path : List Nat} :
    t.Climbs i path ↔ path = t.path i := by
  constructor
  · intro h
    exact h.unique (climbs_path ht hi)
  · rintro rfl
    exact climbs_path ht hi

theorem depth_child (ht : t.Linked) {c p : Nat} (hc : c < t.size)
    (hp : (t.node c).parent = some p) : t.depth c = t.depth p + 1 := by
  have hpos := List.length_pos_iff.mpr (t.path_ne_nil p)
  rw [depth, depth, path_child ht hc hp, List.length_append, List.length_singleton]
  omega

theorem depth_le (ht : t.Linked) {i : Nat} (hi : i < t.size) : t.depth i ≤ i := by
  refine downward ht (P := fun i => t.depth i ≤ i) (Nat.le_refl 0) ?_ hi
  intro i hi p hlt hp ih
  rw [depth_child ht hi hp]
  omega

/-- As many steps to the parent as a state is deep lead to the root, and no other number does. -/
theorem above?_eq_root_iff (ht : t.Linked) {i : Nat} (hi : i < t.size) {n : Nat} :
    (⟨t, i⟩ : State S O E).above? n = some t.rootState ↔ n = t.depth i := by
  refine downward ht (P := fun i => ∀ n, (⟨t, i⟩ : State S O E).above? n = some t.rootState ↔
    n = t.depth i) ?_ ?_ hi n
  · intro n
    cases n with
    | zero => exact ⟨fun _ => rfl, fun _ => rfl⟩
    | succ n => simp [State.above?, State.parent?, State.node, ht.root, depth, path_zero]
  · intro i hi p hlt hp ih n
    rw [depth_child ht hi hp]
    cases n with
    | zero =>
      have h0 : i ≠ 0 := by omega
      simp [State.above?, rootState, h0]
    | succ n =>
      have hup : (⟨t, i⟩ : State S O E).above? (n + 1) = (⟨t, p⟩ : State S O E).above? n := by
        simp [State.above?, State.parent?, State.node, hp]
      rw [hup, ih n, Nat.succ_inj]

/-- The visits of a walk as the outline shows them, each state as deep as there are states around
it. -/
def visitsAt (t : Tree S O E) (i : Nat) : List (State S O E × Nat) :=
  ((t.outlineAt id i).placed (t.around id i)).map fun p => (p.2, p.1.length)

theorem length_around (f : State S O E → α) (i : Nat) : (t.around f i).length = t.depth i := by
  rw [around, List.length_map, List.length_dropLast, depth]

theorem visitsAt_eq (ht : t.Linked) {i : Nat} (hi : i < t.size) :
    t.visitsAt i = (⟨t, i⟩, t.depth i) :: (t.node i).children.flatMap t.visitsAt := by
  have hbelow (c : Nat) (hc : c ∈ (t.node i).children) :
      ((t.outlineAt id c).placed (t.around id i ++ [⟨t, i⟩])).map (fun p => (p.2, p.1.length)) =
        t.visitsAt c := by
    rw [visitsAt, around_child ht id hi hc]
    rfl
  rw [visitsAt, outlineAt_eq ht id hi, Outline.placed, Outline.allPlaced_eq, List.flatMap_map,
    List.map_cons, List.map_flatMap, length_around]
  exact congrArg _ (List.flatMap_congr hbelow)

/-- A walk ends, and there is only one. -/
theorem visits_visitsAt (ht : t.Linked) {i : Nat} (hi : i < t.size)
    {visited : List (State S O E × Nat)} :
    (⟨t, i⟩ : State S O E).Visits (t.depth i) visited ↔ visited = t.visitsAt i := by
  refine upward ht (P := fun i => ∀ visited, (⟨t, i⟩ : State S O E).Visits (t.depth i) visited ↔
    visited = t.visitsAt i) ?_ hi visited
  intro i hi ih visited
  have hsubstates : ∀ s ∈ (⟨t, i⟩ : State S O E).substates, ∀ visited,
      s.Visits (t.depth i + 1) visited ↔ visited = t.visitsAt s.index := by
    intro s hs
    obtain ⟨c, hc, rfl⟩ := List.mem_map.mp hs
    obtain ⟨hlt, hp⟩ := (mem_children_iff ht hi).mp hc
    rw [← depth_child ht hlt hp]
    exact ih c hc
  have hflat : (⟨t, i⟩ : State S O E).substates.flatMap (fun s => t.visitsAt s.index) =
      (t.node i).children.flatMap t.visitsAt := List.flatMap_map ..
  rw [State.visits_iff, visitsAt_eq ht hi, ← hflat]
  simp only [State.allVisit_iff hsubstates, exists_eq_left]

theorem visitsAt_perm (ht : t.Linked) :
    (t.visitsAt 0).Perm (t.states.map fun s => (s, s.depth)) := by
  have hperm := (placed_outline ht (id : State S O E → State S O E)).map
    fun p => (p.2, p.1.length)
  rw [List.map_map] at hperm
  refine hperm.trans (List.Perm.of_eq (List.map_congr_left ?_))
  intro s hs
  obtain ⟨i, _, rfl⟩ := mem_states.mp hs
  simp only [Function.comp, length_around]
  rfl

theorem visitsAt_contents (t : Tree S O E) (i : Nat) :
    (t.visitsAt i).map Prod.fst = (t.outlineAt id i).contents := by
  rw [visitsAt, List.map_map, ← Outline.map_snd_placed (t.around id i)]
  rfl

theorem nodup_states (t : Tree S O E) : t.states.Nodup :=
  List.nodup_range.map fun _ _ h => congrArg State.index h

theorem mem_substates_iff (ht : t.Linked) {s p : State S O E} (hp : p ∈ t.states) :
    s ∈ p.substates ↔ s ∈ t.states ∧ s.parent? = some p := by
  obtain ⟨j, hj, rfl⟩ := mem_states.mp hp
  have hlinks {c} := mem_children_iff ht hj (c := c)
  constructor
  · intro hs
    obtain ⟨c, hc, rfl⟩ := List.mem_map.mp hs
    obtain ⟨hlt, hparent⟩ := hlinks.mp hc
    exact ⟨mem_states.mpr ⟨c, hlt, rfl⟩, congrArg (Option.map (State.mk t)) hparent⟩
  · rintro ⟨hs, hparent⟩
    obtain ⟨c, hc, rfl⟩ := mem_states.mp hs
    obtain ⟨q, hq, he⟩ := Option.map_eq_some_iff.mp hparent
    cases he
    exact List.mem_map_of_mem (hlinks.mpr ⟨hc, hq⟩)

theorem parent?_mem_states (ht : t.Linked) {s p : State S O E} (hs : s ∈ t.states)
    (hp : s.parent? = some p) : p ∈ t.states := by
  obtain ⟨i, hi, rfl⟩ := mem_states.mp hs
  obtain ⟨q, hq, rfl⟩ := Option.map_eq_some_iff.mp hp
  have hlt := parent_lt ht hi hq
  exact mem_states.mpr ⟨q, by omega, rfl⟩

/-- The links to substates and those to parents are of one tree. Walking down from the root ends, in
one way only, and visits every state once, at the depth it says it has, in the order of the outline.
Substates of a state are the states whose parent it is. Walking up from a state collects its path,
the only one from the root on which each state is the parent of the next; and the depth of a state
is the number of steps that lead to the root. -/
theorem links_agree [DecidableEq S] (root : S) (declarations : List (Declaration S O E)) :
    let t := build root declarations
    (∃ visited, (∀ walked, t.rootState.Visits 0 walked ↔ walked = visited) ∧
      visited.Perm (t.states.map fun s => (s, s.depth)) ∧
      visited.map Prod.fst = (t.outline id).contents) ∧
    t.states.Nodup ∧
    (∀ p ∈ t.states, ∀ s, s ∈ p.substates ↔ s ∈ t.states ∧ s.parent? = some p) ∧
    (∀ s ∈ t.states, ∀ p, s.parent? = some p → p ∈ t.states) ∧
    (∀ i < t.size, ∀ path,
      (t.Climbs i path ↔ path = t.path i) ∧
      (path.head? = some 0 ∧ path.getLast? = some i ∧
        path.IsChain (fun p c => (t.node c).parent = some p) ↔ path = t.path i)) ∧
    (∀ i < t.size, (t.path i).Pairwise (· < ·)) ∧
    ∀ s ∈ t.states, (∀ n, s.above? n = some t.rootState ↔ n = s.depth) ∧ s.depth < t.size := by
  intro t
  have ht : t.Linked := (build_sound root declarations).toLinked
  refine ⟨⟨t.visitsAt 0, fun walked => ?_, visitsAt_perm ht, t.visitsAt_contents 0⟩,
    t.nodup_states, fun p hp s => mem_substates_iff ht hp,
    fun s hs p hp => parent?_mem_states ht hs hp, ?_, fun i hi => path_increasing ht hi, ?_⟩
  · exact visits_visitsAt ht t.size_pos
  · intro i hi path
    exact ⟨climbs_iff_path ht hi, (climbs_iff ht hi).symm.trans (climbs_iff_path ht hi)⟩
  · intro s hs
    obtain ⟨i, hi, rfl⟩ := mem_states.mp hs
    have hle := depth_le ht hi
    exact ⟨fun n => above?_eq_root_iff ht hi, by simp only [State.depth]; omega⟩

end Tree

end StateTree
