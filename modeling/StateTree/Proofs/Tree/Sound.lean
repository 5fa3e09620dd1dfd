import StateTree.Declaration

/-!
What holds of every tree that declarations make: whatever the three changes keep that they are made
of. Parents and children name each other, a parent is placed before its children, every id has one
place, and transitions lead to places of the tree.
-/

namespace StateTree

variable {S O E : Type}

namespace Tree

/-- Parents and children name each other, and only the root has no parent. -/
structure Linked (t : Tree S O E) : Prop where
  root : (t.node 0).parent = none
  parent : ∀ i, 0 < i → i < t.size → ∃ p < i, (t.node i).parent = some p
  children : ∀ p < t.size,
    (t.node p).children = (List.range t.size).filter fun c => (t.node c).parent = some p

theorem parent_lt {t : Tree S O E} (ht : t.Linked) {i p : Nat} (hi : i < t.size)
    (hp : (t.node i).parent = some p) : p < i := by
  have h0 : 0 < i := by
    apply Nat.pos_of_ne_zero
    intro h
    rw [h, ht.root] at hp
    exact absurd hp (by simp)
  obtain ⟨q, hq, he⟩ := ht.parent i h0 hi
  rw [he] at hp
  cases hp
  exact hq

theorem parent_none_iff {t : Tree S O E} (ht : t.Linked) {i : Nat} (hi : i < t.size) :
    (t.node i).parent = none ↔ i = 0 := by
  constructor
  · intro hn
    apply Nat.eq_zero_of_not_pos
    intro h0
    obtain ⟨p, _, hp⟩ := ht.parent i h0 hi
    cases hn.symm.trans hp
  · rintro rfl
    exact ht.root

theorem mem_children_iff {t : Tree S O E} (ht : t.Linked) {p c : Nat} (hp : p < t.size) :
    c ∈ (t.node p).children ↔ c < t.size ∧ (t.node c).parent = some p := by
  rw [ht.children p hp]
  simp

theorem child_lt {t : Tree S O E} (ht : t.Linked) {i c : Nat} (hi : i < t.size)
    (hc : c ∈ (t.node i).children) : i < c ∧ c < t.size := by
  obtain ⟨hlt, hp⟩ := (mem_children_iff ht hi).mp hc
  exact ⟨parent_lt ht hlt hp, hlt⟩

/-- Substates are placed after their parent, so what holds of a state if it holds of its substates
holds of all states. -/
theorem upward {t : Tree S O E} (ht : t.Linked) {P : Nat → Prop}
    (h : ∀ i < t.size, (∀ c ∈ (t.node i).children, P c) → P i) {i : Nat} (hi : i < t.size) :
    P i := by
  induction hd : t.size - i using Nat.strongRecOn generalizing i with
  | ind d ih =>
    apply h i hi
    intro c hc
    obtain ⟨hlt, hsize⟩ := child_lt ht hi hc
    exact ih (t.size - c) (by omega) hsize rfl

/-- What holds of the root, and of a state if it holds of its parent, holds of all states. -/
theorem downward {t : Tree S O E} (ht : t.Linked) {P : Nat → Prop} (hroot : P 0)
    (h : ∀ i < t.size, ∀ p < i, (t.node i).parent = some p → P p → P i) {i : Nat}
    (hi : i < t.size) : P i := by
  induction i using Nat.strongRecOn with
  | ind i ih =>
    by_cases h0 : i = 0
    · subst h0
      exact hroot
    · obtain ⟨p, hlt, hp⟩ := ht.parent i (by omega) hi
      exact h i hi p hlt hp (ih p hlt (by omega))

theorem single_linked (root : S) : (single root : Tree S O E).Linked := by
  refine ⟨rfl, ?_, ?_⟩
  · intro i h0 hi
    have h1 : i < 1 := hi
    omega
  · intro p hp
    have h0 : p = 0 := Nat.lt_one_iff.mp hp
    subst h0
    rfl

theorem modify_linked {t : Tree S O E} (ht : t.Linked) (j : Nat) (f : Node S O E → Node S O E)
    (hp : ∀ n, (f n).parent = n.parent) (hc : ∀ n, (f n).children = n.children) :
    (t.modify j f).Linked := by
  have hparent (i : Nat) (hi : i < t.size) :
      ((t.modify j f).node i).parent = (t.node i).parent := by
    rw [node_modify t i j f hi]
    split
    · exact hp _
    · rfl
  have hchildren (i : Nat) (hi : i < t.size) :
      ((t.modify j f).node i).children = (t.node i).children := by
    rw [node_modify t i j f hi]
    split
    · exact hc _
    · rfl
  refine ⟨?_, ?_, ?_⟩
  · rw [hparent 0 t.size_pos]
    exact ht.root
  · intro i h0 hi
    rw [size_modify] at hi
    rw [hparent i hi]
    exact ht.parent i h0 hi
  · intro p hs
    rw [size_modify] at hs ⊢
    rw [hchildren p hs, ht.children p hs]
    apply List.filter_congr
    intro c hm
    rw [hparent c (List.mem_range.mp hm)]

theorem parent_addNode [DecidableEq S] (t : Tree S O E) (id : S) {i parent : Nat}
    (hp : parent < t.size) (hi : i ≤ t.size) :
    ((t.addNode id parent).node i).parent =
      if i = t.size then some parent else (t.node i).parent := by
  rw [node_addNode t id i parent hp hi]
  split
  · rfl
  · split <;> rfl

theorem addNode_linked [DecidableEq S] {t : Tree S O E} (ht : t.Linked) (id : S) {parent : Nat}
    (hp : parent < t.size) : (t.addNode id parent).Linked := by
  -- old nodes keep their parents, and the new one is placed last
  have hold (i : Nat) (hi : i < t.size) :
      ((t.addNode id parent).node i).parent = (t.node i).parent := by
    rw [parent_addNode t id hp (Nat.le_of_lt hi), if_neg (Nat.ne_of_lt hi)]
  have hnew : ((t.addNode id parent).node t.size).parent = some parent := by
    rw [parent_addNode t id hp (Nat.le_refl _), if_pos rfl]
  refine ⟨?_, ?_, ?_⟩
  · rw [hold 0 t.size_pos]
    exact ht.root
  · intro i h0 hi
    rw [size_addNode] at hi
    by_cases hn : i = t.size
    · rw [hn, hnew]
      exact ⟨parent, hp, rfl⟩
    · rw [hold i (by omega)]
      exact ht.parent i h0 (by omega)
  · intro p hs
    rw [size_addNode] at hs ⊢
    have hrange : (List.range t.size).filter
        (fun c => ((t.addNode id parent).node c).parent = some p) =
        (List.range t.size).filter fun c => (t.node c).parent = some p := by
      apply List.filter_congr
      intro c hm
      rw [hold c (List.mem_range.mp hm)]
    rw [List.range_succ, List.filter_append, hrange, List.filter_cons, List.filter_nil, hnew,
      node_addNode t id p parent hp (by omega)]
    by_cases hn : p = t.size
    · -- the new node has no children: every parent is placed before the child
      have hnone : (List.range t.size).filter (fun c => (t.node c).parent = some p) = [] := by
        apply List.filter_eq_nil_iff.mpr
        intro c hm
        have hc : c < t.size := List.mem_range.mp hm
        simp only [decide_eq_true_eq]
        intro he
        have hlt := parent_lt ht hc he
        omega
      have hne : ¬ some parent = some p := by simp only [Option.some.injEq]; omega
      rw [if_pos hn, hnone]
      simp [Node.fresh, hne]
    · rw [if_neg hn, ← ht.children p (by omega)]
      by_cases he : parent = p
      · simp [he]
      · simp [he]

/-- The transitions of a node name it as their source, and their targets by id and by place. -/
def Aims [DecidableEq S] (t : Tree S O E) (n : Node S O E) : Prop :=
  ∀ x ∈ n.transitions, x.source = n.id ∧
    ∀ id i, x.kind = .moves id i → t.place? id = some i

/-- Every id has one place, and the transitions of every node lead to places of the tree. -/
structure Sound [DecidableEq S] (t : Tree S O E) : Prop extends Linked t where
  place : ∀ id i, t.place? id = some i ↔ i < t.size ∧ (t.node i).id = id
  transitions : ∀ i < t.size, t.Aims (t.node i)

/-- Clauses change neither source nor kind of a transition. -/
theorem clauses_keep (clauses : List (Clause O E)) (x : Transition S O E) :
    (clauses.foldl (fun x clause => clause.apply x) x).source = x.source ∧
      (clauses.foldl (fun x clause => clause.apply x) x).kind = x.kind := by
  induction clauses generalizing x with
  | nil => exact ⟨rfl, rfl⟩
  | cons clause rest ih =>
    rw [List.foldl_cons, (ih _).1, (ih _).2]
    cases clause <;> exact ⟨rfl, rfl⟩

variable [DecidableEq S]

theorem place_lt {t : Tree S O E} (ht : t.Sound) {id : S} {i : Nat} (h : t.place? id = some i) :
    i < t.size := ((ht.place id i).mp h).1

theorem target_lt {t : Tree S O E} (ht : t.Sound) {i : Nat} (hi : i < t.size)
    {x : Transition S O E} (hx : x ∈ (t.node i).transitions) {id : S} {j : Nat}
    (hk : x.kind = .moves id j) : j < t.size :=
  place_lt ht ((ht.transitions i hi x hx).2 id j hk)

theorem single_sound (root : S) : (single root : Tree S O E).Sound := by
  refine ⟨single_linked root, ?_, ?_⟩
  · intro id i
    have hs : (single root : Tree S O E).size = 1 := rfl
    have hp : (single root : Tree S O E).place? id = if id = root then some 0 else none := by
      simp only [place?, single, List.lookup_cons, List.lookup_nil]
      by_cases h : id = root
      · simp [h]
      · simp [h, beq_false_of_ne h]
    rw [hp, hs, Nat.lt_one_iff]
    constructor
    · intro h
      split at h
      · next he =>
        cases h
        exact ⟨rfl, he.symm⟩
      · cases h
    · rintro ⟨rfl, h⟩
      exact if_pos h.symm
  · intro i hi
    have h0 : i = 0 := Nat.lt_one_iff.mp hi
    subst h0
    intro x hx
    exact absurd hx (List.not_mem_nil)

/-- A change that keeps id and links of a node, and whose transitions aim well, keeps the tree
sound. -/
theorem modify_sound {t : Tree S O E} (ht : t.Sound) (j : Nat) (f : Node S O E → Node S O E)
    (hid : ∀ n, (f n).id = n.id) (hp : ∀ n, (f n).parent = n.parent)
    (hc : ∀ n, (f n).children = n.children) (ha : j < t.size → t.Aims (f (t.node j))) :
    (t.modify j f).Sound := by
  have hplace (id : S) : (t.modify j f).place? id = t.place? id := rfl
  refine ⟨modify_linked ht.toLinked j f hp hc, ?_, ?_⟩
  · intro id i
    rw [hplace, ht.place, size_modify]
    refine and_congr_right ?_
    intro hi
    rw [node_modify t i j f hi]
    split
    · rw [hid]
    · rfl
  · intro i hi x hx
    rw [size_modify] at hi
    simp only [hplace]
    rw [node_modify t i j f hi] at hx ⊢
    split at hx
    · next he =>
      rw [if_pos he]
      subst he
      exact ha hi x hx
    · next he =>
      rw [if_neg he]
      exact ht.transitions i hi x hx

theorem place_addNode (t : Tree S O E) (id x : S) (parent : Nat) (hn : t.contains id = false) :
    (t.addNode id parent).place? x = (t.place? x).or (if x = id then some t.size else none) := by
  simp only [place?, addNode, hn, Bool.false_eq_true, if_false, List.lookup_append,
    List.lookup_cons, List.lookup_nil]
  by_cases h : x = id
  · simp [h]
  · simp [h, beq_false_of_ne h]

theorem id_addNode (t : Tree S O E) (id : S) {i parent : Nat} (hp : parent < t.size)
    (hi : i ≤ t.size) :
    ((t.addNode id parent).node i).id = if i = t.size then id else (t.node i).id := by
  rw [node_addNode t id i parent hp hi]
  split
  · rfl
  · split <;> rfl

theorem transitions_addNode (t : Tree S O E) (id : S) {i parent : Nat} (hp : parent < t.size)
    (hi : i ≤ t.size) :
    ((t.addNode id parent).node i).transitions =
      if i = t.size then [] else (t.node i).transitions := by
  rw [node_addNode t id i parent hp hi]
  split
  · rfl
  · split <;> rfl

theorem place_addNode_iff {t : Tree S O E} (ht : t.Sound) (id : S) {parent : Nat}
    (hp : parent < t.size) (hn : t.contains id = false) (x : S) (i : Nat) :
    (t.addNode id parent).place? x = some i ↔
      i < (t.addNode id parent).size ∧ ((t.addNode id parent).node i).id = x := by
  have hnone : t.place? id = none := by simpa [contains] using hn
  rw [place_addNode t id x parent hn, size_addNode]
  by_cases hi : i = t.size
  · -- the new place belongs to the new id only
    have hne : t.place? x ≠ some i := by
      intro h
      have hlt := place_lt ht h
      omega
    rw [id_addNode t id hp (by omega), if_pos hi, Option.or_eq_some_iff]
    by_cases hx : x = id
    · subst hx
      simp [hnone, hi]
    · simp [hne, hx, Ne.symm hx]
  · -- an old place is looked up as before
    have hkeep : (t.place? x).or (if x = id then some t.size else none) = some i ↔
        t.place? x = some i := by
      rw [Option.or_eq_some_iff]
      constructor
      · rintro (h | ⟨_, h⟩)
        · exact h
        · split at h
          · cases h
            exact absurd rfl hi
          · cases h
      · exact Or.inl
    rw [hkeep, ht.place]
    constructor
    · rintro ⟨hlt, he⟩
      rw [id_addNode t id hp (by omega), if_neg hi]
      exact ⟨by omega, he⟩
    · rintro ⟨hlt, he⟩
      rw [id_addNode t id hp (by omega), if_neg hi] at he
      exact ⟨by omega, he⟩

theorem addNode_sound {t : Tree S O E} (ht : t.Sound) (id : S) {parent : Nat}
    (hp : parent < t.size) (hn : t.contains id = false) : (t.addNode id parent).Sound := by
  refine ⟨addNode_linked ht.toLinked id hp, place_addNode_iff ht id hp hn, ?_⟩
  intro i hi x hx
  rw [size_addNode] at hi
  have hle : i ≤ t.size := by omega
  rw [transitions_addNode t id hp hle] at hx
  split at hx
  · exact absurd hx (List.not_mem_nil)
  · next hne =>
    obtain ⟨hsource, haims⟩ := ht.transitions i (by omega) x hx
    rw [id_addNode t id hp hle, if_neg hne]
    refine ⟨hsource, ?_⟩
    -- the targets were placed before the new node, and an id that is placed keeps its place
    intro y j hk
    rw [place_addNode t id y parent hn, haims y j hk]
    rfl

/-- A property that declarations keep: the tree that has a root only has it, and it is kept by each
of the three changes that declarations are made of. -/
structure Grows (P : Tree S O E → Prop) : Prop where
  place : ∀ {t}, P t → ∀ {id i}, t.place? id = some i → i < t.size
  single : ∀ root, P (single root)
  addNode : ∀ {t}, P t → ∀ id {parent}, parent < t.size → t.contains id = false →
    P (t.addNode id parent)
  describe : ∀ {t}, P t → ∀ i (feature : Feature S O E), P (t.modify i feature.describe)
  connect : ∀ {t} {x : Transition S O E}, P t → ∀ i, x.source = (t.node i).id →
    (∀ id j, x.kind = .moves id j → t.place? id = some j) →
    P (t.modify i fun n => { n with transitions := n.transitions ++ [x] })

/-- What a part of a declaration leaves: a tree with `P`, and a place in it unless it failed. -/
def Leaves (P : Tree S O E → Prop) (made : Tree S O E × Except (DeclarationError S) Nat) : Prop :=
  P made.1 ∧ ∀ i, made.2 = .ok i → i < made.1.size

theorem kind_place {t : Tree S O E} {target : Option S} {kind : Kind S}
    (h : t.kind? target = .ok kind) {id : S} {j : Nat} (hk : kind = .moves id j) :
    t.place? id = some j := by
  subst hk
  unfold kind? at h
  split at h
  · cases h
  · split at h
    · next target index hplace =>
      cases h
      exact hplace
    · cases h

namespace Grows

variable {P : Tree S O E → Prop} (h : Grows P) {t : Tree S O E}

include h

theorem leaves_add (ht : P t) {parent : Nat} (hp : parent < t.size) (id : S) :
    Leaves P (t.add parent id) := by
  unfold add
  split
  · refine ⟨ht, ?_⟩
    intro i hi
    cases hi
  · next hn =>
    refine ⟨h.addNode ht id hp (by simpa using hn), ?_⟩
    intro i hi
    cases hi
    change t.size < (t.addNode id parent).size
    rw [size_addNode]
    omega

theorem leaves_refine (features : List (Feature S O E)) (ht : P t) {i : Nat} (hi : i < t.size) :
    Leaves P (t.refine i features) := by
  induction features generalizing t i with
  | nil =>
    refine ⟨ht, ?_⟩
    intro j hj
    cases hj
    exact hi
  | cons feature rest ih =>
    -- all features but a substate change the present node and stay there
    have hdescribe (f : Feature S O E) : Leaves P ((t.modify i f.describe).refine i rest) :=
      ih (h.describe ht i f) (by rw [size_modify]; exact hi)
    cases feature with
    | substate id =>
      obtain ⟨hs, hj⟩ := h.leaves_add ht hi id
      simp only [refine]
      split
      · next j hok => exact ih hs (hj j hok)
      · exact ⟨hs, nofun⟩
    | description text => exact hdescribe (.description text)
    | initial => exact hdescribe .initial
    | history => exact hdescribe .history
    | entry a => exact hdescribe (.entry a)
    | exit a => exact hdescribe (.exit a)

theorem keeps_connect (ht : P t) (i : Nat) (arrow : Arrow S O E) : P (t.connect i arrow).1 := by
  unfold Tree.connect
  split
  · exact ht
  · next kind hkind =>
    obtain ⟨hs, hk⟩ := clauses_keep arrow.clauses
      (⟨(t.node i).id, arrow.event, kind, none, none, none⟩ : Transition S O E)
    -- no clause changed the kind, which was made by looking the target up
    refine h.connect ht i hs ?_
    intro id j hm
    exact kind_place hkind (hk.symm.trans hm)

theorem keeps_extend (ht : P t) {i : Nat} (hi : i < t.size) (chain : Chain S O E) :
    P (t.extend i chain).1 := by
  have hr := (h.leaves_refine chain.features ht hi).1
  unfold extend
  simp only
  split
  · exact hr
  · split
    · exact hr
    · exact h.keeps_connect hr _ _

theorem keeps_declare (ht : P t) (d : Declaration S O E) : P (t.declare d).1 := by
  cases d with
  | addToRoot id chain => exact h.keeps_extend ht t.size_pos _
  | addTo parent id chain =>
    simp only [declare]
    split
    · exact ht
    · next i hplace => exact h.keeps_extend ht (h.place ht hplace) _
  | inState id chain =>
    simp only [declare]
    split
    · exact ht
    · next i hplace => exact h.keeps_extend ht (h.place ht hplace) _

/-- What the changes keep holds of every tree made by declarations, accepted or not. -/
theorem build (root : S) (declarations : List (Declaration S O E)) :
    P (build root declarations) := by
  -- a declaration that is refused leaves what its first part made, which has `P` too
  have hfold (t : Tree S O E) (ht : P t) :
      P (declarations.foldl (fun t d => (t.declare d).1) t) := by
    induction declarations generalizing t with
    | nil => exact ht
    | cons d rest ih => exact ih _ (h.keeps_declare ht d)
  exact hfold _ (h.single root)

end Grows

theorem describe_sound {t : Tree S O E} (ht : t.Sound) (i : Nat) (feature : Feature S O E) :
    (t.modify i feature.describe).Sound := by
  apply modify_sound ht
  · intro n; cases feature <;> rfl
  · intro n; cases feature <;> rfl
  · intro n; cases feature <;> rfl
  · intro hi
    have ha := ht.transitions i hi
    cases feature <;> exact ha

theorem connect_sound {t : Tree S O E} {x : Transition S O E} (ht : t.Sound) (i : Nat)
    (hs : x.source = (t.node i).id)
    (hk : ∀ id j, x.kind = .moves id j → t.place? id = some j) :
    (t.modify i fun n => { n with transitions := n.transitions ++ [x] }).Sound := by
  refine modify_sound ht i _ (fun _ => rfl) (fun _ => rfl) (fun _ => rfl) ?_
  intro hi y hy
  rcases List.mem_append.mp hy with hold | hnew
  · exact ht.transitions i hi y hold
  · rw [List.mem_singleton.mp hnew]
    exact ⟨hs, hk⟩

theorem grows_sound : Grows (Sound : Tree S O E → Prop) where
  place := place_lt
  single := single_sound
  addNode := addNode_sound
  describe := describe_sound
  connect := connect_sound

/-- Every tree made by declarations is sound, whether they were accepted or not. -/
theorem build_sound (root : S) (declarations : List (Declaration S O E)) :
    (build root declarations).Sound := grows_sound.build root declarations

end Tree

end StateTree
