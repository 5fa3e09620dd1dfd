import StateTree.Violation
import StateTree.Proofs.Tree.Sound

/-!
How the parts of a finished tree fit together: the links of its nodes, the places of its ids and the
ends of its transitions. Trees made by declarations fit, whatever was refused on the way, so none of
them repeats an id.
-/

namespace StateTree.Tree

variable {S O E : Type} {t : Tree S O E}

theorem getElem?_ids (t : Tree S O E) (i : Nat) : t.ids[i]? = t.nodes[i]?.map Node.id := by
  rw [ids, List.getElem?_map, Array.getElem?_toList]

theorem length_ids (t : Tree S O E) : t.ids.length = t.size := by
  rw [ids, List.length_map, Array.length_toList, size]

theorem ids_modify (t : Tree S O E) (j : Nat) {f : Node S O E → Node S O E}
    (hid : ∀ n, (f n).id = n.id) : (t.modify j f).ids = t.ids := by
  apply List.ext_getElem?
  intro i
  rw [getElem?_ids, getElem?_ids, modify, Array.getElem?_modify]
  split
  · rw [Option.map_map]
    exact Option.map_congr fun n _ => hid n
  · rfl

/-- The ids are entered in the order of their nodes, each with the place of its node. -/
def Listed (t : Tree S O E) : Prop := t.places = t.ids.zipIdx

theorem modify_listed (ht : t.Listed) (j : Nat) {f : Node S O E → Node S O E}
    (hid : ∀ n, (f n).id = n.id) : (t.modify j f).Listed := by
  rw [Listed, ids_modify t j hid]
  exact ht

variable [DecidableEq S]

theorem nodup_ids (ht : t.Sound) : t.ids.Nodup := by
  apply List.pairwise_iff_getElem.mpr
  intro i j hi hj hlt he
  rw [length_ids] at hi hj
  have hget (k : Nat) (hk : k < t.ids.length) : t.ids[k] = (t.node k).id := by
    have hs := getElem?_ids t k
    rw [getElem?_nodes t k (length_ids t ▸ hk), List.getElem?_eq_getElem hk] at hs
    exact Option.some.inj hs
  rw [hget, hget] at he
  -- both places are those of one id
  have hplace := (ht.place _ i).mpr ⟨hi, he⟩
  rw [(ht.place _ j).mpr ⟨hj, rfl⟩] at hplace
  cases hplace
  exact Nat.lt_irrefl i hlt

theorem ids_addNode (t : Tree S O E) (id : S) (parent : Nat) :
    (t.addNode id parent).ids = t.ids ++ [id] := by
  have hpush : (t.nodes.push (.fresh id (some parent))).toList.map Node.id = t.ids ++ [id] := by
    rw [Array.toList_push, List.map_append]
    rfl
  rw [← hpush]
  apply List.ext_getElem?
  intro i
  rw [getElem?_ids, addNode, Array.getElem?_modify, List.getElem?_map, Array.getElem?_toList]
  split
  · rw [Option.map_map]
    rfl
  · rfl

theorem addNode_listed (ht : t.Listed) (id : S) (parent : Nat) (hn : t.contains id = false) :
    (t.addNode id parent).Listed := by
  have hplaces : (t.addNode id parent).places = t.places ++ [(id, t.size)] := by
    simp only [addNode, hn, Bool.false_eq_true, if_false]
  rw [Listed, hplaces, ids_addNode, List.zipIdx_append, ht, length_ids, Nat.zero_add]
  rfl

theorem grows_listed : Grows (fun t : Tree S O E => t.Sound ∧ t.Listed) where
  place := fun ht => place_lt ht.1
  single := fun root => ⟨single_sound root, rfl⟩
  addNode := fun ht id _ hp hn => ⟨addNode_sound ht.1 id hp hn, addNode_listed ht.2 id _ hn⟩
  describe := by
    intro t ht i feature
    refine ⟨describe_sound ht.1 i feature, modify_listed ht.2 i ?_⟩
    intro n
    cases feature <;> rfl
  connect := fun ht i hs hk => ⟨connect_sound ht.1 i hs hk, modify_listed ht.2 i fun _ => rfl⟩

/-- Ids that label one node each are not repeated. -/
theorem repeatedIds_of_nodup (h : t.ids.Nodup) : t.repeatedIds = [] := by
  apply List.filterMap_eq_nil_iff.mpr
  intro id _
  have hcount : t.ids.countP (· = id) = t.ids.count id :=
    List.countP_congr fun x _ => by rw [decide_eq_true_eq, beq_iff_eq]
  have hle := List.nodup_iff_count.mp h id
  exact if_neg (by omega)

/-- How nodes, links, places and transitions of a tree fit together. -/
structure WellFormed (t : Tree S O E) : Prop where
  parentless : ∀ i < t.size, (t.node i).parent = none ↔ i = 0
  parent_lt : ∀ i < t.size, ∀ p, (t.node i).parent = some p → p < i
  children : ∀ p < t.size, ∀ c,
    c ∈ (t.node p).children ↔ c < t.size ∧ (t.node c).parent = some p
  ascending : ∀ p < t.size, (t.node p).children.Pairwise (· < ·)
  ids : t.ids.Nodup
  places : t.places = t.ids.zipIdx
  place : ∀ id i, t.place? id = some i ↔ i < t.size ∧ (t.node i).id = id
  source : ∀ i < t.size, ∀ x ∈ (t.node i).transitions, x.source = (t.node i).id
  target : ∀ i < t.size, ∀ x ∈ (t.node i).transitions, ∀ id j, x.kind = .moves id j →
    j < t.size ∧ (t.node j).id = id

theorem wellFormed_of_sound (ht : t.Sound) (hl : t.Listed) : t.WellFormed where
  parentless := fun i hi => parent_none_iff ht.toLinked hi
  parent_lt := fun i hi p hp => parent_lt ht.toLinked hi hp
  children := fun p hp c => mem_children_iff ht.toLinked hp
  ascending := by
    intro p hp
    rw [ht.children p hp]
    exact List.pairwise_lt_range.filter _
  ids := nodup_ids ht
  places := hl
  place := ht.place
  source := fun i hi x hx => (ht.transitions i hi x hx).1
  target := fun i hi x hx id j hk => (ht.place id j).mp ((ht.transitions i hi x hx).2 id j hk)

/-- Every tree that declarations make is well formed, whether they were accepted or not. Only the
root has no parent; a parent is placed before its children and lists them in ascending order; each
id has one node, and its place is that of the node; and transitions name the state that has them and
the places of their targets. So no id is found to be used twice. -/
theorem build_wellFormed (root : S) (declarations : List (Declaration S O E)) :
    let t := build root declarations
    t.WellFormed ∧ t.repeatedIds = [] := by
  intro t
  obtain ⟨ht, hl⟩ : t.Sound ∧ t.Listed := grows_listed.build root declarations
  exact ⟨wellFormed_of_sound ht hl, repeatedIds_of_nodup (nodup_ids ht)⟩

end StateTree.Tree
