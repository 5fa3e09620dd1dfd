import Mathlib.Data.List.Forall2
import StateTree.Proofs.Tree.Path
import StateTree.Proofs.Tree.WellFormed

/-!
Trees that are the same by id, with their states in other places. The places of one are those of the
other under a renaming that keeps the root, and up to it their nodes have the same links, the same
flags, the same transitions, and host code whose calls come to the same.
-/

namespace StateTree

variable {S O E : Type}

/-- What a transition does, with its target by id. -/
structure Course (S O E : Type) where
  event : E
  target : Option S
  check : Option (O → E → Ending Bool × O)
  run : Option (O → Option E → Ending Unit × O)

def Transition.course (x : Transition S O E) : Course S O E :=
  ⟨x.event, x.target?, x.guard.map Guard.check, x.action.map Action.run⟩

/-- What a state is and does, with its substates by id. -/
structure Portrait (S O E : Type) where
  substates : List S
  initial : Bool
  history : Bool
  entry : Option (O → Option E → Ending Unit × O)
  exit : Option (O → Option E → Ending Unit × O)
  courses : List (Course S O E)

def State.portrait (s : State S O E) : Portrait S O E :=
  ⟨s.substates.map State.id, s.node.initial, s.node.history, s.node.entry.map Action.run,
    s.node.exit.map Action.run, s.node.transitions.map Transition.course⟩

/-- What comes of a call of the guard: a panic counts as an error. -/
def Guard.settled (g : Guard O E) (owner : O) (event : E) : Except ActionError Bool × O :=
  let call := g.check owner event
  (call.1.settle, call.2)

def Action.settled (a : Action O E) (owner : O) (event : Option E) : Except ActionError Unit × O :=
  let call := a.run owner event
  (call.1.settle, call.2)

theorem Guard.map_settled {g g' : Option (Guard O E)}
    (h : g'.map Guard.check = g.map Guard.check) : g'.map Guard.settled = g.map Guard.settled := by
  have hsettled := congrArg (Option.map fun check owner event =>
    ((check owner event).1.settle, (check owner event).2)) h
  rw [Option.map_map, Option.map_map] at hsettled
  exact hsettled

theorem Action.map_settled {a a' : Option (Action O E)}
    (h : a'.map Action.run = a.map Action.run) : a'.map Action.settled = a.map Action.settled := by
  have hsettled := congrArg (Option.map fun run owner event =>
    ((run owner event).1.settle, (run owner event).2)) h
  rw [Option.map_map, Option.map_map] at hsettled
  exact hsettled

/-- The kind of a transition to the same target in another place. -/
def Kind.rename (f : Nat → Nat) : Kind S → Kind S
  | moves target i => moves target (f i)
  | stays => stays

structure Transition.Renamed (f : Nat → Nat) (x y : Transition S O E) : Prop where
  event : y.event = x.event
  kind : y.kind = x.kind.rename f
  guard : y.guard.map Guard.settled = x.guard.map Guard.settled
  action : y.action.map Action.settled = x.action.map Action.settled

structure Node.Renamed (f : Nat → Nat) (n m : Node S O E) : Prop where
  id : m.id = n.id
  parent : m.parent = n.parent.map f
  children : m.children = n.children.map f
  initial : m.initial = n.initial
  history : m.history = n.history
  entry : m.entry.map Action.settled = n.entry.map Action.settled
  exit : m.exit.map Action.settled = n.exit.map Action.settled
  transitions : List.Forall₂ (Transition.Renamed f) n.transitions m.transitions

theorem Node.Renamed.isComposite {f : Nat → Nat} {n m : Node S O E} (h : n.Renamed f m) :
    m.isComposite = n.isComposite := by
  rw [Node.isComposite, Node.isComposite, h.children, List.isEmpty_map]

theorem sharedStart_map [DecidableEq α] {f : α → α} (hf : f.Injective) (as bs : List α) :
    sharedStart (as.map f) (bs.map f) = (sharedStart as bs).map f := by
  induction as generalizing bs with
  | nil => rfl
  | cons a as ih =>
    cases bs with
    | nil => rfl
    | cons b bs =>
      simp only [List.map_cons, sharedStart, hf.eq_iff, ih]
      split <;> rfl

namespace Tree

/-- The two trees have the same states by id, and each is and does the same in both. -/
structure Alike [DecidableEq S] (t u : Tree S O E) : Prop where
  root : t.rootState.id = u.rootState.id
  portrait : ∀ id, (t.state? id).map State.portrait = (u.state? id).map State.portrait

/-- The state in place `i` of `t` is in place `f i` of `u`. -/
structure Renames (f : Nat → Nat) (t u : Tree S O E) : Prop where
  injective : f.Injective
  root : f 0 = 0
  size : u.size = t.size
  node : ∀ i, (t.node i).Renamed f (u.node (f i))
  path : ∀ i, u.path (f i) = (t.path i).map f

variable {t u : Tree S O E}

namespace Renames

variable {f : Nat → Nat} (h : Renames f t u)

include h

theorem firstInitial?_eq (i : Nat) : u.firstInitial? (f i) = (t.firstInitial? i).map f := by
  have hinitial : (fun c => (u.node c).initial) ∘ f = fun c => (t.node c).initial :=
    funext fun c => (h.node c).initial
  rw [firstInitial?, (h.node i).children, List.find?_map, hinitial, firstInitial?]

/-- Where there is no place, the root is taken in both trees. -/
theorem getD_eq (i : Option Nat) : (i.map f).getD 0 = f (i.getD 0) := by
  have hmap := Option.getD_map f 0 i
  rw [h.root] at hmap
  exact hmap

theorem commonAncestor_eq (i j : Nat) :
    u.commonAncestor (f i) (f j) = f (t.commonAncestor i j) := by
  rw [commonAncestor, h.path, h.path, ← List.map_dropLast, ← List.map_dropLast,
    sharedStart_map h.injective, List.getLast?_map, h.getD_eq, commonAncestor]

theorem pathBelow_eq (limit i : Nat) :
    u.pathBelow (f limit) (f i) = (t.pathBelow limit i).map f := by
  have hmem : f limit ∈ (t.path i).map f ↔ limit ∈ t.path i :=
    List.mem_map_of_injective h.injective
  have hne : (fun j => j != f limit) ∘ f = fun j => j != limit :=
    funext fun j => congrArg not h.injective.beq_eq
  simp only [pathBelow, h.path, hmem, List.dropWhile_map, hne, ← List.map_drop]
  split <;> rfl

end Renames

/-- A place outside the table reads as the root. -/
theorem node_outside {i : Nat} (hi : t.size ≤ i) : t.node i = t.node 0 := by
  have hroot : t.node 0 = t.root := node_of_getElem? (Array.getElem?_eq_getElem t.size_pos)
  rw [hroot, node, Array.getElem?_eq_none hi, Option.getD_none]

theorem climb_outside (ht : t.Linked) {i : Nat} (hi : t.size ≤ i) (n : Nat) :
    t.climb n i = [i] := by
  cases n with
  | zero => rfl
  | succ n => simp only [climb, node_outside hi, ht.root]

theorem climb_rename {f : Nat → Nat}
    (hparent : ∀ i, (u.node (f i)).parent = (t.node i).parent.map f) (n i : Nat) :
    u.climb n (f i) = (t.climb n i).map f := by
  induction n generalizing i with
  | zero => rfl
  | succ n ih =>
    simp only [climb, hparent]
    cases (t.node i).parent with
    | none => rfl
    | some p => simp only [Option.map_some, ih, List.map_append, List.map_cons, List.map_nil]

variable [DecidableEq S]

theorem Alike.symm (h : t.Alike u) : u.Alike t := ⟨h.root.symm, fun id => (h.portrait id).symm⟩

/-- The place in `u` of the state that is in place `i` of `t`. Places outside the table stay. -/
def counterpart (t u : Tree S O E) (i : Nat) : Nat :=
  if i < t.size then (u.place? (t.node i).id).getD 0 else i

theorem counterpart_outside {i : Nat} (hi : ¬i < t.size) : t.counterpart u i = i := if_neg hi

namespace Alike

/-- A state has a place in both trees, and is and does the same in both. -/
theorem placed (h : t.Alike u) (ht : t.Sound) {i : Nat} (hi : i < t.size) :
    u.place? (t.node i).id = some (t.counterpart u i) ∧
      State.portrait ⟨u, t.counterpart u i⟩ = State.portrait ⟨t, i⟩ := by
  have hportrait := h.portrait (t.node i).id
  rw [state?, state?, (ht.place _ i).mpr ⟨hi, rfl⟩] at hportrait
  cases hj : u.place? (t.node i).id with
  | none =>
    rw [hj] at hportrait
    cases hportrait
  | some j =>
    rw [hj] at hportrait
    rw [counterpart, if_pos hi, hj]
    exact ⟨rfl, (Option.some.inj hportrait).symm⟩

theorem counterpart_place (h : t.Alike u) (ht : t.Sound) {id : S} {i j : Nat}
    (hi : t.place? id = some i) (hj : u.place? id = some j) : t.counterpart u i = j := by
  obtain ⟨hlt, rfl⟩ := (ht.place id i).mp hi
  exact Option.some.inj ((h.placed ht hlt).1.symm.trans hj)

theorem transition_renamed (h : t.Alike u) (ht : t.Sound) {x y : Transition S O E}
    (hc : x.course = y.course) (hx : ∀ id j, x.kind = .moves id j → t.place? id = some j)
    (hy : ∀ id j, y.kind = .moves id j → u.place? id = some j) :
    x.Renamed (t.counterpart u) y where
  event := congrArg Course.event hc.symm
  kind := by
    have htarget : x.kind.target? = y.kind.target? := congrArg Course.target hc
    cases hkx : x.kind with
    | stays =>
      cases hky : y.kind with
      | stays => rfl
      | moves id j => rw [hkx, hky] at htarget; cases htarget
    | moves id i =>
      cases hky : y.kind with
      | stays => rw [hkx, hky] at htarget; cases htarget
      | moves id' j =>
        rw [hkx, hky] at htarget
        cases htarget
        rw [Kind.rename, h.counterpart_place ht (hx id i hkx) (hy id j hky)]
  guard := Guard.map_settled (congrArg Course.check hc.symm)
  action := Action.map_settled (congrArg Course.run hc.symm)

variable (h : t.Alike u) (ht : t.Sound) (hu : u.Sound)

include h ht hu

theorem counterpart_lt {i : Nat} (hi : i < t.size) :
    t.counterpart u i < u.size ∧ (u.node (t.counterpart u i)).id = (t.node i).id :=
  (hu.place _ _).mp (h.placed ht hi).1

/-- No id is repeated, so trees with the same ids have tables of the same size. -/
theorem size_eq : u.size = t.size := by
  have hmem {t u : Tree S O E} (h : t.Alike u) (ht : t.Sound) (hu : u.Sound) {id : S}
      (hid : id ∈ t.ids) : id ∈ u.ids := by
    obtain ⟨i, hi⟩ := List.mem_iff_getElem?.mp hid
    rw [getElem?_ids] at hi
    obtain ⟨n, hn, rfl⟩ := Option.map_eq_some_iff.mp hi
    have hlt : i < t.size := (Array.getElem?_eq_some_iff.mp hn).1
    obtain ⟨hj, he⟩ := h.counterpart_lt ht hu hlt
    refine List.mem_iff_getElem?.mpr ⟨t.counterpart u i, ?_⟩
    rw [getElem?_ids, getElem?_nodes u _ hj, Option.map_some, he, node_of_getElem? hn]
  have hperm : u.ids.Perm t.ids :=
    (List.perm_ext_iff_of_nodup (nodup_ids hu) (nodup_ids ht)).mpr fun id =>
      ⟨hmem h.symm hu ht, hmem h ht hu⟩
  calc u.size = u.ids.length := (length_ids u).symm
    _ = t.ids.length := hperm.length_eq
    _ = t.size := length_ids t

theorem counterpart_injective : (t.counterpart u).Injective := by
  have hsize := h.size_eq ht hu
  intro i j he
  by_cases hi : i < t.size
  · by_cases hj : j < t.size
    · -- the two places have one id
      have hid : (t.node i).id = (t.node j).id := by
        rw [← (h.counterpart_lt ht hu hi).2, he, (h.counterpart_lt ht hu hj).2]
      have hplace := (ht.place _ i).mpr ⟨hi, hid⟩
      rw [(ht.place _ j).mpr ⟨hj, rfl⟩] at hplace
      exact (Option.some.inj hplace).symm
    · have hlt := (h.counterpart_lt ht hu hi).1
      rw [he, counterpart_outside hj] at hlt
      omega
  · by_cases hj : j < t.size
    · have hlt := (h.counterpart_lt ht hu hj).1
      rw [← he, counterpart_outside hi] at hlt
      omega
    · rw [counterpart_outside hi, counterpart_outside hj] at he
      exact he

theorem counterpart_root : t.counterpart u 0 = 0 := by
  have hroot : u.place? (t.node 0).id = some 0 := (hu.place _ 0).mpr ⟨u.size_pos, h.root.symm⟩
  exact Option.some.inj ((h.placed ht t.size_pos).1.symm.trans hroot)

theorem children_renamed {i : Nat} (hi : i < t.size) :
    (u.node (t.counterpart u i)).children = (t.node i).children.map (t.counterpart u) := by
  obtain ⟨hlt, _⟩ := h.counterpart_lt ht hu hi
  have hids : (u.node (t.counterpart u i)).children.map (fun c => (u.node c).id) =
      (t.node i).children.map fun c => (t.node c).id := by
    have hsubstates : (State.substates ⟨u, t.counterpart u i⟩).map State.id =
        (State.substates ⟨t, i⟩).map State.id := congrArg Portrait.substates (h.placed ht hi).2
    rw [State.substates, State.substates, List.map_map, List.map_map] at hsubstates
    exact hsubstates
  -- a substate of `u` is in the place that its id has
  let place (id : S) : Nat := (u.place? id).getD 0
  have hplace {c : Nat} (hc : c < u.size) : place (u.node c).id = c := by
    change (u.place? _).getD 0 = c
    rw [(hu.place _ c).mpr ⟨hc, rfl⟩, Option.getD_some]
  calc (u.node (t.counterpart u i)).children
      = (u.node (t.counterpart u i)).children.map id := (List.map_id _).symm
    _ = (u.node (t.counterpart u i)).children.map fun c => place (u.node c).id :=
        List.map_congr_left fun c hc =>
          (hplace ((mem_children_iff hu.toLinked hlt).mp hc).1).symm
    _ = ((u.node (t.counterpart u i)).children.map fun c => (u.node c).id).map place := by
        rw [List.map_map]; rfl
    _ = ((t.node i).children.map fun c => (t.node c).id).map place := by rw [hids]
    _ = (t.node i).children.map (t.counterpart u) := by
        rw [List.map_map]
        apply List.map_congr_left
        intro c hc
        have hlt := ((mem_children_iff ht.toLinked hi).mp hc).1
        exact (if_pos hlt).symm

theorem parent_renamed {i : Nat} (hi : i < t.size) :
    (u.node (t.counterpart u i)).parent = (t.node i).parent.map (t.counterpart u) := by
  by_cases h0 : i = 0
  · rw [h0, h.counterpart_root ht hu, hu.root, ht.root, Option.map_none]
  · obtain ⟨p, hp, he⟩ := ht.parent i (by omega) hi
    -- the counterpart of a substate is a substate of the counterpart
    have hpt : p < t.size := by omega
    have hchild := (mem_children_iff ht.toLinked hpt).mpr ⟨hi, he⟩
    have hmem := List.mem_map_of_mem (f := t.counterpart u) hchild
    rw [← h.children_renamed ht hu hpt] at hmem
    rw [((mem_children_iff hu.toLinked (h.counterpart_lt ht hu hpt).1).mp hmem).2, he,
      Option.map_some]

theorem transitions_renamed {i : Nat} (hi : i < t.size) :
    List.Forall₂ (Transition.Renamed (t.counterpart u)) (t.node i).transitions
      (u.node (t.counterpart u i)).transitions := by
  obtain ⟨hlt, _⟩ := h.counterpart_lt ht hu hi
  have hcourses : (t.node i).transitions.map Transition.course =
      (u.node (t.counterpart u i)).transitions.map Transition.course :=
    (congrArg Portrait.courses (h.placed ht hi).2).symm
  rw [← List.forall₂_eq_eq_eq, List.forall₂_map_left_iff, List.forall₂_map_right_iff] at hcourses
  refine List.forall₂_iff_zip.mpr ⟨hcourses.length_eq, ?_⟩
  intro x y hm
  obtain ⟨hx, hy⟩ := List.of_mem_zip hm
  exact h.transition_renamed ht (List.forall₂_zip hcourses hm) (ht.transitions i hi x hx).2
    (hu.transitions _ hlt y hy).2

/-- Up to the places of their states, trees that are alike are the same. -/
theorem renames : Renames (t.counterpart u) t u := by
  have hnode {i : Nat} (hi : i < t.size) :
      (t.node i).Renamed (t.counterpart u) (u.node (t.counterpart u i)) := by
    have hportrait := (h.placed ht hi).2
    exact
      { id := (h.counterpart_lt ht hu hi).2
        parent := h.parent_renamed ht hu hi
        children := h.children_renamed ht hu hi
        initial := congrArg Portrait.initial hportrait
        history := congrArg Portrait.history hportrait
        entry := Action.map_settled (congrArg Portrait.entry hportrait)
        exit := Action.map_settled (congrArg Portrait.exit hportrait)
        transitions := h.transitions_renamed ht hu hi }
  have hsize := h.size_eq ht hu
  have hall (i : Nat) : (t.node i).Renamed (t.counterpart u) (u.node (t.counterpart u i)) := by
    by_cases hi : i < t.size
    · exact hnode hi
    · -- outside both tables there is the root, again
      have hroot := hnode t.size_pos
      rw [h.counterpart_root ht hu] at hroot
      have hti : t.node i = t.node 0 := node_outside (by omega)
      have hui : u.node i = u.node 0 := node_outside (by omega)
      rw [counterpart_outside hi, hti, hui]
      exact hroot
  refine ⟨h.counterpart_injective ht hu, h.counterpart_root ht hu, hsize, hall, ?_⟩
  intro i
  have hclimb (n : Nat) := climb_rename (fun i => (hall i).parent) n i
  by_cases hi : i < t.size
  · obtain ⟨hlt, _⟩ := h.counterpart_lt ht hu hi
    calc u.path (t.counterpart u i)
        = u.climb (i + t.counterpart u i) (t.counterpart u i) :=
          (climb_enough hu.toLinked hlt (by omega)).symm
      _ = (t.climb (i + t.counterpart u i) i).map (t.counterpart u) := hclimb _
      _ = (t.path i).map (t.counterpart u) := by
          rw [climb_enough ht.toLinked hi (by omega)]
  · have hti (n : Nat) : t.climb n i = [i] := climb_outside ht.toLinked (by omega) n
    rw [path, path, hclimb, hti, hti]

end Alike

end Tree

end StateTree
