/-!
What history states remember: for each, the chain of states that was active below it, outermost
first.
-/

namespace StateTree

structure History where
  records : List (Nat × List Nat)
  deriving DecidableEq

namespace History

def empty : History := ⟨[]⟩

def get? (h : History) (i : Nat) : Option (List Nat) := h.records.lookup i

def erase (h : History) (i : Nat) : History := ⟨h.records.filter fun r => r.1 != i⟩

/-- A new record replaces an old one. -/
def insert (h : History) (i : Nat) (chain : List Nat) : History :=
  ⟨(i, chain) :: (h.erase i).records⟩

theorem get?_empty (i : Nat) : empty.get? i = none := rfl

theorem get?_erase (h : History) (i j : Nat) :
    (h.erase i).get? j = if j = i then none else h.get? j := by
  have hr (rs : List (Nat × List Nat)) :
      (rs.filter fun r => r.1 != i).lookup j = if j = i then none else rs.lookup j := by
    induction rs with
    | nil => simp
    | cons r rs ih =>
      by_cases hi : r.1 = i
      · rw [List.filter_cons_of_neg (by simpa using hi), ih, List.lookup_cons, hi]
        by_cases hj : j = i
        · simp only [hj, if_true]
        · simp only [hj, if_false, beq_false_of_ne hj]
      · rw [List.filter_cons_of_pos (by simpa using hi), List.lookup_cons, ih, List.lookup_cons]
        by_cases hj : j = r.1
        · have hne : ¬j = i := fun he => hi (hj ▸ he)
          simp only [hne, if_false]
        · simp only [beq_false_of_ne hj]
  exact hr h.records

theorem get?_insert (h : History) (i j : Nat) (chain : List Nat) :
    (h.insert i chain).get? j = if j = i then some chain else h.get? j := by
  have he := get?_erase h i j
  by_cases hj : j = i
  · simp only [insert, get?, List.lookup_cons, hj, beq_self_eq_true, if_true]
  · simp only [get?, hj, if_false] at he
    simp only [insert, get?, List.lookup_cons, beq_false_of_ne hj, he, hj, if_false]

theorem get?_ne_none {h : History} {r : Nat × List Nat} (hr : r ∈ h.records) :
    h.get? r.1 ≠ none := by
  intro hn
  have hne := List.lookup_eq_none_iff.mp hn r hr
  simp at hne

theorem records_eq_nil {h : History} (hn : ∀ i, h.get? i = none) : h.records = [] := by
  apply List.eq_nil_iff_forall_not_mem.mpr
  intro r hr
  exact get?_ne_none hr (hn r.1)

/-- No state has two records. -/
def Distinct (h : History) : Prop := (h.records.map Prod.fst).Nodup

theorem distinct_empty : empty.Distinct := List.nodup_nil

theorem Distinct.erase {h : History} (hd : h.Distinct) (i : Nat) : (h.erase i).Distinct :=
  List.Nodup.sublist (List.filter_sublist.map Prod.fst) hd

theorem Distinct.insert {h : History} (hd : h.Distinct) (i : Nat) (chain : List Nat) :
    (h.insert i chain).Distinct := by
  refine List.nodup_cons.mpr ⟨?_, hd.erase i⟩
  -- the old record of `i` was taken out first
  intro hm
  obtain ⟨r, hr, he⟩ := List.mem_map.mp hm
  have hne := (List.mem_filter.mp hr).2
  simp [he] at hne

/-- Where no state has two records, looking one up finds exactly those that are there. -/
theorem mem_records_iff {h : History} (hd : h.Distinct) {i : Nat} {chain : List Nat} :
    (i, chain) ∈ h.records ↔ h.get? i = some chain := by
  rw [get?, List.lookup_eq_some_iff]
  constructor
  · intro hm
    obtain ⟨earlier, later, hs⟩ := List.append_of_mem hm
    refine ⟨earlier, later, hs, ?_⟩
    intro r hr
    have hnodup : (earlier.map Prod.fst ++ i :: later.map Prod.fst).Nodup := by
      have hd' : (h.records.map Prod.fst).Nodup := hd
      rw [hs, List.map_append, List.map_cons] at hd'
      exact hd'
    have hne := (List.nodup_append.mp hnodup).2.2 r.1 (List.mem_map_of_mem hr) i
      List.mem_cons_self
    simpa using Ne.symm hne
  · rintro ⟨earlier, later, hs, _⟩
    rw [hs]
    exact List.mem_append_right _ List.mem_cons_self

end History

end StateTree
