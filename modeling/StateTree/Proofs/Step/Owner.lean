import StateTree.Proofs.Step.Choice
import StateTree.Proofs.Step.Stopping

/-!
The owner along a trail. Making the calls of a trail again, each on the owner that those before it
left, leads to the owner that a step leaves; and an exit or an entry is marked only where its action
is absent or has just succeeded on that owner.
-/

namespace StateTree

variable {S O E : Type}

namespace Tree

/-- The action at a site. -/
def actionAt? (t : Tree S O E) : Site → Option (Action O E)
  | .guard _ _ => none
  | .exit i => (t.node i).exit
  | .action i n => (t.node i).transitions[n]?.bind Transition.action
  | .entry i => (t.node i).entry

def guardAt? (t : Tree S O E) : Site → Option (Guard O E)
  | .guard i n => (t.node i).transitions[n]?.bind Transition.guard
  | .exit _ | .action _ _ | .entry _ => none

/-- The owner that a mark leaves of `owner`: it is another one only where the mark is that of a
call, which is made again on `owner`. -/
def ownerPast (t : Tree S O E) (owner : O) : Mark E → O
  | .called site event =>
    match t.actionAt? site, t.guardAt? site, event with
    | some a, _, _ => (a.run owner event).2
    | none, some g, some e => (g.check owner e).2
    | none, _, _ => owner
  | _ => owner

theorem ownerPast_quiet (t : Tree S O E) (owner : O) {mark : Mark E} (h : mark.call? = none) :
    t.ownerPast owner mark = owner := by
  cases mark with
  | called site event => cases h
  | unmatched event => rfl
  | stayed i => rfl
  | exited i => rfl
  | restoring i depth => rfl
  | entered i => rfl
  | stuck i => rfl
  | moved source target before after => rfl

/-- The action at `site` is absent, or the last one of the marks before is its call, and it succeeds
on the owner that the earlier ones leave of `owner`. -/
def Cleared (t : Tree S O E) (event : Option E) (owner : O) (before : List (Mark E)) (site : Site) :
    Prop :=
  t.actionAt? site = none ∨
    ∃ earlier a, before = earlier ++ [.called site event] ∧ t.actionAt? site = some a ∧
      (a.run (earlier.foldl t.ownerPast owner) event).1.settle = .ok ()

end Tree

/-- The site of the action that an exit or an entry waits for. -/
def Mark.awaits? : Mark E → Option Site
  | exited i => some (.exit i)
  | entered i => some (.entry i)
  | _ => none

namespace Stride

variable {t : Tree S O E}

theorem mark?_quiet {s : Stride S O E} {mark : Mark E} (h : s.mark? = some mark) :
    mark.call? = none := by
  cases s <;> cases h <;> rfl

/-- What the mark of a stride waits for is the call of the stride. -/
theorem awaits_call {s : Stride S O E} {c : Call S O E} (hc : s.call? t = some c) {mark : Mark E}
    (hm : s.mark? = some mark) {site : Site} (hsite : mark.awaits? = some site) :
    c.site = site := by
  rcases call?_cases hc with ⟨i, below, rfl, he, _⟩ | ⟨x, rfl, _, _⟩ | ⟨i, rfl, he, _⟩
  · cases hm
    cases hsite
    exact he
  · cases hm
  · cases hm
    cases hsite
    exact he

theorem awaits_nothing {s : Stride S O E} (hc : s.call? t = none) {mark : Mark E}
    (hm : s.mark? = some mark) {site : Site} (hsite : mark.awaits? = some site) :
    t.actionAt? site = none := by
  cases s with
  | leave i below =>
    cases hm
    cases hsite
    exact Option.map_eq_none_iff.mp hc
  | enter i =>
    cases hm
    cases hsite
    exact Option.map_eq_none_iff.mp hc
  | act x => cases hm
  | forget i => cases hm
  | restoring i depth =>
    cases hm
    cases hsite
  | stuck i =>
    cases hm
    cases hsite

theorem actionAt?_call {s : Stride S O E} (hs : ∀ x, s = .act x →
    (t.node x.state).transitions[x.position]? = some x.transition) {c : Call S O E}
    (hc : s.call? t = some c) : t.actionAt? c.site = some c.action := by
  cases s with
  | leave i below =>
    obtain ⟨a, ha, rfl⟩ := Option.map_eq_some_iff.mp hc
    exact ha
  | act x =>
    obtain ⟨a, ha, rfl⟩ := Option.map_eq_some_iff.mp hc
    simp only [Tree.actionAt?, hs x rfl, Option.bind_some, ha]
  | enter i =>
    obtain ⟨a, ha, rfl⟩ := Option.map_eq_some_iff.mp hc
    exact ha
  | forget i => cases hc
  | restoring i depth => cases hc
  | stuck i => cases hc

end Stride

namespace Work

/-- The trail accounts for the work, which began with `owner`: its calls, made again, leave the
owner of the work, and whatever an exit or an entry waited for was cleared. -/
structure Accounted (t : Tree S O E) (event : Option E) (owner : O) (w : Work O E) : Prop where
  leaves : w.owner = w.trail.foldl t.ownerPast owner
  cleared : ∀ before mark, before ++ [mark] <+: w.trail → ∀ site, mark.awaits? = some site →
    t.Cleared event owner before site

variable {t : Tree S O E} {event : Option E} {owner : O} {w v : Work O E}

theorem accounted_start (t : Tree S O E) (event : Option E) (c : Configuration O) :
    (start c : Work O E).Accounted t event c.owner := by
  refine ⟨rfl, ?_⟩
  intro before mark hstart
  exact absurd (List.prefix_nil.mp hstart) (by simp)

/-- Work stays accounted for with one more mark. -/
theorem Accounted.extend (h : w.Accounted t event owner) {mark : Mark E}
    (htrail : v.trail = w.trail ++ [mark]) (howner : v.owner = t.ownerPast w.owner mark)
    (hcleared : ∀ site, mark.awaits? = some site → t.Cleared event owner w.trail site) :
    v.Accounted t event owner := by
  refine ⟨?_, ?_⟩
  · rw [howner, htrail, List.foldl_append, ← h.leaves]
    rfl
  · intro before mark' hstart site hsite
    rw [htrail, List.prefix_concat_iff] at hstart
    rcases hstart with he | hstart
    · obtain ⟨hbefore, hlast⟩ := List.append_inj' he rfl
      rw [hbefore]
      rw [List.singleton_inj.mp hlast] at hsite
      exact hcleared site hsite
    · exact h.cleared before mark' hstart site hsite

theorem Accounted.note (h : w.Accounted t event owner) {mark : Mark E}
    (hcall : mark.call? = none) (hawaits : mark.awaits? = none) :
    (w.note mark).Accounted t event owner := by
  refine h.extend rfl (t.ownerPast_quiet w.owner hcall).symm ?_
  intro site hsite
  cases hawaits.symm.trans hsite

theorem Accounted.called (h : w.Accounted t event owner) {site : Site} {a : Action O E}
    (ha : t.actionAt? site = some a) (event' : Option E) :
    (w.called (a.run w.owner event').2 site event').Accounted t event owner := by
  refine h.extend rfl ?_ ?_
  · simp only [Tree.ownerPast, ha]
    rfl
  · intro site hsite
    cases hsite

theorem Accounted.ask (h : w.Accounted t event owner) (e : E) {x : Candidate S O E}
    (hx : (t.node x.state).transitions[x.position]? = some x.transition) :
    (w.ask e x).Accounted t event owner := by
  rw [Work.ask]
  cases hg : x.transition.guard with
  | none => exact h
  | some g =>
    refine h.extend rfl ?_ ?_
    · simp only [Tree.ownerPast, Tree.actionAt?, Tree.guardAt?, hx, Option.bind_some, hg]
      rfl
    · intro site hsite
      cases hsite

theorem Accounted.settle (h : w.Accounted t event owner) (s : Stride S O E)
    (hcleared : ∀ mark, s.mark? = some mark → ∀ site, mark.awaits? = some site →
      t.Cleared event owner w.trail site) : (w.settle t s).Accounted t event owner := by
  cases hm : s.mark? with
  | none =>
    have htrail : (w.settle t s).trail = w.trail := by simp [Work.settle, hm]
    exact ⟨htrail ▸ h.leaves, htrail ▸ h.cleared⟩
  | some mark =>
    refine h.extend ?_ (t.ownerPast_quiet w.owner (Stride.mark?_quiet hm)).symm (hcleared mark hm)
    simp [Work.settle, hm]

/-- A stride is accounted for if its call is made where its action is. -/
theorem Accounted.stride (h : w.Accounted t event owner) {s : Stride S O E}
    (hs : ∀ c, s.call? t = some c → t.actionAt? c.site = some c.action) :
    (w.stride t event s).work.Accounted t event owner := by
  -- what comes before the call changes neither the owner nor the trail
  have hbefore : (w.stand (s.before w.standing)).Accounted t event owner := ⟨h.leaves, h.cleared⟩
  rw [Work.stride]
  cases hc : s.call? t with
  | none =>
    refine hbefore.settle s ?_
    intro mark hm site hsite
    exact Or.inl (Stride.awaits_nothing hc hm hsite)
  | some c =>
    have hcalled := hbefore.called (hs c hc) event
    rcases call_cases event (w.stand (s.before w.standing)) c with ⟨hok, hg⟩ | ⟨e, _, hg⟩
    · rw [hg]
      refine hcalled.settle s ?_
      intro mark hm site hsite
      obtain rfl := Stride.awaits_call hc hm hsite
      refine Or.inr ⟨w.trail, c.action, rfl, hs c hc, ?_⟩
      rw [← h.leaves]
      exact hok
    · rw [hg]
      exact hcalled

theorem Accounted.march (h : w.Accounted t event owner) {ss : List (Stride S O E)}
    (hs : ∀ s ∈ ss, ∀ c, s.call? t = some c → t.actionAt? c.site = some c.action) :
    (w.march t event ss).work.Accounted t event owner := by
  induction ss generalizing w with
  | nil => exact h
  | cons s rest ih =>
    have hstride := h.stride (hs s List.mem_cons_self)
    rw [Work.march]
    cases hp : w.stride t event s with
    | going v =>
      rw [hp] at hstride
      exact ih hstride fun s' hm => hs s' (List.mem_cons_of_mem s hm)
    | stopped v f =>
      rw [hp] at hstride
      exact hstride

theorem Accounted.choose {e : E} {cs : List (Candidate S O E)} (h : w.Accounted t event owner)
    (hcs : ∀ x ∈ cs, (t.node x.state).transitions[x.position]? = some x.transition) :
    (w.choose t e cs).1.Accounted t event owner := by
  induction cs generalizing w with
  | nil => exact h
  | cons x rest ih =>
    have hask := h.ask e (hcs x List.mem_cons_self)
    rw [choose_cons_eq]
    split
    · exact hask
    · exact ih hask fun y hy => hcs y (List.mem_cons_of_mem x hy)
    · exact hask

theorem Accounted.stay {e : E} {x : Candidate S O E} (h : w.Accounted t (some e) owner)
    (hx : (t.node x.state).transitions[x.position]? = some x.transition) :
    (w.stay t e x).1.Accounted t (some e) owner := by
  rcases stay_cases t e w x with ⟨_, hr⟩ | ⟨a, ha, hr⟩
  · rw [hr]
    exact h.note rfl rfl
  · have hsite : t.actionAt? (.action x.state x.position) = some a := by
      simp only [Tree.actionAt?, hx, Option.bind_some, ha]
    have hcalled := h.called hsite (some e)
    rcases hr with ⟨_, hr⟩ | ⟨error, _, hr⟩
    · rw [hr]
      exact hcalled.note rfl rfl
    · rw [hr]
      exact hcalled

end Work

namespace Tree

variable {t : Tree S O E}

theorem reset_accounted (ht : t.Linked) (c : Configuration O) :
    (t.reset c : Progress S O E).work.Accounted t none c.owner := by
  rw [Work.reset_eq_march ht]
  refine Work.Accounted.march
    (Work.accounted_start t none { c with active := [], history := .empty }) ?_
  intro s hs d hd
  refine Stride.actionAt?_call ?_ hd
  rintro x rfl
  rcases List.mem_cons.mp hs with he | hs
  · cases he
  · exact (arrives_settling hs).elim

/-- An itinerary acts once, for its own transition. -/
theorem act_mem_itinerary {x y : Candidate S O E} {target : Nat} {st : Standing}
    (h : .act y ∈ t.itinerary x target st) : y = x := by
  rw [itinerary_eq] at h
  rcases List.mem_append.mp h with h | h
  · rcases departure_cases h with he | ⟨_, _, he⟩
    · exact Stride.act.inj he
    · cases he
  · exact absurd h (departs_not_mem_entering (s := .act y) trivial)

variable [EventKind E] {event : E}

/-- Candidates keep the positions of their transitions. -/
theorem transition_of_candidate {active : List Nat} {x : Candidate S O E}
    (h : x ∈ t.candidates active event) :
    (t.node x.state).transitions[x.position]? = some x.transition := by
  obtain ⟨i, _, hx⟩ := List.mem_flatMap.mp h
  obtain ⟨⟨y, n⟩, hy, rfl⟩ := List.mem_map.mp hx
  exact List.mem_zipIdx_iff_getElem?.mp (List.mem_filter.mp hy).1

theorem select_accounted (c : Configuration O) :
    (t.select event c).1.Accounted t (some event) c.owner :=
  (Work.accounted_start t (some event) c).choose fun _ hx => transition_of_candidate hx

theorem passage_accounted [DecidableEq S] {c : Configuration O} {x : Candidate S O E} (target : Nat)
    (hs : (t.select event c).2 = .ok (some x)) :
    (t.passage event c x target).work.Accounted t (some event) c.owner := by
  refine (select_accounted c).march ?_
  intro s hm d hd
  refine Stride.actionAt?_call ?_ hd
  rintro y rfl
  rw [act_mem_itinerary hm]
  exact transition_of_candidate (Work.choose_mem hs)

/-- The trail of a reaction accounts for it, whatever its outcome. -/
theorem react_accounted [DecidableEq S] (ht : t.Sound) {c : Configuration O}
    (hst : t.Stands c.standing) :
    (t.react event c).1.Accounted t (some event) c.owner := by
  have hselect : (t.select event c).1.Accounted t (some event) c.owner := select_accounted c
  cases hs : (t.select event c).2 with
  | error f =>
    rw [react_of_error hs]
    exact hselect
  | ok found =>
    cases found with
    | none =>
      rw [react_of_none hs]
      exact hselect.note rfl rfl
    | some x =>
      cases hk : x.transition.kind with
      | stays =>
        rw [react_stays hs hk]
        exact hselect.stay (transition_of_candidate (Work.choose_mem hs))
      | moves id target =>
        have hmarch := passage_accounted target hs
        rcases react_passage ht hst hs hk with ⟨v, f, hp, _, hr⟩ | ⟨v, before, hp, _, hr⟩
        · rw [hp] at hmarch
          rw [hr]
          exact hmarch
        · rw [hp] at hmarch
          rw [hr]
          exact hmarch.note rfl rfl

end Tree

end StateTree
