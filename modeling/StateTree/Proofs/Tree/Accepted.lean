import StateTree.Proofs.Tree.Commands

/-!
A tree made by declarations is the one that their accepted commands make, and a declaration that is
refused leaves what was accepted before. Each state has the substates, the transitions and the
features that accepted commands gave it.
-/

namespace StateTree.Tree

variable {S O E : Type} [DecidableEq S] {t u : Tree S O E} {root : S} {log : List (Command S O E)}

theorem place_unique (ht : t.Sound) {i j : Nat} (hi : i < t.size) (hj : j < t.size)
    (he : (t.node i).id = (t.node j).id) : i = j := by
  have hplace := (ht.place _ i).mpr ⟨hi, he⟩
  rw [(ht.place _ j).mpr ⟨hj, rfl⟩] at hplace
  exact (Option.some.inj hplace).symm

theorem mem_ids_iff (ht : t.Sound) {id : S} : id ∈ t.ids ↔ t.contains id = true := by
  rw [contains, Option.isSome_iff_exists, List.mem_iff_getElem?]
  apply exists_congr
  intro i
  rw [ht.place, getElem?_ids, Option.map_eq_some_iff]
  constructor
  · rintro ⟨n, hn, rfl⟩
    exact ⟨(Array.getElem?_eq_some_iff.mp hn).1, congrArg Node.id (node_of_getElem? hn)⟩
  · rintro ⟨hi, he⟩
    exact ⟨t.node i, getElem?_nodes t i hi, he⟩

theorem node_mem_ids (ht : t.Sound) {i : Nat} (hi : i < t.size) : (t.node i).id ∈ t.ids := by
  rw [mem_ids_iff ht, contains, (ht.place _ i).mpr ⟨hi, rfl⟩]
  rfl

theorem kind?_addNode {id : S} (hn : t.contains id = false) (parent : Nat) {target : Option S}
    {kind : Kind S} (h : t.kind? target = .ok kind) :
    (t.addNode id parent).kind? target = .ok kind := by
  cases target with
  | none => exact h
  | some target =>
    cases hp : t.place? target with
    | none =>
      simp only [kind?, hp] at h
      cases h
    | some i =>
      simp only [kind?, hp] at h
      simp only [kind?, place_addNode t id target parent hn, hp, Option.some_or, h]

theorem single_obeys (root : S) : (single root : Tree S O E).Obeys root [] := by
  refine ⟨rfl, nofun, ?_⟩
  intro i hi
  have h0 : i = 0 := Nat.lt_one_iff.mp hi
  subst h0
  exact tells_fresh _ root none

theorem Obeys.mem_ids (h : t.Obeys root log) {c : Command S O E} (hc : c.addressee ∈ t.ids)
    (hs : t.ids <+: u.ids) {c' : Command S O E} (hm : c' ∈ log ++ [c]) : c'.addressee ∈ u.ids := by
  rcases List.mem_append.mp hm with hold | hnew
  · exact hs.subset (h.addressed c' hold)
  · rw [List.mem_singleton.mp hnew]
    exact hs.subset hc

/-- Commands that change nothing only have to find their state. -/
theorem Obeys.seek (h : t.Obeys root log) {c : Command S O E} (hc : c.addressee ∈ t.ids)
    (hs : c.substate? = none) (ha : c.arrow? = none) (hf : c.feature? = none) :
    t.Obeys root (log ++ [c]) := by
  refine ⟨?_, fun c' hm => h.mem_ids hc (List.prefix_refl _) hm, ?_⟩
  · rw [Command.known_append, List.filterMap_cons, hs, List.filterMap_nil, List.append_nil, h.ids]
  · intro i hi
    rw [Command.addressed_snoc]
    split
    · exact (h.node i hi).seek hs ha hf
    · exact h.node i hi

/-- A command that adds no state changes the node of its state alone. -/
theorem Obeys.modify (ht : t.Sound) (h : t.Obeys root log) {j : Nat} (hj : j < t.size)
    {f : Node S O E → Node S O E} (hid : ∀ n, (f n).id = n.id)
    (hchildren : ∀ n, (f n).children = n.children) {c : Command S O E}
    (hc : c.addressee = (t.node j).id) (hs : c.substate? = none)
    (htells : ∀ told, t.Tells (t.node j) told → t.Tells (f (t.node j)) (told ++ [c])) :
    (t.modify j f).Obeys root (log ++ [c]) := by
  have hids : (t.modify j f).ids = t.ids := ids_modify t j hid
  -- the changed tree has the same ids in the same places, so it tells what the old one did
  have hmono {n : Node S O E} {told : List (Command S O E)} (ht' : t.Tells n told)
      (hn : ∀ c ∈ n.children, c < t.size) : (t.modify j f).Tells n told := by
    refine ht'.mono ?_ fun _ _ hk => hk
    intro c hm
    rw [node_modify t c j f (hn c hm)]
    split
    · exact hid _
    · rfl
  have hlt {i : Nat} (hi : i < t.size) {c : Nat} (hm : c ∈ (t.node i).children) : c < t.size :=
    ((mem_children_iff ht.toLinked hi).mp hm).1
  refine ⟨?_, fun c' hm => h.mem_ids (hc ▸ node_mem_ids ht hj) (hids ▸ List.prefix_refl _) hm, ?_⟩
  · rw [hids, Command.known_append, List.filterMap_cons, hs, List.filterMap_nil, List.append_nil,
      h.ids]
  · intro i hi
    rw [size_modify] at hi
    rw [node_modify t i j f hi]
    by_cases he : j = i
    · subst he
      rw [if_pos rfl, hid, Command.addressed_snoc, if_pos hc]
      refine hmono (htells _ (h.node j hj)) ?_
      rw [hchildren]
      exact fun c hm => hlt hj hm
    · have hne : c.addressee ≠ (t.node i).id := fun hx =>
        he (place_unique ht hj hi (hc.symm.trans hx))
      rw [if_neg he, Command.addressed_snoc, if_neg hne]
      exact hmono (h.node i hi) fun c hm => hlt hi hm

theorem Obeys.describe (ht : t.Sound) (h : t.Obeys root log) {i : Nat} (hi : i < t.size)
    (feature : Feature S O E) :
    (t.modify i feature.describe).Obeys root (log ++ [.describe (t.node i).id feature]) := by
  refine h.modify ht hi ?_ ?_ rfl rfl fun told ht' => ht'.describe _ feature
  · intro n
    cases feature <;> rfl
  · intro n
    cases feature <;> rfl

theorem Obeys.connect (ht : t.Sound) (h : t.Obeys root log) {i : Nat} (hi : i < t.size)
    {arrow : Arrow S O E} {kind : Kind S} (hkind : t.kind? arrow.target = .ok kind) :
    (t.modify i fun n =>
      { n with transitions := n.transitions ++ [arrow.draw (t.node i).id kind] }).Obeys root
      (log ++ [.connect (t.node i).id arrow]) := by
  let draw (n : Node S O E) : Node S O E :=
    { n with transitions := n.transitions ++ [arrow.draw (t.node i).id kind] }
  have htells (told : List (Command S O E)) (htold : t.Tells (t.node i) told) :
      t.Tells (draw (t.node i)) (told ++ [.connect (t.node i).id arrow]) := htold.connect hkind
  exact h.modify ht hi (f := draw) (fun _ => rfl) (fun _ => rfl) rfl rfl htells

/-- No command was about a state before it was added. -/
theorem Obeys.addressed_fresh (h : t.Obeys root log) {id : S} (hn : id ∉ t.ids) :
    Command.addressed id log = [] := by
  apply List.filter_eq_nil_iff.mpr
  intro c hc
  rw [decide_eq_true_eq]
  rintro rfl
  exact hn (h.addressed c hc)

theorem Obeys.add (ht : t.Sound) (h : t.Obeys root log) {p : Nat} (hp : p < t.size) {id : S}
    (hn : t.contains id = false) :
    (t.addNode id p).Obeys root (log ++ [.add (t.node p).id id]) := by
  have hids : (t.addNode id p).ids = t.ids ++ [id] := ids_addNode t id p
  have hfresh : id ∉ t.ids := by rw [mem_ids_iff ht, hn]; exact Bool.false_ne_true
  have hid {i : Nat} (hi : i < t.size) : ((t.addNode id p).node i).id = (t.node i).id := by
    rw [id_addNode t id hp (by omega), if_neg (by omega)]
  have hnew : ((t.addNode id p).node t.size).id = id := by
    rw [id_addNode t id hp (Nat.le_refl _), if_pos rfl]
  -- old nodes have old substates, which keep their ids
  have hmono {i : Nat} (hi : i < t.size) {told : List (Command S O E)}
      (ht' : t.Tells (t.node i) told) : (t.addNode id p).Tells (t.node i) told := by
    refine ht'.mono ?_ fun _ _ hk => kind?_addNode hn p hk
    intro c hm
    exact hid ((mem_children_iff ht.toLinked hi).mp hm).1
  have hparent : (Command.add (t.node p).id id : Command S O E).addressee ∈ t.ids :=
    node_mem_ids ht hp
  refine ⟨?_, fun c hm => h.mem_ids hparent (hids ▸ List.prefix_append _ _) hm, ?_⟩
  · rw [hids, h.ids, Command.known_append]
    rfl
  · intro i hi
    rw [size_addNode] at hi
    rw [id_addNode t id hp (by omega), node_addNode t id i p hp (by omega), Command.addressed_snoc]
    by_cases hlast : i = t.size
    · -- nothing was told of the new state
      have hne : (t.node p).id ≠ id := fun he => hfresh (he ▸ hparent)
      rw [if_pos hlast, if_pos hlast, h.addressed_fresh hfresh]
      exact (if_neg hne).symm ▸ tells_fresh _ id (some p)
    · rw [if_neg hlast, if_neg hlast]
      by_cases he : p = i
      · subst he
        have htold := (hmono hp (h.node p hp)).add t.size
        rw [hnew] at htold
        rw [if_pos rfl]
        exact (if_pos rfl).symm ▸ htold
      · have hne : (t.node p).id ≠ (t.node i).id := fun hx =>
          he (place_unique ht hp (by omega) hx)
        rw [if_neg he]
        exact (if_neg hne).symm ▸ hmono (by omega) (h.node i (by omega))

theorem perform_add (ht : t.Sound) {i : Nat} (hi : i < t.size) (id : S) :
    t.perform (.add (t.node i).id id) = t.addNode id i := by
  rw [perform, (ht.place _ i).mpr ⟨hi, rfl⟩]

theorem perform_describe (ht : t.Sound) {i : Nat} (hi : i < t.size) (feature : Feature S O E) :
    t.perform (.describe (t.node i).id feature) = t.modify i feature.describe := by
  rw [perform, (ht.place _ i).mpr ⟨hi, rfl⟩]

theorem perform_connect (ht : t.Sound) {i : Nat} (hi : i < t.size) {arrow : Arrow S O E}
    {kind : Kind S} (hkind : t.kind? arrow.target = .ok kind) :
    t.perform (.connect (t.node i).id arrow) = t.modify i fun n =>
      { n with transitions := n.transitions ++ [arrow.draw (t.node i).id kind] } := by
  rw [perform, (ht.place _ i).mpr ⟨hi, rfl⟩, hkind]

/-- Declarations make what their accepted commands make. They end where they say, or with the first
refusal. -/
structure Follows (t : Tree S O E) (root : S) (log commands : List (Command S O E))
    (made : Tree S O E × Except (DeclarationError S) α) (ending : α) : Prop where
  tree : made.1 = (Command.accept (Command.known root log) commands).1.foldl perform t
  obeys : made.1.Obeys root (log ++ (Command.accept (Command.known root log) commands).1)
  answer : made.2 = answer (Command.accept (Command.known root log) commands).2 ending

theorem Follows.nil (h : t.Obeys root log) (a : α) : Follows t root log [] (t, .ok a) a where
  tree := rfl
  obeys := by rw [Command.accept, List.append_nil]; exact h
  answer := rfl

theorem Follows.refused (h : t.Obeys root log) {c : Command S O E} {e : DeclarationError S}
    (hr : c.refusal? (Command.known root log) = some e) (rest : List (Command S O E)) (a : α) :
    Follows t root log (c :: rest) (t, .error e) a := by
  have hstop : Command.accept (Command.known root log) (c :: rest) = ([], some e) := by
    rw [Command.accept, hr]
  constructor <;> rw [hstop]
  · rfl
  · rw [List.append_nil]
    exact h
  · rfl

theorem Follows.cons {c : Command S O E} (hr : c.refusal? (Command.known root log) = none)
    {rest : List (Command S O E)} {made : Tree S O E × Except (DeclarationError S) α} {a : α}
    (h : Follows (t.perform c) root (log ++ [c]) rest made a) :
    Follows t root log (c :: rest) made a := by
  have hknown : Command.known root (log ++ [c]) =
      Command.known root log ++ c.substate?.toList := by
    rw [Command.known_append, ← List.nil_append [c], filterMap_snoc]
    rfl
  have haccept : Command.accept (Command.known root log) (c :: rest) =
      (c :: (Command.accept (Command.known root (log ++ [c])) rest).1,
        (Command.accept (Command.known root (log ++ [c])) rest).2) := by
    rw [Command.accept, hr, hknown]
  constructor <;> rw [haccept]
  · exact h.tree
  · rw [List.append_cons]
    exact h.obeys
  · exact h.answer

/-- A part that fails is the end. -/
theorem Follows.append_refused {first : List (Command S O E)}
    {made : Tree S O E × Except (DeclarationError S) α} {a : α}
    (h : Follows t root log first made a) {e : DeclarationError S} (he : made.2 = .error e)
    (rest : List (Command S O E)) (b : β) :
    Follows t root log (first ++ rest) (made.1, .error e) b := by
  have hrefusal : (Command.accept (Command.known root log) first).2 = some e := by
    have hanswer := h.answer
    rw [he] at hanswer
    cases hr : (Command.accept (Command.known root log) first).2 with
    | none => rw [hr] at hanswer; cases hanswer
    | some e' => rw [hr] at hanswer; cases hanswer; rfl
  constructor <;> rw [Command.accept_append, hrefusal]
  · exact h.tree
  · exact h.obeys
  · rfl

theorem Follows.append {first : List (Command S O E)}
    {made : Tree S O E × Except (DeclarationError S) α} {a b : α}
    (h : Follows t root log first made a) (ha : made.2 = .ok b) :
    a = b ∧ ∀ {rest : List (Command S O E)} {made' : Tree S O E × Except (DeclarationError S) β}
        {c : β},
      Follows made.1 root (log ++ (Command.accept (Command.known root log) first).1) rest made' c →
      Follows t root log (first ++ rest) made' c := by
  have hanswer := h.answer
  rw [ha] at hanswer
  cases hr : (Command.accept (Command.known root log) first).2 with
  | some e => rw [hr] at hanswer; cases hanswer
  | none =>
    rw [hr] at hanswer
    cases hanswer
    refine ⟨rfl, ?_⟩
    intro rest made' c h'
    have hknown := Command.known_append root log (Command.accept (Command.known root log) first).1
    constructor <;> rw [Command.accept_append, hr, ← hknown]
    · rw [h'.tree, h.tree, List.foldl_append]
    · rw [← List.append_assoc]
      exact h'.obeys
    · exact h'.answer

theorem Obeys.mem_known_iff (ht : t.Sound) (h : t.Obeys root log) {id : S} :
    id ∈ Command.known root log ↔ t.contains id = true := by
  rw [← h.ids, mem_ids_iff ht]

theorem Obeys.refusal_add (ht : t.Sound) (h : t.Obeys root log) (parent id : S) :
    (Command.add parent id : Command S O E).refusal? (Command.known root log) =
      if t.contains id = true then some (.duplicateState id) else none := by
  simp only [Command.refusal?, h.mem_known_iff ht]

theorem Obeys.refusal_seekParent (ht : t.Sound) (h : t.Obeys root log) (id : S) :
    (Command.seekParent id : Command S O E).refusal? (Command.known root log) =
      if t.contains id = true then none else some (.unknownParent id) := by
  simp only [Command.refusal?, h.mem_known_iff ht]

theorem Obeys.refusal_seekState (ht : t.Sound) (h : t.Obeys root log) (id : S) :
    (Command.seekState id : Command S O E).refusal? (Command.known root log) =
      if t.contains id = true then none else some (.unknownState id) := by
  simp only [Command.refusal?, h.mem_known_iff ht]

theorem Obeys.refusal_connect (ht : t.Sound) (h : t.Obeys root log) (id : S)
    (arrow : Arrow S O E) :
    (Command.connect id arrow).refusal? (Command.known root log) =
      match t.kind? arrow.target with
      | .ok _ => none
      | .error e => some e := by
  cases htarget : arrow.target with
  | none => simp only [Command.refusal?, htarget, kind?]
  | some target =>
    simp only [Command.refusal?, htarget, h.mem_known_iff ht, contains, kind?]
    cases t.place? target <;> rfl

/-- Features change a tree as their accepted commands do. -/
theorem refine_follows (ht : t.Sound) (h : t.Obeys root log) {i : Nat} (hi : i < t.size)
    (features : List (Feature S O E)) :
    Follows t root log (Feature.commands (t.node i).id features)
      ((t.refine i features).1,
        (t.refine i features).2.map fun j => ((t.refine i features).1.node j).id)
      (Feature.last (t.node i).id features) := by
  induction features generalizing t i log with
  | nil => exact .nil h _
  | cons feature rest ih =>
    -- all features but a substate change the present node and stay there
    have hdescribe (f : Feature S O E) :
        Follows t root log (.describe (t.node i).id f :: Feature.commands (t.node i).id rest)
          (((t.modify i f.describe).refine i rest).1,
            ((t.modify i f.describe).refine i rest).2.map fun j =>
              (((t.modify i f.describe).refine i rest).1.node j).id)
          (Feature.last (t.node i).id rest) := by
      have hid : ((t.modify i f.describe).node i).id = (t.node i).id := by
        rw [node_modify t i i _ hi, if_pos rfl]
        cases f <;> rfl
      have hrest := ih (describe_sound ht i f) (h.describe ht hi f)
        (i := i) (by rw [size_modify]; exact hi)
      rw [hid] at hrest
      refine .cons rfl ?_
      rw [perform_describe ht hi]
      exact hrest
    cases feature with
    | substate id =>
      have hrefusal := h.refusal_add ht (t.node i).id id
      simp only [Feature.commands, refine, Tree.add, Feature.last]
      by_cases hc : t.contains id = true
      · rw [if_pos hc] at hrefusal ⊢
        exact .refused h hrefusal _ _
      · have hn : t.contains id = false := Bool.eq_false_iff.mpr hc
        have hrest := ih (addNode_sound ht id hi hn) (h.add ht hi hn)
          (i := t.size) (by rw [size_addNode]; omega)
        rw [id_addNode t id hi (Nat.le_refl _), if_pos rfl] at hrest
        rw [if_neg hc] at hrefusal ⊢
        refine .cons hrefusal ?_
        rw [perform_add ht hi]
        exact hrest
    | description text => exact hdescribe (.description text)
    | initial => exact hdescribe .initial
    | history => exact hdescribe .history
    | entry a => exact hdescribe (.entry a)
    | exit a => exact hdescribe (.exit a)

theorem connect_follows (ht : t.Sound) (h : t.Obeys root log) {i : Nat} (hi : i < t.size)
    (arrow : Arrow S O E) :
    Follows t root log [.connect (t.node i).id arrow] (t.connect i arrow) .transition := by
  have hrefusal := h.refusal_connect ht (t.node i).id arrow
  rw [Tree.connect]
  cases hkind : t.kind? arrow.target with
  | error e =>
    rw [hkind] at hrefusal
    exact .refused h hrefusal _ _
  | ok kind =>
    rw [hkind] at hrefusal
    refine .cons hrefusal ?_
    rw [perform_connect ht hi hkind]
    simp only [clauses_draw]
    exact .nil (h.connect ht hi hkind) _

theorem extend_follows (ht : t.Sound) (h : t.Obeys root log) {i : Nat} (hi : i < t.size)
    (chain : Chain S O E) :
    Follows t root log (chain.commands (t.node i).id) (t.extend i chain)
      (chain.ending (t.node i).id) := by
  obtain ⟨features, arrow⟩ := chain
  have hfeatures := refine_follows ht h hi features
  obtain ⟨hsound, hplace⟩ := grows_sound.leaves_refine features ht hi
  simp only [extend, Chain.commands, Chain.ending]
  cases hr : (t.refine i features).2 with
  | error e => exact hfeatures.append_refused (by rw [hr]; rfl) _ _
  | ok j =>
    obtain ⟨hlast, happend⟩ := hfeatures.append (congrArg (Except.map _) hr)
    rw [hlast]
    cases arrow with
    | none =>
      apply happend
      exact .nil hfeatures.obeys _
    | some arrow =>
      apply happend
      exact connect_follows hsound hfeatures.obeys (hplace j hr) arrow

theorem Obeys.root_id (h : t.Obeys root log) : (t.node 0).id = root := by
  have hids := getElem?_ids t 0
  rw [h.ids, getElem?_nodes t 0 t.size_pos] at hids
  exact (Option.some.inj hids).symm

/-- A declaration makes what its accepted commands make. -/
theorem declare_follows (ht : t.Sound) (h : t.Obeys root log) (d : Declaration S O E) :
    Follows t root log (d.commands root) (t.declare d) d.ending := by
  cases d with
  | addToRoot id chain =>
    have hextend := extend_follows ht h t.size_pos
      { chain with features := .substate id :: chain.features }
    rw [h.root_id] at hextend
    exact hextend
  | addTo parent id chain =>
    have hrefusal := h.refusal_seekParent ht parent
    rw [contains] at hrefusal
    simp only [declare]
    cases hp : t.place? parent with
    | none =>
      rw [hp] at hrefusal
      exact .refused h hrefusal _ _
    | some i =>
      rw [hp] at hrefusal
      obtain ⟨hi, rfl⟩ := (ht.place parent i).mp hp
      have hseek := h.seek (c := .seekParent (t.node i).id) (node_mem_ids ht hi) rfl rfl rfl
      exact .cons hrefusal (extend_follows ht hseek hi
        { chain with features := .substate id :: chain.features })
  | inState id chain =>
    have hrefusal := h.refusal_seekState ht id
    rw [contains] at hrefusal
    simp only [declare]
    cases hp : t.place? id with
    | none =>
      rw [hp] at hrefusal
      exact .refused h hrefusal _ _
    | some i =>
      rw [hp] at hrefusal
      obtain ⟨hi, rfl⟩ := (ht.place id i).mp hp
      have hseek := h.seek (c := .seekState (t.node i).id) (node_mem_ids ht hi) rfl rfl rfl
      exact .cons hrefusal (extend_follows ht hseek hi chain)

theorem build_append (root : S) (declarations : List (Declaration S O E))
    (d : Declaration S O E) :
    build root (declarations ++ [d]) = ((build root declarations).declare d).1 := by
  rw [build, List.foldl_append]
  rfl

theorem build_obeys (root : S) (declarations : List (Declaration S O E)) :
    (build root declarations).Obeys root (Declaration.accepted root declarations) := by
  induction declarations using List.reverseRecOn with
  | nil => exact single_obeys root
  | append_singleton declarations d ih =>
    rw [build_append, Declaration.accepted, List.foldl_append]
    exact (declare_follows (build_sound root declarations) ih d).obeys

/-- A declaration is refused for an unknown parent or state only where it starts. -/
theorem extend_found (ht : t.Sound) (h : t.Obeys root log) {i : Nat} (hi : i < t.size)
    (chain : Chain S O E) (id : S) :
    (t.extend i chain).2 ≠ .error (.unknownParent id) ∧
      (t.extend i chain).2 ≠ .error (.unknownState id) := by
  rw [(extend_follows ht h hi chain).answer]
  cases hr : (Command.accept (Command.known root log) (chain.commands (t.node i).id)).2 with
  | none => exact ⟨nofun, nofun⟩
  | some e =>
    obtain ⟨c, hc, ids, hrefusal⟩ := Command.refusal_of_accept hr
    have hseek := Chain.commands_seek (t.node i).id chain c hc id
    constructor <;> rintro ⟨⟩
    · rcases Command.seek_of_refusal (.inl hrefusal) with rfl | rfl
      · exact hseek.1 rfl
      · exact hseek.2 rfl
    · rcases Command.seek_of_refusal (.inr hrefusal) with rfl | rfl
      · exact hseek.1 rfl
      · exact hseek.2 rfl

/-- What a builder has done after any declarations. It knows the ids that were added, and by these
alone it decides what it refuses: a state that it knows, and a parent, a state or a target that it
does not know. A refused call leaves the tree as it is, and a declaration does what its calls before
the first refused one do. In the tree each state has the substates and transitions that accepted
calls on it declared, in their order, and the last of the other features that such calls gave it. -/
theorem build_does_accepted (root : S) (declarations : List (Declaration S O E)) :
    let t := build root declarations
    let log := Declaration.accepted root declarations
    let known := Command.known root log
    (∀ id, t.contains id = true ↔ id ∈ known) ∧
    (∀ i id, ((t.add i id).2 = .error (.duplicateState id) ↔ id ∈ known) ∧
      (id ∈ known → (t.add i id).1 = t)) ∧
    (∀ parent id chain,
      ((t.declare (.addTo parent id chain)).2 = .error (.unknownParent parent) ↔
        parent ∉ known) ∧
      (parent ∉ known → (t.declare (.addTo parent id chain)).1 = t)) ∧
    (∀ id chain,
      ((t.declare (.inState id chain)).2 = .error (.unknownState id) ↔ id ∉ known) ∧
      (id ∉ known → (t.declare (.inState id chain)).1 = t)) ∧
    (∀ i event target clauses,
      ((t.connect i ⟨event, some target, clauses⟩).2 = .error (.unknownTarget target) ↔
        target ∉ known) ∧
      (target ∉ known → (t.connect i ⟨event, some target, clauses⟩).1 = t)) ∧
    (∀ d, let told := Command.accept known (d.commands root)
      (t.declare d).2 = answer told.2 d.ending ∧ (t.declare d).1 = told.1.foldl perform t) ∧
    t.Obeys root log := by
  intro t log known
  have ht : t.Sound := build_sound root declarations
  have h : t.Obeys root log := build_obeys root declarations
  have hmem (id : S) : id ∈ known ↔ t.contains id = true := h.mem_known_iff ht
  have hplace (id : S) : id ∉ known ↔ t.place? id = none := by
    rw [hmem, contains, Bool.not_eq_true, Option.isSome_eq_false_iff, Option.isNone_iff_eq_none]
  refine ⟨fun id => (hmem id).symm, ?_, ?_, ?_, ?_, ?_, h⟩
  · intro i id
    rw [hmem, Tree.add]
    by_cases hc : t.contains id = true
    · simp [hc]
    · simp [hc]
  · intro parent id chain
    rw [hplace]
    simp only [declare]
    cases hp : t.place? parent with
    | none => exact ⟨⟨fun _ => rfl, fun _ => rfl⟩, fun _ => rfl⟩
    | some i =>
      have hfound := extend_found ht h (place_lt ht hp)
        { chain with features := .substate id :: chain.features } parent
      exact ⟨⟨fun he => absurd he hfound.1, fun hn => (by cases hn)⟩, fun hn => (by cases hn)⟩
  · intro id chain
    rw [hplace]
    simp only [declare]
    cases hp : t.place? id with
    | none => exact ⟨⟨fun _ => rfl, fun _ => rfl⟩, fun _ => rfl⟩
    | some i =>
      have hfound := extend_found ht h (place_lt ht hp) chain id
      exact ⟨⟨fun he => absurd he hfound.2, fun hn => (by cases hn)⟩, fun hn => (by cases hn)⟩
  · intro i event target clauses
    rw [hplace]
    simp only [Tree.connect, kind?]
    cases t.place? target with
    | none => exact ⟨⟨fun _ => rfl, fun _ => rfl⟩, fun _ => rfl⟩
    | some j =>
      refine ⟨⟨?_, ?_⟩, ?_⟩
      all_goals
        intro hn
        cases hn
  · intro d told
    have hd := declare_follows ht h d
    exact ⟨hd.answer, hd.tree⟩

end StateTree.Tree
