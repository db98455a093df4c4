import WorkflowAudit.Proofs.Graph.Growth

/-! What a graph holds once facts have been added to it: nothing that none of them states, and all
that they state, of two nodes with one key the first one that has been read. -/

namespace WorkflowAudit.Graph

variable {g g' : Graph} {a b key : Key} {r : Relation} {n m : Node} {i j : Nat}

/-- An edge between the nodes of two keys. -/
def Links (g : Graph) (a b : Key) (r : Relation) : Prop :=
  ∃ i j, g.number? a = some i ∧ g.number? b = some j ∧ ⟨i, j, r⟩ ∈ g.edges

/-- The ends of each edge are known, or are stated before it. -/
def IsGrounded (known : List Key) : List Fact → Prop
  | [] => True
  | .node n :: rest => IsGrounded (n.key :: known) rest
  | .edge a b _ :: rest => a ∈ known ∧ b ∈ known ∧ IsGrounded known rest

/-- The keys of the nodes among facts. -/
def statedKeys (facts : List Fact) : List Key :=
  facts.filterMap fun
    | .node n => some n.key
    | .edge .. => none

lemma mem_statedKeys {facts : List Fact} (h : .node n ∈ facts) : n.key ∈ statedKeys facts :=
  List.mem_filterMap.mpr ⟨_, h, rfl⟩

lemma IsGrounded.mono {known known' : List Key} {facts : List Fact}
    (h : IsGrounded known facts) (hs : known ⊆ known') : IsGrounded known' facts := by
  induction facts generalizing known known' with
  | nil => trivial
  | cons fact rest ih =>
    cases fact with
    | node n => exact ih h (List.cons_subset_cons _ hs)
    | edge a b r => exact ⟨hs h.1, hs h.2.1, ih h.2.2 hs⟩

lemma IsGrounded.append {known : List Key} {facts facts' : List Fact}
    (h : IsGrounded known facts) (h' : IsGrounded (statedKeys facts ++ known) facts') :
    IsGrounded known (facts ++ facts') := by
  induction facts generalizing known with
  | nil => exact h'
  | cons fact rest ih =>
    cases fact with
    | node n =>
      refine ih h (h'.mono ?_)
      exact List.perm_middle.symm.subset
    | edge a b r => exact ⟨h.1, h.2.1, ih h.2.2 h'⟩

lemma IsGrounded.flatMap {α : Type} {known : List Key} {xs : List α} {facts : α → List Fact}
    (h : ∀ x ∈ xs, IsGrounded known (facts x)) : IsGrounded known (xs.flatMap facts) := by
  induction xs with
  | nil => trivial
  | cons x xs ih =>
    rw [List.flatMap_cons]
    refine (h x (by simp)).append ?_
    exact (ih fun y hy => h y (List.mem_cons_of_mem _ hy)).mono (List.subset_append_right _ _)

lemma IsGrounded.mem_of_edge {known : List Key} {facts : List Fact} (h : IsGrounded known facts)
    (he : .edge a b r ∈ facts) :
    a ∈ statedKeys facts ++ known ∧ b ∈ statedKeys facts ++ known := by
  induction facts generalizing known with
  | nil => exact absurd he List.not_mem_nil
  | cons fact rest ih =>
    cases fact with
    | node n =>
      obtain ⟨ha, hb⟩ := ih h (by simpa using he)
      exact ⟨List.perm_middle.subset ha, List.perm_middle.subset hb⟩
    | edge c e s =>
      rcases List.mem_cons.mp he with heq | he
      · obtain ⟨rfl, rfl, rfl⟩ : a = c ∧ b = e ∧ r = s := by simpa using heq
        exact ⟨List.mem_append_right _ h.1, List.mem_append_right _ h.2.1⟩
      · exact ih h.2.2 he

lemma exists_of_mem_statedKeys {facts : List Fact} (h : key ∈ statedKeys facts) :
    ∃ n, .node n ∈ facts ∧ n.key = key := by
  obtain ⟨fact, hf, hk⟩ := List.mem_filterMap.mp h
  cases fact with
  | node n => exact ⟨n, hf, Option.some.inj hk⟩
  | edge a b r => exact absurd hk (by simp)

lemma isGrounded_nodes {known : List Key} (ns : List Node) : IsGrounded known (ns.map .node) := by
  induction ns generalizing known with
  | nil => trivial
  | cons n ns ih => exact ih

lemma isGrounded_edges {known : List Key} {facts : List Fact}
    (h : ∀ fact ∈ facts, ∃ a b r, fact = .edge a b r ∧ a ∈ known ∧ b ∈ known) :
    IsGrounded known facts := by
  induction facts with
  | nil => trivial
  | cons fact rest ih =>
    obtain ⟨a, b, r, rfl, ha, hb⟩ := h fact (by simp)
    exact ⟨ha, hb, ih fun fact hf => h fact (List.mem_cons_of_mem _ hf)⟩

lemma isSome_number?_iff : (g.number? key).isSome = true ↔ ∃ n ∈ g.nodes, n.key = key := by
  simp [number?]

lemma Grows.links (h : g.Grows g') (hk : g'.IsKeyed) (hl : g.Links a b r) : g'.Links a b r := by
  obtain ⟨i, j, hi, hj, he⟩ := hl
  exact ⟨i, j, h.number? hk hi, h.number? hk hj, h.edges he⟩

lemma mem_edges_connect (g : Graph) (i j : Nat) (r : Relation) (e : Edge) :
    e ∈ (g.connect i j r).edges ↔ e ∈ g.edges ∨ e = ⟨i, j, r⟩ := by
  rw [connect]
  split
  · next h =>
    constructor
    · exact Or.inl
    · rintro (he | rfl)
      · exact he
      · simpa using h
  · simp

lemma nodes_connect (g : Graph) (i j : Nat) (r : Relation) : (g.connect i j r).nodes = g.nodes := by
  rw [connect]
  split <;> rfl

lemma links_add (hk : g.IsKeyed) (ha : (g.number? a).isSome = true)
    (hb : (g.number? b).isSome = true) : (g.add (.edge a b r)).Links a b r := by
  obtain ⟨i, hi⟩ := Option.isSome_iff_exists.mp ha
  obtain ⟨j, hj⟩ := Option.isSome_iff_exists.mp hb
  have hg := grows_add g (.edge a b r)
  refine ⟨i, j, hg.number? (hg.keyed hk) hi, hg.number? (hg.keyed hk) hj, ?_⟩
  simp only [add, hi, hj]
  exact (mem_edges_connect g i j r _).mpr (Or.inr rfl)

lemma isSome_number?_insert (g : Graph) (n : Node) :
    ((g.insert n).number? n.key).isSome = true := by
  rw [insert]
  split
  · next i hi =>
    obtain ⟨m, hm, hkey⟩ := exists_of_number? hi
    obtain ⟨m', hm', hf⟩ := (grows_modify (follows_settle_of_number? hi)).nodes i m hm
    exact isSome_number?_iff.mpr ⟨m', List.mem_of_getElem? hm', hf.key.trans hkey⟩
  · exact isSome_number?_iff.mpr ⟨n, by simp, rfl⟩

lemma Grows.isSome_number? (h : g.Grows g') (hk : g'.IsKeyed) (hs : (g.number? key).isSome = true) :
    (g'.number? key).isSome = true := by
  obtain ⟨i, hi⟩ := Option.isSome_iff_exists.mp hs
  exact Option.isSome_iff_exists.mpr ⟨i, h.number? hk hi⟩

/-- Every edge that grounded facts state is there in the end. -/
lemma links_addAll {known : List Key} {facts : List Fact} (hk : g.IsKeyed)
    (h : IsGrounded known facts) (hknown : ∀ key ∈ known, (g.number? key).isSome = true)
    (he : .edge a b r ∈ facts) : (g.addAll facts).Links a b r := by
  -- The nodes stated so far are in the graph, so that the next edge finds both of its ends.
  induction facts generalizing g known with
  | nil => exact absurd he List.not_mem_nil
  | cons fact rest ih =>
    have hg := grows_add g fact
    cases fact with
    | node n =>
      refine ih (hg.keyed hk) h (fun key hkey => ?_) (by simpa using he)
      rcases List.mem_cons.mp hkey with rfl | hkey
      · exact isSome_number?_insert g n
      · exact hg.isSome_number? (hg.keyed hk) (hknown key hkey)
    | edge c d s =>
      rcases List.mem_cons.mp he with heq | he
      · obtain ⟨rfl, rfl, rfl⟩ : a = c ∧ b = d ∧ r = s := by simpa using heq
        have hl : (g.add (.edge a b r)).Links a b r := links_add hk (hknown a h.1) (hknown b h.2.1)
        have hrest := grows_addAll (g.add (.edge a b r)) rest
        exact hrest.links (hrest.keyed (hg.keyed hk)) hl
      · exact ih (hg.keyed hk) h.2.2
          (fun key hkey => hg.isSome_number? (hg.keyed hk) (hknown key hkey)) he

lemma mem_nodes_insert (h : m ∈ (g.insert n).nodes) : m ∈ g.nodes ∨ m = n := by
  rw [insert] at h
  split at h
  · obtain ⟨i, hi⟩ := List.mem_iff_getElem?.mp h
    rw [List.getElem?_modify] at hi
    obtain ⟨m', hm', rfl⟩ := Option.map_eq_some_iff.mp hi
    have hmem := List.mem_of_getElem? hm'
    split
    · rw [settle]
      split
      · exact Or.inr rfl
      · exact Or.inl hmem
    · exact Or.inl hmem
  · simpa using h

lemma mem_nodes_addAll {facts : List Fact} (h : m ∈ (g.addAll facts).nodes) :
    m ∈ g.nodes ∨ .node m ∈ facts := by
  induction facts generalizing g with
  | nil => exact Or.inl h
  | cons fact rest ih =>
    rcases ih h with hm | hm
    · cases fact with
      | node n =>
        rcases mem_nodes_insert hm with hm | rfl
        · exact Or.inl hm
        · exact Or.inr (by simp)
      | edge a b r =>
        rw [add] at hm
        split at hm
        · rw [nodes_connect] at hm
          exact Or.inl hm
        · exact Or.inl hm
    · exact Or.inr (List.mem_cons_of_mem _ hm)

lemma mem_edges_addAll {facts : List Fact} (hk : g.IsKeyed)
    (h : ⟨i, j, r⟩ ∈ (g.addAll facts).edges) :
    ⟨i, j, r⟩ ∈ g.edges ∨ ∃ a b, .edge a b r ∈ facts ∧ (g.addAll facts).number? a = some i ∧
      (g.addAll facts).number? b = some j := by
  induction facts generalizing g with
  | nil => exact Or.inl h
  | cons fact rest ih =>
    have hg := grows_add g fact
    have hrest := grows_addAll (g.add fact) rest
    have hkrest := hrest.keyed (hg.keyed hk)
    rcases ih (hg.keyed hk) h with he | ⟨a, b, he, ha, hb⟩
    · cases fact with
      | node n =>
        refine Or.inl ?_
        rw [add, insert] at he
        split at he <;> exact he
      | edge a b s =>
        rw [add] at he
        split at he
        · next i' j' hi hj =>
          rcases (mem_edges_connect g _ _ _ _).mp he with he | heq
          · exact Or.inl he
          · obtain ⟨rfl, rfl, rfl⟩ : i = i' ∧ j = j' ∧ r = s := by simpa using heq
            exact Or.inr ⟨a, b, by simp, hrest.number? hkrest (hg.number? (hg.keyed hk) hi),
              hrest.number? hkrest (hg.number? (hg.keyed hk) hj)⟩
        · exact Or.inl he
    · exact Or.inr ⟨a, b, List.mem_cons_of_mem _ he, ha, hb⟩

lemma mem_insert_self (hn : n.isInitialized = true)
    (h : ∀ m ∈ g.nodes, m.key = n.key → m.isInitialized = false) : n ∈ (g.insert n).nodes := by
  rw [insert]
  split
  · next i hi =>
    obtain ⟨m, hm, hkey⟩ := exists_of_number? hi
    have hs : settle m n = n := by simp [settle, h m (List.mem_of_getElem? hm) hkey, hn]
    refine List.mem_of_getElem? (i := i) ?_
    simp [hm, hs]
  · simp

/-- The first node that has been read, among those of its key, keeps its place. -/
lemma mem_addAll_of_first {before after : List Fact} (hn : n.isInitialized = true)
    (hg : ∀ m ∈ g.nodes, m.key = n.key → m.isInitialized = false)
    (h : ∀ m, .node m ∈ before → m.key = n.key → m.isInitialized = false) :
    n ∈ (g.addAll (before ++ .node n :: after)).nodes := by
  have hfirst : n ∈ ((g.addAll before).insert n).nodes := by
    refine mem_insert_self hn fun m hm hkey => ?_
    rcases mem_nodes_addAll hm with hm | hm
    · exact hg m hm hkey
    · exact h m hm hkey
  obtain ⟨i, hi⟩ := List.mem_iff_getElem?.mp hfirst
  rw [addAll, List.foldl_append, List.foldl_cons]
  exact List.mem_of_getElem? ((grows_addAll _ after).getElem? hi hn)

end WorkflowAudit.Graph
