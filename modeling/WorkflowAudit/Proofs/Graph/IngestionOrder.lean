import WorkflowAudit.Proofs.Graph.DocumentFacts
import WorkflowAudit.Proofs.Graph.Indexes

/-! In which order documents come in matters to the numbers of the nodes only. Of the nodes with one
key the first one stays that has been read, and any two documents that state one state the same. -/

namespace WorkflowAudit

namespace Text

lemma eq_of_cons_append_eq {c : Char} {xs ys ds es : List Char} (hd : c ∉ ds) (he : c ∉ es)
    (h : ds ++ c :: xs = es ++ c :: ys) : ds = es ∧ xs = ys := by
  have hr := congrArg List.reverse h
  simp only [List.reverse_append, List.reverse_cons, List.append_assoc, List.singleton_append] at hr
  obtain ⟨hx, hd⟩ := eq_of_append_cons_eq (by simpa using hd) (by simpa using he) hr
  exact ⟨List.reverse_injective hd, List.reverse_injective hx⟩

end Text

namespace Graph

/-- Of two nodes with one key, if there are two, the one that stays. -/
def settle? : Option Node → Option Node → Option Node
  | none, new => new
  | some old, none => some old
  | some old, some new => some (settle old new)

/-- The node of a key that a fact states. -/
def Fact.offer (key : Key) : Fact → Option Node
  | .node n => if n.key = key then some n else none
  | .edge .. => none

/-- The node that stays of all those of a key among facts. -/
def offered (key : Key) (facts : List Fact) : Option Node :=
  (facts.map (Fact.offer key)).foldl settle? none

def node? (g : Graph) (key : Key) : Option Node := g.nodes.find? (·.key = key)

variable {t : Classification.Tables} {d d' : Document} {g : Graph} {key a b : Key} {r : Relation}
  {n m : Node} {i : Nat} {facts : List Fact}

lemma settle?_none (known : Option Node) : settle? known none = known := by
  cases known <;> rfl

lemma settle?_assoc (x y z : Option Node) : settle? (settle? x y) z = settle? x (settle? y z) := by
  cases x with
  | none => rfl
  | some a =>
    cases y with
    | none => rfl
    | some b =>
      cases z with
      | none => rfl
      | some c =>
        simp only [settle?, settle]
        cases ha : a.isInitialized <;> cases hb : b.isInitialized <;> cases hc : c.isInitialized <;>
          simp [ha, hb, hc]

instance : Std.Associative settle? := ⟨settle?_assoc⟩

/-- Two nodes may come in in either order, unless they have both been read or both not, and
differ. -/
lemma settle?_comm {x y : Option Node}
    (h : ∀ n ∈ x, ∀ m ∈ y, n.isInitialized = m.isInitialized → n = m) :
    settle? x y = settle? y x := by
  cases x with
  | none => exact (settle?_none y).symm
  | some n =>
    cases y with
    | none => rfl
    | some m =>
      by_cases hnm : n.isInitialized = m.isInitialized
      · rw [h n rfl m rfl hnm]
      · simp only [settle?, settle]
        cases hn : n.isInitialized <;> cases hm : m.isInitialized <;> simp_all

lemma node?_insert (g : Graph) (n : Node) (key : Key) :
    (g.insert n).node? key = settle? (g.node? key) (Fact.offer key (.node n)) := by
  rw [insert, Fact.offer]
  cases hi : g.number? n.key with
  | none =>
    rw [node?, node?, List.find?_append]
    split
    · next hk =>
      subst hk
      have hnone : g.nodes.find? (·.key = n.key) = none := by
        simpa using number?_eq_none_iff.mp hi
      simp [hnone, settle?]
    · next hk => simp [hk, settle?_none]
  | some i =>
    obtain ⟨hlt, hkey, hfirst⟩ := List.findIdx?_eq_some_iff_getElem.mp hi
    have hbefore : (g.nodes.take i).find? (·.key = n.key) = none := by
      refine List.find?_eq_none.mpr fun m hm => ?_
      obtain ⟨j, hj, rfl⟩ := List.mem_take_iff_getElem.mp hm
      exact hfirst j (by omega)
    have hsettle := (Node.follows_settle (of_decide_eq_true hkey)).key
    have hsplit : g.nodes = g.nodes.take i ++ g.nodes[i] :: g.nodes.drop (i + 1) := by simp
    have hnode : g.node? key = ((g.nodes.take i).find? (·.key = key)).or
        ((g.nodes[i] :: g.nodes.drop (i + 1)).find? (·.key = key)) := by
      rw [node?, ← List.find?_append, ← hsplit]
    dsimp only
    rw [node?, List.modify_eq_take_cons_drop hlt, List.find?_append, hnode]
    split
    · next hk =>
      subst hk
      rw [hbefore, List.find?_cons_of_pos, List.find?_cons_of_pos]
      · rfl
      · exact hkey
      · simpa [hsettle] using hkey
    · next hk =>
      have hold : g.nodes[i].key ≠ key := fun h => hk ((of_decide_eq_true hkey).symm.trans h)
      rw [settle?_none, List.find?_cons_of_neg, List.find?_cons_of_neg]
      · simpa using hold
      · simpa [hsettle] using hold

lemma node?_add (g : Graph) (fact : Fact) (key : Key) :
    (g.add fact).node? key = settle? (g.node? key) (fact.offer key) := by
  cases fact with
  | node n => exact node?_insert g n key
  | edge a b r =>
    have hnodes : (g.add (.edge a b r)).nodes = g.nodes := by
      rw [add]
      split
      · exact nodes_connect g _ _ r
      · rfl
    rw [Fact.offer, settle?_none, node?, node?, hnodes]

lemma node?_addAll (g : Graph) (facts : List Fact) (key : Key) :
    (g.addAll facts).node? key = settle? (g.node? key) (offered key facts) := by
  have hoffered : settle? (g.node? key) (offered key facts) =
      (facts.map (Fact.offer key)).foldl settle? (settle? (g.node? key) none) :=
    List.foldl_assoc.symm
  rw [hoffered, settle?_none]
  clear hoffered
  induction facts generalizing g with
  | nil => rfl
  | cons fact rest ih =>
    rw [addAll, List.foldl_cons, List.map_cons, List.foldl_cons, ← node?_add]
    exact ih _

lemma mem_of_mem_settle? {x y : Option Node} (h : n ∈ settle? x y) : n ∈ x ∨ n ∈ y := by
  cases x with
  | none => exact Or.inr h
  | some old =>
    cases y with
    | none => exact Or.inl h
    | some new =>
      rw [settle?, settle] at h
      split at h
      · exact Or.inr h
      · exact Or.inl h

lemma mem_of_mem_offered (h : n ∈ offered key facts) : .node n ∈ facts ∧ n.key = key := by
  have hfold : ∀ (facts : List Fact) (known : Option Node),
      n ∈ (facts.map (Fact.offer key)).foldl settle? known →
        n ∈ known ∨ ∃ fact ∈ facts, n ∈ fact.offer key := by
    intro facts
    induction facts with
    | nil => exact fun known h => Or.inl h
    | cons fact rest ih =>
      intro known h
      rcases ih _ h with h | ⟨fact', hmem, h⟩
      · exact (mem_of_mem_settle? h).imp_right fun h => ⟨fact, by simp, h⟩
      · exact Or.inr ⟨fact', List.mem_cons_of_mem _ hmem, h⟩
  rcases hfold facts none h with h | ⟨fact, hmem, h⟩
  · exact absurd h (by simp)
  · cases fact with
    | node m =>
      obtain ⟨hk, rfl⟩ : m.key = key ∧ m = n := by simpa [Fact.offer] using h
      exact ⟨hmem, hk⟩
    | edge a b r => exact absurd h (by simp [Fact.offer])

def usedRepository? (uses : String) : Option RepositoryUses :=
  match Uses.parse? uses with
  | some (.repository u) => some u
  | _ => none

/-- A clause names no repository and no reference with a colon. -/
def IsPlainUses (uses : String) : Prop :=
  ∀ u ∈ usedRepository? uses, ':' ∉ u.slug.toList ∧ ':' ∉ (u.ref.getD defaultRef).toList

instance : DecidablePred IsPlainUses := fun uses =>
  inferInstanceAs (Decidable (∀ u ∈ usedRepository? uses, _))

/-- No colon stands in the repository, the reference and the jobs of a document, nor in the
repositories and references that it uses. -/
@[mk_iff]
structure IsPlainNamed (d : Document) : Prop where
  repo : ':' ∉ d.repo.toList
  ref : ':' ∉ d.ref.toList
  jobs : ∀ j ∈ d.jobs, ':' ∉ j.name.toList
  called : ∀ j ∈ d.jobs, ∀ uses ∈ j.uses, IsPlainUses uses
  used : ∀ j ∈ d.jobs, ∀ s ∈ j.steps, ∀ uses ∈ s.uses, IsPlainUses uses

instance : DecidablePred IsPlainNamed := fun d => decidable_of_iff' _ (isPlainNamed_iff d)

lemma documentName_inj {repo repo' ref ref' path path' : String} (hrepo : ':' ∉ repo.toList)
    (hrepo' : ':' ∉ repo'.toList) (href : ':' ∉ ref.toList) (href' : ':' ∉ ref'.toList)
    (h : documentName repo ref path = documentName repo' ref' path') :
    repo = repo' ∧ ref = ref' ∧ path = path' := by
  have hl := congrArg String.toList h
  simp only [documentName, String.toList_append, List.append_assoc] at hl
  obtain ⟨h₁, hl⟩ := Text.eq_of_cons_append_eq hrepo hrepo' (by simpa using hl)
  obtain ⟨h₂, h₃⟩ := Text.eq_of_cons_append_eq href href' (by simpa using hl)
  exact ⟨String.toList_inj.mp h₁, String.toList_inj.mp h₂, String.toList_inj.mp h₃⟩

lemma plain_of_calledWorkflow {uses : String} {w : Workflow} (hd : IsPlainNamed d)
    (hu : IsPlainUses uses) (hw : calledWorkflow d uses = some w) :
    ':' ∉ w.repo.toList ∧ ':' ∉ w.ref.toList ∧ w = .called w.repo w.ref w.path := by
  rw [calledWorkflow] at hw
  split at hw
  · obtain rfl := Option.some.inj hw
    exact ⟨hd.repo, hd.ref, rfl⟩
  · next u hparse =>
    obtain ⟨path, -, rfl⟩ := Option.map_eq_some_iff.mp hw
    have hplain := hu u (by simp [usedRepository?, hparse])
    exact ⟨hplain.1, hplain.2, rfl⟩
  · exact absurd hw (by simp)

lemma plain_of_usedAction {uses : String} {a : Action} (hd : IsPlainNamed d)
    (hu : IsPlainUses uses) (ha : usedAction t d.repo d.ref uses = some a) :
    ':' ∉ a.repo.toList ∧ ':' ∉ a.ref.toList := by
  rw [usedAction] at ha
  split at ha
  · obtain rfl := Option.some.inj ha
    exact ⟨hd.repo, hd.ref⟩
  · next u hparse =>
    obtain rfl := Option.some.inj ha
    exact hu u (by simp [usedRepository?, hparse])
  · exact absurd ha (by simp)

def identity (d : Document) : String × String × String := (d.repo, d.ref, d.path)

lemma identity_eq_of_name (hd : IsPlainNamed d) (hd' : IsPlainNamed d')
    (h : (workflowNode d).name = (workflowNode d').name) : identity d = identity d' := by
  obtain ⟨h₁, h₂, h₃⟩ := documentName_inj hd.repo hd'.repo hd.ref hd'.ref h
  exact congrArg₂ Prod.mk h₁ (congrArg₂ Prod.mk h₂ h₃)

lemma identity_eq_of_jobName {j j' : Document.Job} (hd : IsPlainNamed d) (hd' : IsPlainNamed d')
    (hj : j ∈ d.jobs) (hj' : j' ∈ d'.jobs) (h : (jobNode d j).name = (jobNode d' j').name) :
    identity d = identity d' := by
  have hl := congrArg String.toList h
  simp only [jobNode, Node.name, Job.ofDocument, jobName, String.toList_append,
    List.append_assoc] at hl
  obtain ⟨hw, -⟩ := Text.eq_of_append_cons_eq (hd.jobs j hj) (hd'.jobs j' hj') (by simpa using hl)
  exact identity_eq_of_name hd hd' (String.toList_inj.mp hw)

/-- Two documents that state nodes with one key, both read or both not, state the same node. -/
lemma States.eq_of_key (hd : IsPlainNamed d) (hd' : IsPlainNamed d')
    (hne : identity d ≠ identity d') (h : States t d n) (h' : States t d' m) (hk : n.key = m.key)
    (hi : n.isInitialized = m.isInitialized) : n = m := by
  have hname : n.name = m.name := congrArg Key.name hk
  have hkind : n.kind = m.kind := congrArg Key.kind hk
  cases h with
  | repo =>
    cases h' with
    | repo => exact congrArg Node.repo hname
    | _ => cases hkind
  | workflow =>
    cases h' with
    | workflow => exact absurd (identity_eq_of_name hd hd' hname) hne
    | called _ _ hw => cases show true = false from hi.trans (isInitialized_calledWorkflow hw)
    | _ => cases hkind
  | job hj =>
    cases h' with
    | job hj' => exact absurd (identity_eq_of_jobName hd hd' hj hj' hname) hne
    | _ => cases hkind
  | step hj hs =>
    cases h' with
    | step hj' hs' =>
      exact absurd (identity_eq_of_jobName hd hd' hj hj' (stepName_inj.mp hname).1) hne
    | _ => cases hkind
  | called hj hu hw =>
    cases h' with
    | workflow => cases show true = false from hi.symm.trans (isInitialized_calledWorkflow hw)
    | called hj' hu' hw' =>
      obtain ⟨hr, hf, hw⟩ := plain_of_calledWorkflow hd (hd.called _ hj _ hu) hw
      obtain ⟨hr', hf', hw'⟩ := plain_of_calledWorkflow hd' (hd'.called _ hj' _ hu') hw'
      obtain ⟨h₁, h₂, h₃⟩ := documentName_inj hr hr' hf hf' hname
      rw [hw, hw', h₁, h₂, h₃]
    | _ => cases hkind
  | @used j s uses a hj hs hu ha =>
    cases h' with
    | @used j' s' uses' a' hj' hs' hu' ha' =>
      obtain ⟨hr, hf⟩ := plain_of_usedAction hd (hd.used _ hj _ hs _ hu) ha
      obtain ⟨hr', hf'⟩ := plain_of_usedAction hd' (hd'.used _ hj' _ hs' _ hu') ha'
      obtain ⟨h₁, h₂, h₃⟩ := documentName_inj hr hr' hf hf' hname
      cases a
      cases a'
      simp_all [Node.isInitialized]
    | _ => cases hkind

lemma eq_of_mem_offered (hd : IsPlainNamed d) (hd' : IsPlainNamed d')
    (hne : identity d ≠ identity d') (hn : n ∈ offered key (workflowFacts t d))
    (hm : m ∈ offered key (workflowFacts t d')) (hi : n.isInitialized = m.isInitialized) :
    n = m := by
  obtain ⟨hn, hkn⟩ := mem_of_mem_offered hn
  obtain ⟨hm, hkm⟩ := mem_of_mem_offered hm
  exact (states_of_mem hn).eq_of_key hd hd' hne (states_of_mem hm) (hkn.trans hkm.symm) hi

def ofDocuments (t : Classification.Tables) (ds : List Document) : Graph :=
  ds.foldl (fun g d => g.addWorkflow t d) empty

variable {ds ds' : List Document}

lemma ofDocuments_eq (t : Classification.Tables) (ds : List Document) :
    ofDocuments t ds = empty.addAll (ds.flatMap (workflowFacts t)) := by
  rw [addAll, List.foldl_flatMap]
  rfl

lemma node?_ofDocuments (t : Classification.Tables) (ds : List Document) (key : Key) :
    (ofDocuments t ds).node? key =
      ds.foldl (fun known d => settle? known (offered key (workflowFacts t d))) none := by
  have hfold : ∀ g : Graph, (ds.foldl (fun g d => g.addWorkflow t d) g).node? key =
      ds.foldl (fun known d => settle? known (offered key (workflowFacts t d))) (g.node? key) := by
    induction ds with
    | nil => exact fun _ => rfl
    | cons d ds ih =>
      intro g
      rw [List.foldl_cons, List.foldl_cons, ih, addWorkflow, node?_addAll]
  exact hfold empty

lemma node?_ofDocuments_perm (hp : ds.Perm ds') (hne : (ds.map identity).Nodup)
    (hds : ∀ d ∈ ds, IsPlainNamed d) (key : Key) :
    (ofDocuments t ds).node? key = (ofDocuments t ds').node? key := by
  rw [node?_ofDocuments, node?_ofDocuments]
  refine hp.foldl_eq' (fun d hd d' hd' known => ?_) none
  by_cases h : identity d = identity d'
  · rw [List.inj_on_of_nodup_map hne hd hd' h]
  · have hcomm : settle? (offered key (workflowFacts t d)) (offered key (workflowFacts t d')) =
        settle? (offered key (workflowFacts t d')) (offered key (workflowFacts t d)) :=
      settle?_comm fun n hn m hm => eq_of_mem_offered (hds d hd) (hds d' hd') h hn hm
    rw [settle?_assoc, settle?_assoc, hcomm]

lemma IsKeyed.mem_nodes_iff (h : g.IsKeyed) : n ∈ g.nodes ↔ g.node? n.key = some n := by
  constructor
  · intro hn
    cases hfind : g.node? n.key with
    | none => simpa using List.find?_eq_none.mp hfind n hn
    | some m =>
      have hkey : m.key = n.key := by simpa using List.find?_some hfind
      rw [List.inj_on_of_nodup_map h (List.mem_of_find?_eq_some hfind) hn hkey]
  · exact List.mem_of_find?_eq_some

lemma isGrounded_flatMap_workflowFacts (t : Classification.Tables) (ds : List Document) :
    IsGrounded [] (ds.flatMap (workflowFacts t)) := by
  refine .flatMap fun d _ => ?_
  by_cases hv : d.isValid = true
  · exact isGrounded_workflowFacts hv
  · simp [workflowFacts, hv, IsGrounded]

/-- The edges are those that documents state, whichever comes first. -/
lemma links_ofDocuments_iff :
    (ofDocuments t ds).Links a b r ↔ ∃ d ∈ ds, .edge a b r ∈ workflowFacts t d := by
  rw [ofDocuments_eq]
  constructor
  · rintro ⟨i, j, ha, hb, he⟩
    rcases mem_edges_addAll isKeyed_empty he with he | ⟨a', b', he, ha', hb'⟩
    · exact absurd he List.not_mem_nil
    · obtain ⟨n, hn, rfl⟩ := exists_of_number? ha
      obtain ⟨m, hm, rfl⟩ := exists_of_number? hb
      obtain rfl := eq_key_of_number? ha' hn
      obtain rfl := eq_key_of_number? hb' hm
      exact List.mem_flatMap.mp he
  · intro he
    exact links_addAll isKeyed_empty (isGrounded_flatMap_workflowFacts t ds) (by simp)
      (List.mem_flatMap.mpr he)

end Graph

namespace IndexedGraph

open WorkflowAudit.Graph (Key Node Relation IsPlainNamed identity)

/-- The graph of documents that come in one after the other. -/
def ofDocuments (t : Classification.Tables) (ds : List Document) : IndexedGraph :=
  ds.foldl (fun x d => x.addWorkflow t d) empty

/-- Two graphs that differ in the numbers of their nodes only. -/
structure SameByKeys (x y : IndexedGraph) : Prop where
  nodes : x.nodes.Perm y.nodes
  tags : ∀ (key : Key) (i j : Nat), x.number? key = some i → y.number? key = some j →
    ∀ tag : String, x.hasTag i tag = y.hasTag j tag
  edges : ∀ (a b : Key) (r : Relation),
    (∃ i j, x.number? a = some i ∧ x.number? b = some j ∧ ⟨i, j, r⟩ ∈ x.edges) ↔
      ∃ i j, y.number? a = some i ∧ y.number? b = some j ∧ ⟨i, j, r⟩ ∈ y.edges

lemma represents_ofDocuments (t : Classification.Tables) (ds : List Document) :
    (ofDocuments t ds).Represents (Graph.ofDocuments t ds) :=
  .foldl (fun _ _ d h => h.addWorkflow t d) represents_empty ds

lemma sameByKeys_of_node? {x y : IndexedGraph} (hx : x.IsIndexed) (hy : y.IsIndexed)
    (hn : ∀ key, x.toGraph.node? key = y.toGraph.node? key)
    (he : ∀ a b r, x.toGraph.Links a b r ↔ y.toGraph.Links a b r) : SameByKeys x y := by
  refine ⟨?_, fun key i j hi hj tag => ?_, fun a b r => ?_⟩
  · refine (List.perm_ext_iff_of_nodup (hx.keyed.of_map _) (hy.keyed.of_map _)).mpr fun n => ?_
    rw [hx.keyed.mem_nodes_iff, hy.keyed.mem_nodes_iff, hn]
  · obtain ⟨n, hni, rfl⟩ := hx.number?_eq_some_iff.mp hi
    obtain ⟨m, hmj, hkey⟩ := hy.number?_eq_some_iff.mp hj
    have hn' := hx.keyed.mem_nodes_iff.mp (List.mem_of_getElem? hni)
    have hm' := hy.keyed.mem_nodes_iff.mp (List.mem_of_getElem? hmj)
    rw [hn, ← hkey, hm'] at hn'
    obtain rfl := Option.some.inj hn'
    rw [Bool.eq_iff_iff, hx.hasTag_eq_true_iff, hy.hasTag_eq_true_iff, hni, hmj]
  · simp only [hx.number?_eq, hy.number?_eq]
    exact he a b r

/-- In which order documents come in matters to the numbers of the nodes only: nodes, tags and edges
are the same by their keys. -/
theorem ingestion_order_irrelevant {t : Classification.Tables} {ds ds' : List Document}
    (hp : ds.Perm ds') (hne : (ds.map fun d => (d.repo, d.ref, d.path)).Nodup)
    (hds : ∀ d ∈ ds, IsPlainNamed d) :
    SameByKeys (ofDocuments t ds) (ofDocuments t ds') := by
  have hx := represents_ofDocuments t ds
  have hy := represents_ofDocuments t ds'
  refine sameByKeys_of_node? hx.indexed hy.indexed (fun key => ?_) fun a b r => ?_
  · rw [hx.graph, hy.graph]
    exact Graph.node?_ofDocuments_perm hp hne hds key
  · rw [hx.graph, hy.graph, Graph.links_ofDocuments_iff, Graph.links_ofDocuments_iff]
    simp only [hp.mem_iff]

/-- Each document refers to the other one, and only to one of them is the action its own. -/
theorem swapped_documents_agree :
    let d := Document.parse ("on: push\njobs:\n  build:\n    steps:\n    - uses: ./tool\n" ++
      "  call:\n    uses: p/q/ci.yml@v1\n") "o/r" "HEAD" "ci.yml"
    let d' := Document.parse ("on: push\njobs:\n  build:\n    steps:\n" ++
      "    - uses: o/r/tool@HEAD\n  call:\n    uses: o/r/ci.yml\n") "p/q" "v1" "ci.yml"
    [d, d'].Perm [d', d] ∧ ([d, d'].map fun e => (e.repo, e.ref, e.path)).Nodup ∧
      (∀ e ∈ [d, d'], IsPlainNamed e) ∧
      SameByKeys (ofDocuments .default [d, d']) (ofDocuments .default [d', d]) := by
  intro d d'
  have hp : [d, d'].Perm [d', d] := .swap d' d []
  obtain ⟨hne, hds⟩ : ([d, d'].map fun e => (e.repo, e.ref, e.path)).Nodup ∧
      ∀ e ∈ [d, d'], IsPlainNamed e := by decide +kernel
  exact ⟨hp, hne, hds, ingestion_order_irrelevant hp hne hds⟩

end IndexedGraph

end WorkflowAudit
