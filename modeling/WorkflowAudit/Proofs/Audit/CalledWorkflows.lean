import Mathlib.Order.WellFoundedSet
import WorkflowAudit.Proofs.Audit.FailingJobs
import WorkflowAudit.Proofs.Audit.ResolutionRounds
import WorkflowAudit.Proofs.Graph.IngestionOrder
import WorkflowAudit.Proofs.Graph.Rebuilding

/-! What a call to another workflow comes to once it is resolved. The document that answers lies
where the call says, but it comes in under a name of its own, and the call gets to see it only if
the two names are spelled alike. -/

namespace WorkflowAudit

namespace Source

lemma plainChars_plainChars (cs : List Char) : plainChars (plainChars cs) = plainChars cs := by
  fun_induction plainChars cs with
  | case1 rest ih => exact ih
  | case2 cs hplain =>
    rw [plainChars]
    exact hplain

lemma plainPath_plainPath (path : String) : plainPath (plainPath path) = plainPath path := by
  rw [plainPath, plainPath, String.toList_ofList, plainChars_plainChars]

lemma DocumentKey.of_of (repo ref path : String) :
    DocumentKey.of (DocumentKey.of repo ref path).repo (DocumentKey.of repo ref path).ref
      (DocumentKey.of repo ref path).path = .of repo ref path := by
  simp [DocumentKey.of, plainPath_plainPath]

namespace Cache

variable {c : Cache} {s : Source} {key : DocumentKey} {d : Document}

/-- The caches that come about in front of a source. -/
inductive ComesAbout (s : Source) : Cache → Prop
  | empty : ComesAbout s .empty
  | insertWorkflow {c : Cache} (d : Document) : ComesAbout s c → ComesAbout s (c.insertWorkflow d)
  | after {c : Cache} (l : Lookup) : ComesAbout s c → ComesAbout s (c.after s l)

/-- Workflows are kept under the places where they lie, however their paths are spelled. -/
def IsFiled (c : Cache) : Prop :=
  ∀ e ∈ c.workflows, ∀ d ∈ e.2, DocumentKey.of d.repo d.ref d.path = .of e.1.repo e.1.ref e.1.path

lemma IsFiled.insertWorkflow (hc : c.IsFiled) (d : Document) : (c.insertWorkflow d).IsFiled := by
  intro e he d' hd'
  rcases List.mem_cons.mp he with rfl | he
  · obtain rfl : d = d' := Option.some.inj hd'
    exact (DocumentKey.of_of _ _ _).symm
  · exact hc e he d' hd'

lemma of_askWorkflow (h : askWorkflow s key = .ok (some d)) :
    d.repo = key.repo ∧ d.ref = key.ref ∧ d.path = key.path := by
  rw [askWorkflow] at h
  cases hs : s.workflow key.repo key.path key.ref with
  | error e => simp [hs, Except.map] at h
  | ok text =>
    obtain ⟨text, -, rfl⟩ : ∃ a, text = some a ∧ documentAt key a = d := by
      simpa [hs, Except.map] using h
    exact ⟨rfl, rfl, rfl⟩

lemma IsFiled.after (hc : c.IsFiled) (s : Source) (l : Lookup) : (c.after s l).IsFiled := by
  rw [Cache.after]
  split
  · exact hc
  · rw [remember.eq_def]
    split
    · split <;> exact hc
    · split <;> exact hc
    · next key =>
      split
      · next answer hanswer =>
        intro e he d hd
        rcases List.mem_cons.mp he with rfl | he
        · obtain rfl : answer = some d := hd
          obtain ⟨hrepo, href, hpath⟩ := of_askWorkflow hanswer
          rw [hrepo, href, hpath]
        · exact hc e he d hd
      · exact hc
    · split <;> exact hc

lemma ComesAbout.isFiled (hc : c.ComesAbout s) : c.IsFiled := by
  induction hc with
  | empty => exact fun _ he => absurd he List.not_mem_nil
  | insertWorkflow d _ ih => exact ih.insertWorkflow d
  | after l _ ih => exact ih.after s l

lemma path_of_not_holds (h : (c.knowledge s).workflow key = some d)
    (hnew : c.holds (.workflow key) = false) :
    d.repo = key.repo ∧ d.ref = key.ref ∧ d.path = key.path := by
  have hnone : c.workflows.lookup key = none := by simpa [holds] using hnew
  simp only [knowledge, hnone, Option.getD_none] at h
  cases hs : askWorkflow s key with
  | error e => simp [hs, answered] at h
  | ok answer =>
    obtain rfl : answer = some d := by simpa [hs, answered] using h
    exact of_askWorkflow hs

lemma ComesAbout.place_eq (hc : c.ComesAbout s) {repo ref path : String}
    (h : (c.knowledge s).workflow (.of repo ref path) = some d) :
    DocumentKey.of d.repo d.ref d.path = .of repo ref path := by
  cases hheld : c.workflows.lookup (.of repo ref path) with
  | none =>
    obtain ⟨hrepo, href, hpath⟩ := path_of_not_holds h (by simp [holds, hheld])
    rw [hrepo, href, hpath, DocumentKey.of_of]
  | some answer =>
    obtain rfl : answer = some d := by simpa [knowledge, hheld] using h
    obtain ⟨before, after, hsplit, -⟩ := List.lookup_eq_some_iff.mp hheld
    rw [hc.isFiled (.of repo ref path, some d) (by simp [hsplit]) d rfl, DocumentKey.of_of]

end Cache

end Source

namespace Graph

variable {t : Classification.Tables} {d : Document} {j : Document.Job} {g g' : Graph} {a b : Key}
  {r : Relation} {x i : Nat}

lemma exists_successor_of_links (hk : g.IsKeyed) (hl : g.Links a b r) (ha : g.number? a = some x)
    (hb : b.kind = .job) : ∃ y, g.number? b = some y ∧ y ∈ g.successors x := by
  have ⟨_, y, _, hy, _⟩ := hl
  obtain ⟨n, hn, rfl⟩ := exists_of_number? ha
  obtain ⟨m, hm, rfl⟩ := exists_of_number? hy
  refine ⟨y, hy, mem_successors_of_links hk hl hn hm ?_⟩
  rintro s rfl -
  cases hb

lemma getElem?_markInitialized_of_ne {j : Nat} (h : j ≠ i) :
    (g.markInitialized j).nodes[i]? = g.nodes[i]? := by
  simp [markInitialized, h]

lemma wellFoundedOn_waitsFor (hacyclic : ∀ name, ¬ WaitsFor d name name) :
    {name | name ∈ d.jobs.map (·.name)}.WellFoundedOn (WaitsFor d) := by
  have : IsStrictOrder String (WaitsFor d) :=
    { irrefl := hacyclic, trans := fun _ _ _ => Relation.TransGen.trans }
  exact (List.finite_toSet _).wellFoundedOn

/-- Where no job waits for itself, ways lead from a workflow to all of its jobs. -/
lemma exists_way_to_job (hk : g.IsKeyed) (hfacts : ∀ fact ∈ workflowFacts t d, g.Holds fact)
    (hacyclic : ∀ name, ¬ WaitsFor d name name)
    (hi : g.number? (workflowNode d).key = some i) (hj : j ∈ d.jobs) :
    ∃ y, g.number? (jobNode d j).key = some y ∧
      Relation.ReflTransGen (fun a b => b ∈ g.successors a) i y := by
  have hjobs : ∀ j' ∈ d.jobs, j'.name ∈ {name | name ∈ d.jobs.map (·.name)} := fun j' hj' =>
    List.mem_map.mpr ⟨j', hj', rfl⟩
  -- The induction is on the names along the needs; jobs of one name share a node.
  suffices h : ∀ name ∈ {name | name ∈ d.jobs.map (·.name)}, ∀ j' ∈ d.jobs, j'.name = name →
      ∃ y, g.number? (jobNode d j').key = some y ∧
        Relation.ReflTransGen (fun a b => b ∈ g.successors a) i y from h _ (hjobs j hj) j hj rfl
  intro name hmem
  apply (wellFoundedOn_waitsFor hacyclic).induction hmem
  intro name _ ih j' hj' hname
  have hlinks {a b : Key} {r : Relation} (he : .edge a b r ∈ jobFacts t d j') : g.Links a b r :=
    hfacts (.edge a b r) (mem_workflowFacts_of_job hj' he)
  by_cases hfirst : knownNeeds d j' = []
  · have hl := hlinks (contains_mem_jobFacts hfirst)
    obtain ⟨y, hy, hiy⟩ := exists_successor_of_links hk hl hi rfl
    exact ⟨y, hy, .single hiy⟩
  · obtain ⟨need, hneed⟩ := List.exists_mem_of_ne_nil _ hfirst
    obtain ⟨j'', hj'', rfl⟩ := exists_of_mem_knownNeeds hneed
    have hwaits : WaitsFor d j''.name name := .single ⟨j', hj', hname, hneed⟩
    obtain ⟨x, hx, hway⟩ := ih _ (hjobs j'' hj'') hwaits j'' hj'' rfl
    have hl := hlinks (needs_mem_jobFacts hneed)
    obtain ⟨y, hy, hxy⟩ := exists_successor_of_links hk hl hx rfl
    exact ⟨y, hy, hway.tail hxy⟩

end Graph

namespace Audit

open Source (Knowledge)
open WorkflowAudit.Graph (Node Workflow workflowFacts workflowNode)
open IndexedGraph (referenceFacts)

variable {k : Knowledge} {t : Classification.Tables} {g g' : Graph} {d : Document} {w : Workflow}
  {entries : List Nat} {i j : Nat}

/-- No workflow that is known goes by a name, except for one. -/
def IsOnlyNamed (k : Knowledge) (d : Document) (name : String) : Prop :=
  ∀ (v : Workflow) (d' : Document), k.workflow (.of v.repo v.ref v.path) = some d' →
    d'.isValid = true → (workflowNode d').name = name → d' = d

/-- Names tell workflows apart as long as no colon stands in a repository or a reference. -/
lemma isOnlyNamed_of_plain {c : Source.Cache} {s : Source} (hc : c.ComesAbout s)
    (hd : (c.knowledge s).workflow (.of w.repo w.ref w.path) = some d)
    (hplain : ':' ∉ w.repo.toList ∧ ':' ∉ w.ref.toList)
    (hknown : ∀ (v : Workflow) (d' : Document),
      (c.knowledge s).workflow (.of v.repo v.ref v.path) = some d' →
        ':' ∉ d'.repo.toList ∧ ':' ∉ d'.ref.toList) :
    IsOnlyNamed (c.knowledge s) d w.name := by
  intro v d' hd' _ hname
  obtain ⟨hrepo, href⟩ := hknown v d' hd'
  obtain ⟨h₁, h₂, h₃⟩ : d'.repo = w.repo ∧ d'.ref = w.ref ∧ d'.path = w.path :=
    Graph.documentName_inj hrepo hplain.1 href hplain.2 hname
  have hplace := hc.place_eq hd'
  rw [h₁, h₂, h₃] at hplace
  rw [hplace, hd'] at hd
  exact Option.some.inj hd

/-- The workflows that the definition of a node brings along as read: none, or its own. -/
lemma read_mem_referenceFacts {n m : Node} (h : .node n ∈ referenceFacts k t m)
    (hkind : n.kind = .workflow) (hread : n.isInitialized = true) :
    ∃ (v : Workflow) (d' : Document), k.workflow (.of v.repo v.ref v.path) = some d' ∧
      d'.isValid = true ∧ n = workflowNode d' ∧ referenceFacts k t m = workflowFacts t d' := by
  cases m with
  | workflow v =>
    rw [referenceFacts] at h ⊢
    cases hv : k.workflow (.of v.repo v.ref v.path) with
    | none => simp [hv] at h
    | some d' =>
      rw [hv, Option.map_some, Option.getD_some] at h
      refine ⟨v, d', hv, Graph.isValid_of_mem_workflowFacts h, ?_, rfl⟩
      cases Graph.states_of_mem h with
      | workflow => rfl
      | called _ _ hw => exact absurd hread (by simp [Node.isInitialized,
          Graph.isInitialized_calledWorkflow hw])
      | repo | job _ | step _ _ | used _ _ _ _ => cases hkind
  | action a =>
    obtain ⟨d', hmem⟩ : ∃ d', .node n ∈ Graph.actionFacts t a d' := by
      rw [referenceFacts] at h
      cases hd : (k.action (.of a.repo a.ref a.path)).filter (·.isValid) with
      | none => simp [hd] at h
      | some d' => exact ⟨d', by simpa [hd] using h⟩
    rw [Graph.actionFacts] at hmem
    split at hmem
    · obtain ⟨_, -, hmem⟩ := List.mem_flatMap.mp hmem
      rcases Graph.node_mem_stepFacts hmem with ⟨_, -, rfl⟩ | ⟨_, -, _, -, _, -, rfl⟩
      · cases hkind
      · cases hkind
    · exact absurd hmem List.not_mem_nil
  | repo _ | job _ | step _ => exact absurd h List.not_mem_nil

lemma addAll_referenceFacts (hk : g.IsKeyed) (hi : g.nodes[i]? = some (.workflow w))
    (hunread : w.initialized = false) (honly : IsOnlyNamed k d w.name) (m : Node) :
    (g.addAll (referenceFacts k t m)).nodes[i]? = some (.workflow w) ∨
      (g.addAll (referenceFacts k t m)).nodes[i]? = some (workflowNode d) ∧
        (workflowNode d).name = w.name ∧
        ∀ fact ∈ workflowFacts t d, (g.addAll (referenceFacts k t m)).Holds fact := by
  obtain ⟨n, hn, hf⟩ := (Graph.grows_addAll g (referenceFacts k t m)).nodes i _ hi
  rcases hf.read with rfl | ⟨-, hread⟩
  · exact .inl hn
  · have hnew : .node n ∈ referenceFacts k t m := by
      rcases Graph.mem_nodes_addAll (List.mem_of_getElem? hn) with hold | hnew
      · obtain ⟨i', hi'⟩ := List.mem_iff_getElem?.mp hold
        obtain rfl := hk.eq hi' hi hf.key
        exact absurd ⟨n, hi', hread⟩ (Graph.not_isRead hi hunread)
      · exact hnew
    obtain ⟨v, d', hknown, hvalid, rfl, hfacts⟩ :=
      read_mem_referenceFacts hnew (congrArg Graph.Key.kind hf.key) hread
    have hname : (workflowNode d').name = w.name := congrArg Graph.Key.name hf.key
    obtain rfl := honly v d' hknown hvalid hname
    refine .inr ⟨hn, hname, fun fact hfact => ?_⟩
    rw [hfacts]
    exact Graph.holds_addWorkflow hk hfact

/-- A call has been resolved by a document, which is there in all its facts: the node of the call
has become that of the document, or if the document goes by another name, it counts as read. -/
structure IsAnswered (t : Classification.Tables) (d : Document) (w : Workflow) (i : Nat)
    (g : Graph) : Prop where
  node : g.nodes[i]? = some (if (workflowNode d).name = w.name then workflowNode d
    else (Node.workflow w).asInitialized)
  facts : ∀ fact ∈ workflowFacts t d, g.Holds fact

lemma IsAnswered.of_grows (h : IsAnswered t d w i g) (hg : g.Grows g') (hk : g.IsKeyed) :
    IsAnswered t d w i g' := by
  refine ⟨hg.getElem? h.node ?_, fun fact hf => (h.facts fact hf).of_grows hg (hg.keyed hk)⟩
  split <;> rfl

lemma resolveNode_eq {m : Node} (hj : g.nodes[j]? = some m) :
    resolveNode k t g j = (g.addAll (referenceFacts k t m)).markInitialized j := by
  rw [resolveNode, IndexedGraph.markInitialized_addReference, hj, Option.map_some, Option.getD_some]

section Call

variable (hk : g.IsKeyed) (hi : g.nodes[i]? = some (.workflow w)) (hunread : w.initialized = false)
  (honly : IsOnlyNamed k d w.name)

include hk hi hunread honly

lemma resolveNode_of_ne (hji : j ≠ i) (hj : j < g.nodes.length) :
    (resolveNode k t g j).nodes[i]? = some (.workflow w) ∨
      IsAnswered t d w i (resolveNode k t g j) := by
  have hm := List.getElem?_eq_getElem hj
  rw [resolveNode_eq hm]
  have h := addAll_referenceFacts (t := t) hk hi hunread honly g.nodes[j]
  rcases h with hn | ⟨hn, hname, hfacts⟩
  · exact .inl ((Graph.getElem?_markInitialized_of_ne hji).trans hn)
  · have hanswered : IsAnswered t d w i (g.addAll (referenceFacts k t g.nodes[j])) :=
      ⟨by rw [if_pos hname, hn], hfacts⟩
    exact .inr (hanswered.of_grows (Graph.grows_markInitialized _ j)
      ((Graph.grows_addAll g _).keyed hk))

lemma isAnswered_resolveNode (hd : k.workflow (.of w.repo w.ref w.path) = some d)
    (hvalid : d.isValid = true) : IsAnswered t d w i (resolveNode k t g i) := by
  have hown : referenceFacts k t (.workflow w) = workflowFacts t d := by simp [referenceFacts, hd]
  have h := addAll_referenceFacts (t := t) hk hi hunread honly (.workflow w)
  rw [resolveNode_eq hi]
  rw [hown] at h ⊢
  have hk' : (g.addAll (workflowFacts t d)).IsKeyed := (Graph.grows_addAll g _).keyed hk
  have hfacts : ∀ fact ∈ workflowFacts t d, (g.addAll (workflowFacts t d)).Holds fact :=
    fun _ hfact => Graph.holds_addWorkflow hk hfact
  have hmark := Graph.grows_markInitialized (g.addAll (workflowFacts t d)) i
  rcases h with hn | ⟨hn, hname, -⟩
  · -- Had the document the name of the node, it would have taken its place.
    have hne : (workflowNode d).name ≠ w.name := by
      intro hname
      obtain ⟨i', m, hm, hkey, hread⟩ := hfacts _ (Graph.workflowNode_mem_workflowFacts hvalid)
      obtain rfl := hk'.eq hm hn (hkey.trans (congrArg (Graph.Key.mk .workflow) hname))
      exact absurd ⟨m, hm, hread rfl⟩ (Graph.not_isRead hn hunread)
    refine ⟨?_, fun fact hfact => (hfacts fact hfact).of_grows hmark (hmark.keyed hk')⟩
    rw [if_neg hne]
    simp [Graph.markInitialized, hn]
  · have hanswered : IsAnswered t d w i (g.addAll (workflowFacts t d)) :=
      ⟨by rw [if_pos hname, hn], hfacts⟩
    exact hanswered.of_grows hmark hk'

lemma isAnswered_foldl_resolveNode (hd : k.workflow (.of w.repo w.ref w.path) = some d)
    (hvalid : d.isValid = true) {is : List Nat} (his : ∀ j ∈ is, j < g.nodes.length)
    (hmem : i ∈ is) : IsAnswered t d w i (is.foldl (resolveNode k t) g) := by
  -- The call waits for its turn unread, unless an earlier node brings its document along.
  induction is generalizing g with
  | nil => exact absurd hmem List.not_mem_nil
  | cons j is ih =>
    have hg := grows_resolveNode k t g j
    have hrest := grows_foldl_resolveNode k t is (resolveNode k t g j)
    rw [List.foldl_cons]
    by_cases hji : j = i
    · subst hji
      exact (isAnswered_resolveNode hk hi hunread honly hd hvalid).of_grows hrest (hg.keyed hk)
    · have hstep := resolveNode_of_ne (t := t) hk hi hunread honly hji (his j (by simp))
      rcases hstep with hn | hanswered
      · exact ih (hg.keyed hk) hn
          (fun j' hj' => lt_of_lt_of_le (his j' (List.mem_cons_of_mem _ hj')) hg.length_le)
          (List.mem_of_ne_of_mem (Ne.symm hji) hmem)
      · exact hanswered.of_grows hrest (hg.keyed hk)

lemma isAnswered_resolve (hled : g.LeadsTo entries i)
    (hd : k.workflow (.of w.repo w.ref w.path) = some d) (hvalid : d.isValid = true) :
    IsAnswered t d w i (resolve k t entries g) := by
  have hpending : i ∈ pending g entries := mem_pending hled (Graph.not_isRead hi hunread)
  have hnodes : ∀ j ∈ pending g entries, j < g.nodes.length := fun j hj =>
    List.mem_range.mp (List.mem_filter.mp (List.mem_filter.mp hj).1).1
  have hround : IsAnswered t d w i (resolveRound k t entries g) :=
    isAnswered_foldl_resolveNode hk hi hunread honly hd hvalid hnodes hpending
  have hfirst : (resolveRound k t entries g).Grows (resolve k t entries g) :=
    grows_resolve_of_le (n := 1) (by decide)
  exact hround.of_grows hfirst ((grows_foldl_resolveNode k t _ g).keyed hk)

end Call

end Audit

namespace IndexedGraph

open Source (Cache DocumentKey LocalFiles)
open WorkflowAudit.Graph (Node Workflow WaitsFor jobNode workflowNode)

variable {c : Cache} {s : Source} {t : Classification.Tables} {d : Document} {w : Workflow}
  {entries : List Nat} {i : Nat}

/-- What a call comes to that is answered by a document, the only one of its name. The document lies
where the call says, and it comes in with ways from its own node to all of its jobs. That node is
the call's just in case the document spells its path as the call does; if not, the call is left
empty. An answer of the source spells its path without any `./` in front. -/
theorem called_workflow_resolved (os : List Operation) (hc : c.ComesAbout s)
    (hi : (ofOperations os).nodes[i]? = some (.workflow w)) (hunread : w.initialized = false)
    (hled : (ofOperations os).LeadsTo entries i)
    (hd : (c.knowledge s).workflow (.of w.repo w.ref w.path) = some d) (hvalid : d.isValid = true)
    (honly : Audit.IsOnlyNamed (c.knowledge s) d w.name) :
    let x := (ofOperations os).resolve (c.knowledge s) t entries
    DocumentKey.of d.repo d.ref d.path = .of w.repo w.ref w.path ∧
      (c.holds (.workflow (.of w.repo w.ref w.path)) = false → d.path = Source.plainPath w.path) ∧
      x.nodes[i]? = some (if d.path = w.path then workflowNode d
        else (Node.workflow w).asInitialized) ∧
      ∃ i', x.number? (workflowNode d).key = some i' ∧ (i' = i ↔ d.path = w.path) ∧
        ((∀ name, ¬ WaitsFor d name name) → ∀ j ∈ d.jobs, ∃ y,
          x.number? (jobNode d j).key = some y ∧
            Relation.ReflTransGen (fun a b => b ∈ x.successors a) i' y) := by
  intro x
  have hx := represents_ofOperations os
  have hx' : x.Represents (Audit.resolve (c.knowledge s) t entries _) :=
    hx.resolveRounds (c.knowledge s) t entries Audit.maxDepth
  have hplace := hc.place_eq hd
  obtain ⟨hrepo, href, -⟩ := DocumentKey.mk.inj hplace
  have hname : (workflowNode d).name = w.name ↔ d.path = w.path := by
    change Graph.documentName d.repo d.ref d.path = Graph.documentName w.repo w.ref w.path ↔ _
    rw [hrepo, href]
    exact Graph.jobName_inj
  rw [hx.graph] at hi hled
  obtain ⟨hnode, hfacts⟩ : Audit.IsAnswered t d w i x.toGraph := by
    rw [hx'.graph]
    exact Audit.isAnswered_resolve (hx.graph ▸ hx.indexed.keyed) hi hunread honly hled hd hvalid
  simp only [hname] at hnode
  have hk := hx'.indexed.keyed
  obtain ⟨i', n, hn, hkey, -⟩ := hfacts _ (Graph.workflowNode_mem_workflowFacts hvalid)
  have hnumber : x.toGraph.number? (workflowNode d).key = some i' := hkey ▸ hk.number? hn
  refine ⟨hplace, fun hnew => (Cache.path_of_not_holds hd hnew).2.2, hnode, i', ?_, ?_, ?_⟩
  · rw [hx'.indexed.number?_eq, hnumber]
  · constructor
    · rintro rfl
      by_contra hpath
      rw [if_neg hpath] at hnode
      obtain rfl := Option.some.inj (hn.symm.trans hnode)
      exact hpath (hname.mp (congrArg Graph.Key.name hkey).symm)
    · intro hpath
      rw [if_pos hpath] at hnode
      exact hk.eq hn hnode hkey
  · intro hacyclic j hj
    obtain ⟨y, hy, hway⟩ := Graph.exists_way_to_job hk hfacts hacyclic hnumber hj
    exact ⟨y, by rw [hx'.indexed.number?_eq, hy], hway⟩

/-- A workflow whose only job calls another one. -/
def calling (uses : String) : Document :=
  Document.parse ("on: push\njobs:\n  call:\n    uses: " ++ uses ++ "\n") "o/r" "HEAD" "ci.yml"

def library : Document :=
  Document.parse "on: workflow_call\njobs:\n  build:\n    steps:\n    - run: make\n" "o/r" "HEAD"
    "lib.yml"

/-- The caller comes in alone: it is node 1 then, and the call is node 3. -/
def callerAlone (uses : String) : List Operation := [.addWorkflow .default (calling uses)]

def libraryCache : Cache := Cache.empty.insertWorkflow library

lemma workflow_libraryCache {key : DocumentKey} :
    (libraryCache.knowledge LocalFiles.empty.toSource).workflow key = some d ↔
      key = ⟨"o/r", "HEAD", "lib.yml"⟩ ∧ d = library := by
  have hkey : DocumentKey.of library.repo library.ref library.path =
      ⟨"o/r", "HEAD", "lib.yml"⟩ := by
    decide +kernel
  have hlookup : (libraryCache.knowledge LocalFiles.empty.toSource).workflow key =
      ((if key = ⟨"o/r", "HEAD", "lib.yml"⟩ then some (some library) else none).getD none) := by
    rw [← hkey]
    change ((List.lookup key [(_, some library)]).getD none) = _
    rw [List.lookup_cons, List.lookup_nil]
    by_cases h : key = .of library.repo library.ref library.path
    · simp [h]
    · simp [h, beq_eq_false_iff_ne.mpr h]
  rw [hlookup]
  split <;> simp [*, eq_comm]

lemma library_acyclic (name : String) : ¬ WaitsFor library name name := by
  have hneeds : ∀ j ∈ library.jobs, j.needs = [] := by decide +kernel
  intro h
  obtain ⟨need, ⟨j, hj, -, hneed⟩, -⟩ := Relation.TransGen.head'_iff.mp h
  simp [Graph.knownNeeds, hneeds j hj] at hneed

lemma leadsTo_call {g : Graph} (hnodes : g.nodes.length = 4)
    (hedges : [⟨1, 2, .contains⟩, ⟨2, 3, .uses⟩] ⊆ g.edges) : g.LeadsTo [1] 3 := by
  have hjob : (⟨1, 2, .contains⟩ : Graph.Edge) ∈ g.edges := hedges (by simp)
  have hcall : (⟨2, 3, .uses⟩ : Graph.Edge) ∈ g.edges := hedges (by simp)
  have hstart : g.LeadsTo [1] 1 := .start (by simp) (by omega)
  exact .edge (.edge hstart hjob (by omega)) hcall (by omega)

lemma toGraph_callerAlone (uses : String) :
    (ofOperations (callerAlone uses)).toGraph =
      Graph.empty.addWorkflow .default (calling uses) := by
  rw [(represents_ofOperations _).graph, callerAlone, List.foldl_cons, List.foldl_nil,
    Graph.perform]

theorem library_call_resolved :
    let w := Workflow.called "o/r" "HEAD" "lib.yml"
    let k := libraryCache.knowledge LocalFiles.empty.toSource
    let x := ofOperations (callerAlone "./lib.yml")
    let x' := x.resolve k .default [1]
    libraryCache.ComesAbout LocalFiles.empty.toSource ∧ x.nodes[3]? = some (.workflow w) ∧
      x.LeadsTo [1] 3 ∧ k.workflow (.of w.repo w.ref w.path) = some library ∧
      library.isValid = true ∧ Audit.IsOnlyNamed k library w.name ∧
      (∀ name, ¬ WaitsFor library name name) ∧ x'.nodes[3]? = some (workflowNode library) ∧
      ∀ j ∈ library.jobs, ∃ y, x'.number? (jobNode library j).key = some y ∧
        Relation.ReflTransGen (fun a b => b ∈ x'.successors a) 3 y := by
  obtain ⟨hcall, hlength, hedges⟩ :
      (ofOperations (callerAlone "./lib.yml")).nodes[3]? =
          some (.workflow (.called "o/r" "HEAD" "lib.yml")) ∧
        (ofOperations (callerAlone "./lib.yml")).nodes.length = 4 ∧
        [⟨1, 2, .contains⟩, ⟨2, 3, .uses⟩] ⊆ (ofOperations (callerAlone "./lib.yml")).edges := by
    rw [toGraph_callerAlone]
    decide +kernel
  obtain ⟨hvalid, hpath⟩ : library.isValid = true ∧
      library.path = (Workflow.called "o/r" "HEAD" "lib.yml").path := by
    decide +kernel
  have hled := leadsTo_call hlength hedges
  have hc : libraryCache.ComesAbout LocalFiles.empty.toSource := .insertWorkflow library .empty
  have hknown : (libraryCache.knowledge LocalFiles.empty.toSource).workflow
      (.of "o/r" "HEAD" "lib.yml") = some library :=
    workflow_libraryCache.mpr ⟨by decide +kernel, rfl⟩
  have honly : Audit.IsOnlyNamed (libraryCache.knowledge LocalFiles.empty.toSource) library
      (Workflow.called "o/r" "HEAD" "lib.yml").name := by
    refine Audit.isOnlyNamed_of_plain hc hknown (by decide +kernel) fun v d' hd' => ?_
    obtain ⟨-, rfl⟩ := workflow_libraryCache.mp hd'
    decide +kernel
  obtain ⟨-, -, hnode, i', -, hown, hjobs⟩ :=
    called_workflow_resolved (t := .default) _ hc hcall rfl hled hknown hvalid honly
  rw [if_pos hpath] at hnode
  obtain rfl := hown.mpr hpath
  exact ⟨hc, hcall, hled, hknown, hvalid, honly, library_acyclic, hnode, hjobs library_acyclic⟩

/-- A second `./` in the call is enough: the library is found, and the call never gets to see it. -/
theorem library_call_missed :
    let w := Workflow.called "o/r" "HEAD" "./lib.yml"
    let k := libraryCache.knowledge LocalFiles.empty.toSource
    let x := ofOperations (callerAlone "././lib.yml")
    let x' := x.resolve k .default [1]
    x.nodes[3]? = some (.workflow w) ∧ x.LeadsTo [1] 3 ∧
      k.workflow (.of w.repo w.ref w.path) = some library ∧ library.isValid = true ∧
      library.triggers = ["workflow_call"] ∧ (∀ name, ¬ WaitsFor library name name) ∧
      x'.nodes[3]? = some (Node.workflow w).asInitialized ∧
      ∃ j ∈ library.jobs, ∀ y, x'.number? (jobNode library j).key = some y →
        ¬ Relation.ReflTransGen (fun a b => b ∈ x'.successors a) 3 y := by
  obtain ⟨hcall, hlength, hedges⟩ :
      (ofOperations (callerAlone "././lib.yml")).nodes[3]? =
          some (.workflow (.called "o/r" "HEAD" "./lib.yml")) ∧
        (ofOperations (callerAlone "././lib.yml")).nodes.length = 4 ∧
        [⟨1, 2, .contains⟩, ⟨2, 3, .uses⟩] ⊆ (ofOperations (callerAlone "././lib.yml")).edges := by
    rw [toGraph_callerAlone]
    decide +kernel
  obtain ⟨hvalid, htriggers, hjobs⟩ : library.isValid = true ∧
      library.triggers = ["workflow_call"] ∧ 0 < library.jobs.length := by
    decide +kernel
  have hknown : (libraryCache.knowledge LocalFiles.empty.toSource).workflow
      (.of "o/r" "HEAD" "./lib.yml") = some library :=
    workflow_libraryCache.mpr ⟨by decide +kernel, rfl⟩
  have h := represents_ofOperations (callerAlone "././lib.yml")
  have h' : ((ofOperations (callerAlone "././lib.yml")).resolve
      (libraryCache.knowledge LocalFiles.empty.toSource) .default [1]).Represents
        (Audit.resolve (libraryCache.knowledge LocalFiles.empty.toSource) .default [1] _) :=
    h.resolveRounds _ .default [1] Audit.maxDepth
  obtain ⟨hnode, hend⟩ :
      (Audit.resolve (libraryCache.knowledge LocalFiles.empty.toSource) .default [1]
          (Graph.empty.addWorkflow .default (calling "././lib.yml"))).nodes[3]? =
          some (Node.workflow (.called "o/r" "HEAD" "./lib.yml")).asInitialized ∧
        (Audit.resolve (libraryCache.knowledge LocalFiles.empty.toSource) .default [1]
          (Graph.empty.addWorkflow .default (calling "././lib.yml"))).successors 3 = [] := by
    decide +kernel
  rw [← toGraph_callerAlone, h.graph, ← h'.graph] at hnode hend
  refine ⟨hcall, leadsTo_call hlength hedges, hknown, hvalid, htriggers, library_acyclic, hnode, _,
    List.getElem_mem hjobs, fun y hy hway => ?_⟩
  rcases hway.cases_head with rfl | ⟨z, hz, -⟩
  · obtain ⟨n, hn, hkey⟩ := h'.indexed.number?_eq_some_iff.mp hy
    obtain rfl := Option.some.inj (hn.symm.trans hnode)
    cases congrArg Graph.Key.kind hkey
  · exact absurd (hend ▸ hz) List.not_mem_nil

end IndexedGraph

end WorkflowAudit
