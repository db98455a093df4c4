import WorkflowAudit.Proofs.Graph.IngestionOrder
import WorkflowAudit.Proofs.Graph.Rebuilding

/-! Which actions are left to be read once documents have come in. Whether an action has to be read
is asked at every reference to it, and one reference that answers no settles it for all of them. -/

namespace WorkflowAudit

namespace Graph

/-- A clause that leads to an action of the same owner that is not known to be safe. -/
def IsOwnUse (t : Classification.Tables) (repo : String) : Uses → Prop
  | .localPath _ => True
  | .repository u => Text.sameIgnoringCase u.owner (ownerOf repo) = true ∧
      ∀ p ∈ t.safeActions, p.accepts u = false
  | .docker _ => False

/-- A step of a document uses an action, by a clause of some kind. -/
def RefersTo (t : Classification.Tables) (d : Document) (P : Uses → Prop) (a : Action) : Prop :=
  ∃ j ∈ d.jobs, ∃ s ∈ j.steps, ∃ uses ∈ s.uses,
    (∃ u ∈ Uses.parse? uses, P u) ∧ usedAction t d.repo d.ref uses = some a

variable {t : Classification.Tables} {d : Document} {ds : List Document} {a : Action}

lemma initialized_usedAction_iff {repo ref uses : String}
    (h : usedAction t repo ref uses = some a) :
    a.initialized = false ↔ ∃ u ∈ Uses.parse? uses, IsOwnUse t repo u := by
  rw [usedAction] at h
  split at h
  · next path hparse =>
    obtain rfl := Option.some.inj h
    simp [hparse, IsOwnUse]
  · next u hparse =>
    obtain rfl := Option.some.inj h
    simp [hparse, IsOwnUse, UsesPattern.acceptedByAny]
  · exact absurd h (by simp)

lemma exists_parse?_of_usedAction {repo ref uses : String}
    (h : usedAction t repo ref uses = some a) : ∃ u, Uses.parse? uses = some u := by
  rw [usedAction] at h
  split at h
  · next path hparse => exact ⟨_, hparse⟩
  · next u hparse => exact ⟨_, hparse⟩
  · exact absurd h (by simp)

lemma refersTo_other_iff :
    RefersTo t d (fun u => ¬ IsOwnUse t d.repo u) a ↔
      RefersTo t d (fun _ => True) a ∧ a.initialized = true := by
  constructor
  · rintro ⟨j, hj, s, hs, uses, huses, ⟨u, hu, hother⟩, ha⟩
    refine ⟨⟨j, hj, s, hs, uses, huses, ⟨u, hu, trivial⟩, ha⟩, ?_⟩
    rw [← Bool.not_eq_false, initialized_usedAction_iff ha]
    rintro ⟨u', hu', hown⟩
    exact hother (Option.mem_unique hu hu' ▸ hown)
  · rintro ⟨⟨j, hj, s, hs, uses, huses, ⟨u, hu, -⟩, ha⟩, hread⟩
    refine ⟨j, hj, s, hs, uses, huses, ⟨u, hu, fun hown => ?_⟩, ha⟩
    have hunread := (initialized_usedAction_iff ha).mpr ⟨u, hu, hown⟩
    exact absurd (hread.symm.trans hunread) (by simp)

lemma used_mem_stepFacts {parent : Parent} {previous : Option Key} {steps : List Document.Step}
    {s : Document.Step} {uses : String} (hs : s ∈ steps) (hu : uses ∈ s.uses)
    (ha : usedAction t parent.repo parent.ref uses = some a) :
    .node (.action a) ∈ stepFacts t parent previous steps := by
  obtain ⟨xs, ys, rfl⟩ := List.append_of_mem hs
  rw [stepFacts_append, stepFacts, Option.mem_def.mp hu, Option.bind_some, ha]
  simp [usedFacts]

lemma RefersTo.mem_workflowFacts {P : Uses → Prop} (h : RefersTo t d P a) :
    .node (.action a) ∈ workflowFacts t d := by
  obtain ⟨j, hj, s, hs, uses, hu, -, ha⟩ := h
  exact mem_workflowFacts_of_job hj (List.mem_append_right _ (used_mem_stepFacts hs hu ha))

lemma refersTo_of_mem_workflowFacts (h : .node (.action a) ∈ workflowFacts t d) :
    RefersTo t d (fun _ => True) a := by
  cases states_of_mem h with
  | used hj hs hu ha =>
    obtain ⟨u, hparse⟩ := exists_parse?_of_usedAction ha
    exact ⟨_, hj, _, hs, _, hu, ⟨u, hparse, trivial⟩, ha⟩

lemma eq_action_of_key {n : Node} (h : n.key = (Node.action a).key) :
    ∃ b : Action, n = .action b ∧ b.name = a.name := by
  cases n with
  | action b => exact ⟨b, rfl, congrArg Key.name h⟩
  | repo _ | workflow _ | job _ | step _ => cases congrArg Key.kind h

lemma mem_tags_action_iff :
    Node.uninitializedTag ∈ (Node.action a).tags ↔ a.initialized = false := by
  have hkind : Node.uninitializedTag ≠ Kind.action.tag := by decide
  cases h : a.initialized <;>
    simp [Node.tags, Text.mem_ascending, Node.isInitialized, Node.ownTags, Node.kind, h, hkind]

lemma holds_ofDocuments {fact : Fact} (hd : d ∈ ds) (hf : fact ∈ workflowFacts t d) :
    (ofDocuments t ds).Holds fact := by
  rw [ofDocuments_eq]
  exact holds_addAll isKeyed_empty (isGrounded_flatMap_workflowFacts t ds) (by simp)
    (List.mem_flatMap.mpr ⟨d, hd, hf⟩)

lemma exists_of_mem_ofDocuments {n : Node} (h : n ∈ (ofDocuments t ds).nodes) :
    ∃ d ∈ ds, .node n ∈ workflowFacts t d := by
  rw [ofDocuments_eq] at h
  rcases mem_nodes_addAll h with h | h
  · exact absurd h List.not_mem_nil
  · exact List.mem_flatMap.mp h

/-- An action that documents refer to has one node, which has been read just in case one of them
refers to it by another clause than its own owner's. -/
lemma exists_action_of_refersTo {P : Uses → Prop} (hd : d ∈ ds) (h : RefersTo t d P a) :
    ∃ (i : Nat) (b : Action), (ofDocuments t ds).nodes[i]? = some (.action b) ∧ b.name = a.name ∧
      (b.initialized = true ↔ ∃ d' ∈ ds, ∃ a' : Action, a'.name = a.name ∧
        RefersTo t d' (fun u => ¬ IsOwnUse t d'.repo u) a') := by
  have hk : (ofDocuments t ds).IsKeyed := by
    rw [ofDocuments_eq]
    exact (grows_addAll empty _).keyed isKeyed_empty
  obtain ⟨i, n, hn, hkey, -⟩ := holds_ofDocuments hd h.mem_workflowFacts
  obtain ⟨b, rfl, hname⟩ := eq_action_of_key hkey
  refine ⟨i, b, hn, hname, fun hread => ?_, ?_⟩
  · obtain ⟨d', hd', hf⟩ := exists_of_mem_ofDocuments (List.mem_of_getElem? hn)
    exact ⟨d', hd', b, hname, refersTo_other_iff.mpr ⟨refersTo_of_mem_workflowFacts hf, hread⟩⟩
  · rintro ⟨d', hd', a', hname', hother⟩
    obtain ⟨i', n', hn', hkey', hread⟩ := holds_ofDocuments hd' hother.mem_workflowFacts
    -- Another reference to the name leads to the same node.
    have hsame : n'.key = (Node.action b).key := by
      rw [hkey', hkey]
      exact congrArg (Key.mk .action) hname'
    obtain rfl := hk.eq hn' hn hsame
    obtain rfl := Option.some.inj (hn'.symm.trans hn)
    exact hread (refersTo_other_iff.mp hother).2

end Graph

namespace IndexedGraph

open WorkflowAudit.Graph (Action Node IsOwnUse RefersTo)

variable {t : Classification.Tables} {d : Document} {ds : List Document} {a : Action}

lemma IsIndexed.mem_tagged_action_iff {x : IndexedGraph} {i : Nat} (h : x.IsIndexed)
    (hi : x.nodes[i]? = some (.action a)) :
    i ∈ x.tagged [Node.uninitializedTag] ↔ a.initialized = false := by
  rw [h.mem_tagged, ← Graph.mem_tags_action_iff]
  constructor
  · rintro ⟨n, hn, tag, htag, hmem⟩
    obtain rfl := Option.some.inj (hi.symm.trans hn)
    exact List.mem_singleton.mp htag ▸ hmem
  · exact fun hmem => ⟨_, hi, _, List.mem_singleton.mpr rfl, hmem⟩

/-- An action that a document of its owner uses, and that is not known to be safe, is left to be
read just in case every document that uses it is of its owner. -/
theorem own_action_left_iff (hd : d ∈ ds) (h : RefersTo t d (IsOwnUse t d.repo) a) :
    let x := ofDocuments t ds
    ∃ (i : Nat) (b : Action), x.number? (Node.action a).key = some i ∧
      x.nodes[i]? = some (.action b) ∧ b.name = a.name ∧
      (b.initialized = false ∧ i ∈ x.tagged [Node.uninitializedTag] ↔
        ∀ d' ∈ ds, ∀ a' : Action, a'.name = a.name →
          ¬ RefersTo t d' (fun u => ¬ IsOwnUse t d'.repo u) a') := by
  intro x
  have hx := represents_ofDocuments t ds
  obtain ⟨i, b, hb, hname, hread⟩ := Graph.exists_action_of_refersTo hd h
  rw [← hx.graph] at hb
  refine ⟨i, b, ?_, hb, hname, ?_⟩
  · exact hx.indexed.number?_eq_some_iff.mpr ⟨_, hb, congrArg (Graph.Key.mk .action) hname⟩
  · rw [hx.indexed.mem_tagged_action_iff hb, and_self, ← Bool.not_eq_true, hread]
    push Not
    rfl

instance (t : Classification.Tables) (repo : String) : DecidablePred (IsOwnUse t repo)
  | .localPath _ => inferInstanceAs (Decidable True)
  | .repository u => inferInstanceAs (Decidable (Text.sameIgnoringCase u.owner _ = true ∧
      ∀ p ∈ t.safeActions, p.accepts u = false))
  | .docker _ => inferInstanceAs (Decidable False)

instance (t : Classification.Tables) (d : Document) (P : Uses → Prop) [DecidablePred P]
    (a : Action) : Decidable (RefersTo t d P a) :=
  inferInstanceAs (Decidable (∃ j ∈ d.jobs, ∃ s ∈ j.steps, ∃ uses ∈ s.uses,
    (∃ u ∈ Uses.parse? uses, P u) ∧ Graph.usedAction t d.repo d.ref uses = some a))

def workflowUsing (repo uses : String) : Document :=
  Document.parse ("on: push\njobs:\n  build:\n    steps:\n    - uses: " ++ uses ++ "\n") repo
    "HEAD" "ci.yml"

/-- The action in the directory `tool` of the repository `o/r`, as its owner refers to it. -/
def tool : Action := ⟨"o/r", "HEAD", "tool", false⟩

/-- Two workflows of one owner, the name of which they spell differently, that use it. -/
def toolUsers : List Document := [workflowUsing "o/r" "./tool", workflowUsing "O/app" "o/r/tool"]

theorem tool_left_by_its_owner :
    (∃ d ∈ toolUsers, RefersTo .default d (IsOwnUse .default d.repo) tool) ∧
      (∀ d ∈ toolUsers, ∀ a, ¬ RefersTo .default d (fun u => ¬ IsOwnUse .default d.repo u) a) ∧
      ∃ (i : Nat) (b : Action), (ofDocuments .default toolUsers).nodes[i]? = some (.action b) ∧
        b.name = tool.name ∧ b.initialized = false ∧
        i ∈ (ofDocuments .default toolUsers).tagged [Node.uninitializedTag] := by
  obtain ⟨d, hd, hrefers⟩ :
      ∃ d ∈ toolUsers, RefersTo .default d (IsOwnUse .default d.repo) tool := by
    decide +kernel
  have hown : ∀ d ∈ toolUsers, ∀ j ∈ d.jobs, ∀ s ∈ j.steps, ∀ uses ∈ s.uses,
      ∀ u ∈ Uses.parse? uses, IsOwnUse .default d.repo u := by
    decide +kernel
  have hnone : ∀ d ∈ toolUsers, ∀ a,
      ¬ RefersTo .default d (fun u => ¬ IsOwnUse .default d.repo u) a := by
    rintro d hd a ⟨j, hj, s, hs, uses, huses, ⟨u, hu, hother⟩, -⟩
    exact hother (hown d hd j hj s hs uses huses u hu)
  obtain ⟨i, b, -, hb, hname, hleft⟩ := own_action_left_iff hd hrefers
  obtain ⟨hunread, htagged⟩ := hleft.mpr fun d' hd' a _ => hnone d' hd' a
  exact ⟨⟨d, hd, hrefers⟩, hnone, i, b, hb, hname, hunread, htagged⟩

/-- The action counts as read as soon as another owner uses it as well. -/
theorem own_action_taken_as_read :
    let ds := [workflowUsing "o/r" "./tool", workflowUsing "p/q" "o/r/tool"]
    (∃ d ∈ ds, RefersTo .default d (IsOwnUse .default d.repo) tool) ∧
      ∃ (i : Nat) (b : Action), (ofDocuments .default ds).nodes[i]? = some (.action b) ∧
        b.name = tool.name ∧ b.initialized = true ∧
        i ∉ (ofDocuments .default ds).tagged [Node.uninitializedTag] := by
  intro ds
  obtain ⟨d, hd, hown⟩ : ∃ d ∈ ds, RefersTo .default d (IsOwnUse .default d.repo) tool := by
    decide +kernel
  obtain ⟨d', hd', hother⟩ : ∃ d ∈ ds, RefersTo .default d (fun u => ¬ IsOwnUse .default d.repo u)
      ⟨"o/r", "HEAD", "tool", true⟩ := by
    decide +kernel
  have hx := represents_ofDocuments .default ds
  obtain ⟨i, b, hb, hname, hread⟩ := Graph.exists_action_of_refersTo hd hown
  have hinitialized : b.initialized = true := hread.mpr ⟨d', hd', _, by rfl, hother⟩
  rw [← hx.graph] at hb
  refine ⟨⟨d, hd, hown⟩, i, b, hb, hname, hinitialized, ?_⟩
  rw [hx.indexed.mem_tagged_action_iff hb, hinitialized]
  exact Bool.true_eq_false_eq_False

end IndexedGraph

end WorkflowAudit
