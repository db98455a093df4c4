import WorkflowAudit.Proofs.Audit.CalledWorkflows
import WorkflowAudit.Proofs.Graph.StepOrder

/-! Once a workflow has come in, the search gets from it to all that its document speaks of: down
the needs of its jobs, along their steps, and into what these use. -/

namespace WorkflowAudit

namespace Graph

/-- The search gets from a node to that of a key, if no conditions and gates stand in the way. -/
def Reaches (g : Graph) (i : Nat) (key : Key) : Prop :=
  ∃ y, g.number? key = some y ∧ Relation.ReflTransGen (fun a b => b ∈ g.successors a) i y

/-- A graph states all of a document, and knows its steps by their places. -/
structure Carries (g : Graph) (t : Classification.Tables) (d : Document) : Prop where
  keyed : g.IsKeyed
  named : ∀ s, .step s ∈ g.nodes → s.IsNamed
  facts : ∀ fact ∈ workflowFacts t d, g.Holds fact

variable {g : Graph} {t : Classification.Tables} {d : Document} {j : Document.Job} {a b : Key}
  {r : Relation} {i k : Nat}

lemma Reaches.tail (h : g.Reaches i a) (hc : g.Carries t d) (hl : g.Links a b r)
    (hfirst : r = .contains → ∃ parent, b = stepKey parent 0) : g.Reaches i b := by
  obtain ⟨x, hx, hway⟩ := h
  have ⟨_, y, _, hy, _⟩ := hl
  obtain ⟨n, hn, rfl⟩ := exists_of_number? hx
  obtain ⟨m, hm, rfl⟩ := exists_of_number? hy
  refine ⟨y, hy, hway.tail (mem_successors_of_links hc.keyed hl hn hm ?_)⟩
  rintro s rfl hr
  obtain ⟨parent, hkey⟩ := hfirst hr
  exact (hc.named s (List.mem_of_getElem? hm)).index_eq (congrArg Key.name hkey)

/-- From a job the search gets to each of its steps through the steps before it. -/
lemma reaches_step (hc : g.Carries t d) (hd : d.IsNumbered) (hj : j ∈ d.jobs)
    (h : g.Reaches i (jobNode d j).key) (hlt : k < j.steps.length) :
    g.Reaches i (stepKey (jobNode d j).name k) := by
  have hlists : Lists (.ofJob d j) j.steps := ⟨rfl, rfl, hd j hj⟩
  have hlinks {a b : Key} {r : Relation}
      (he : .edge a b r ∈ stepFacts t (.ofJob d j) none j.steps) : g.Links a b r :=
    hc.facts (.edge a b r) (mem_workflowFacts_of_job hj (List.mem_append_right _ he))
  induction k with
  | zero =>
    have hfirst := (hlists.edge_iff (t := t) rfl).mpr (Or.inl ⟨rfl, rfl, 0, hlt, rfl⟩)
    exact h.tail hc (hlinks hfirst) fun _ => ⟨_, rfl⟩
  | succ k ih =>
    have hnext := (hlists.edge_iff (t := t) rfl).mpr (Or.inr ⟨rfl, k, hlt, rfl, rfl⟩)
    exact (ih (Nat.lt_of_succ_lt hlt)).tail hc (hlinks hnext) (by simp)

lemma uses_mem_stepFacts {parent : Parent} {previous : Option Key} {steps : List Document.Step}
    {s : Document.Step} {uses : String} {action : Action} (hs : s ∈ steps) (hu : uses ∈ s.uses)
    (ha : usedAction t parent.repo parent.ref uses = some action) :
    .edge (stepNode t parent s).key (Node.action action).key .uses ∈
      stepFacts t parent previous steps := by
  obtain ⟨xs, ys, rfl⟩ := List.append_of_mem hs
  rw [stepFacts_append, stepFacts, Option.mem_def.mp hu, Option.bind_some, ha]
  simp [usedFacts, stepNode]

lemma uses_mem_jobFacts {uses : String} {w : Workflow} (hu : uses ∈ j.uses)
    (hw : calledWorkflow d uses = some w) :
    .edge (jobNode d j).key (Node.workflow w).key .uses ∈ jobFacts t d j := by
  rw [jobFacts_eq, ownFacts, Option.mem_def.mp hu, Option.bind_some, hw]
  simp [usedFacts]

/-- The name of the workflow that a job calls by a clause. -/
def calleeName (d : Document) : Uses → Option String
  | .localPath path => some (documentName d.repo d.ref path)
  | .repository u => u.subpath.map fun path => documentName u.slug (u.ref.getD defaultRef) path
  | .docker _ => none

/-- The name of the action that a step uses by a clause. -/
def actionName (d : Document) : Uses → Option String
  | .localPath path => some (documentName d.repo d.ref path)
  | .repository u => some (documentName u.slug (u.ref.getD defaultRef) (u.subpath.getD ""))
  | .docker _ => none

lemma exists_calledWorkflow {uses name : String} {u : Uses} (hu : u ∈ Uses.parse? uses)
    (hname : name ∈ calleeName d u) :
    ∃ w : Workflow, calledWorkflow d uses = some w ∧ w.name = name := by
  rw [calledWorkflow, Option.mem_def.mp hu]
  cases u with
  | localPath path => exact ⟨_, rfl, Option.some.inj hname⟩
  | repository u =>
    obtain ⟨path, hpath, hname⟩ := Option.map_eq_some_iff.mp hname
    exact ⟨.called u.slug (u.ref.getD defaultRef) path, by simp [hpath], hname⟩
  | docker image => cases hname

lemma exists_usedAction {uses name : String} {u : Uses} (hu : u ∈ Uses.parse? uses)
    (hname : name ∈ actionName d u) :
    ∃ action : Action, usedAction t d.repo d.ref uses = some action ∧ action.name = name := by
  rw [usedAction, Option.mem_def.mp hu]
  cases u with
  | localPath path => exact ⟨_, rfl, Option.some.inj hname⟩
  | repository u => exact ⟨_, rfl, Option.some.inj hname⟩
  | docker image => cases hname

/-- From a job the search gets to the workflow that it calls. -/
lemma reaches_callee (hc : g.Carries t d) (hj : j ∈ d.jobs) (h : g.Reaches i (jobNode d j).key)
    {uses name : String} {u : Uses} (huses : uses ∈ j.uses) (hu : u ∈ Uses.parse? uses)
    (hname : name ∈ calleeName d u) : g.Reaches i ⟨.workflow, name⟩ := by
  obtain ⟨w, hw, rfl⟩ := exists_calledWorkflow hu hname
  have hl : g.Links (jobNode d j).key (Node.workflow w).key .uses :=
    hc.facts (.edge _ _ _) (mem_workflowFacts_of_job hj (uses_mem_jobFacts huses hw))
  exact h.tail hc hl (by simp)

/-- From a step the search gets to the action that it uses. -/
lemma reaches_action (hc : g.Carries t d) (hj : j ∈ d.jobs) {s : Document.Step} (hs : s ∈ j.steps)
    (h : g.Reaches i (stepKey (jobNode d j).name s.index)) {uses name : String} {u : Uses}
    (huses : uses ∈ s.uses) (hu : u ∈ Uses.parse? uses) (hname : name ∈ actionName d u) :
    g.Reaches i ⟨.action, name⟩ := by
  obtain ⟨action, ha, rfl⟩ := exists_usedAction (t := t) hu hname
  have hfact : .edge (stepNode t (.ofJob d j) s).key (Node.action action).key .uses ∈
      stepFacts t (.ofJob d j) none j.steps := uses_mem_stepFacts hs huses ha
  have hl : g.Links (stepNode t (.ofJob d j) s).key (Node.action action).key .uses :=
    hc.facts (.edge _ _ _) (mem_workflowFacts_of_job hj (List.mem_append_right _ hfact))
  exact h.tail hc hl (by simp)

end Graph

namespace IndexedGraph

open Document (readContent readJob textField)
open WorkflowAudit.Graph (WaitsFor actionName calleeName jobName jobNode stepKey workflowFacts
  workflowNode)

lemma carries_addWorkflow {os : List Operation} (hos : ∀ o ∈ os, o.IsNumbered)
    (t : Classification.Tables) {d : Document} (hd : d.IsNumbered) :
    ((ofOperations os).addWorkflow t d).Carries t d where
  keyed := ((represents_ofOperations os).addWorkflow t d).indexed.keyed
  named := by
    have hos' : ∀ o ∈ os ++ [.addWorkflow t d], o.IsNumbered :=
      List.forall_mem_append.mpr ⟨hos, List.forall_mem_singleton.mpr hd⟩
    have hnamed := Graph.isNamed_of_mem_nodes hos'
    rwa [ofOperations, List.foldl_append] at hnamed
  facts fact hf := by
    have hold := represents_ofOperations os
    rw [(hold.addWorkflow t d).graph]
    exact Graph.holds_addWorkflow (hold.graph ▸ hold.indexed.keyed) hf

/-- Where no job waits for itself, the search gets from a workflow that has just come in to each of
its jobs, to each mapping among the steps of a job, and to the workflows and actions that these
use. -/
theorem document_parts_reached {os : List Operation} (hos : ∀ o ∈ os, o.IsNumbered)
    (t : Classification.Tables) {d : Document} {es : Document.Entries}
    (hd : d.content = some (readContent es)) (hacyclic : ∀ name, ¬ WaitsFor d name name) :
    let x := (ofOperations os).addWorkflow t d
    ∃ i, x.workflowNumber? d = some i ∧
      ∀ name body, readJob name body ∈ d.jobs →
        let job := jobName (workflowNode d).name name
        x.Reaches i ⟨.job, job⟩ ∧
          (∀ uses ∈ textField "uses" body, ∀ u ∈ Uses.parse? uses, ∀ callee ∈ calleeName d u,
            x.Reaches i ⟨.workflow, callee⟩) ∧
          ∀ items, Yaml.lookup "steps" body = some (.sequence items) →
            ∀ k step, (items.filterMap Yaml.mapping?)[k]? = some step →
              x.Reaches i (stepKey job k) ∧
                ∀ uses ∈ textField "uses" step, ∀ u ∈ Uses.parse? uses,
                  ∀ action ∈ actionName d u, x.Reaches i ⟨.action, action⟩ := by
  intro x
  have hvalid : d.isValid = true := by rw [Document.isValid, hd, Option.isSome_some]
  have hnumbered : d.IsNumbered := Document.isNumbered_of_content hd
  have hc : x.Carries t d := carries_addWorkflow hos t hnumbered
  obtain ⟨i, n, hn, hkey, -⟩ := hc.facts _ (Graph.workflowNode_mem_workflowFacts hvalid)
  have hi : x.toGraph.number? (workflowNode d).key = some i := hkey ▸ hc.keyed.number? hn
  refine ⟨i, ?_, fun name body hj => ?_⟩
  · have hindexed := ((represents_ofOperations os).addWorkflow t d).indexed
    rw [workflowNumber?, if_pos hvalid, hindexed.number?_eq]
    exact hi
  have hjob : x.Reaches i (jobNode d (readJob name body)).key :=
    Graph.exists_way_to_job hc.keyed hc.facts hacyclic hi hj
  refine ⟨hjob, fun uses huses u hu callee hcallee => ?_, fun items hitems k step hstep => ?_⟩
  · exact Graph.reaches_callee hc hj hjob huses hu hcallee
  · have hs : (readJob name body).steps[k]? = some (Document.readStep k step) := by
      rw [readJob, hitems, Document.readSteps, List.getElem?_mapIdx, hstep, Option.map_some]
    have hlt := (List.getElem?_eq_some_iff.mp hs).1
    have hreach := Graph.reaches_step hc hnumbered hj hjob hlt
    refine ⟨hreach, fun uses huses u hu action haction => ?_⟩
    exact Graph.reaches_action hc hj (List.mem_of_getElem? hs) hreach huses hu haction

/-- The body of a job that comes before the one it needs, and needs another one that is missing. -/
def deployBody : Document.Entries :=
  [(.text "needs", .sequence [.text "build", .text "missing"]), (.text "uses", .text "./deploy.yml")]

/-- What is no mapping does not count as a step. -/
def buildBody : Document.Entries :=
  [(.text "steps", .sequence [.mapping [(.text "run", .text "make")], .text "make",
    .mapping [(.text "uses", .text "./setup")]])]

/-- It lies where another workflow has come in before. -/
def shipping : Document where
  repo := "o/r"
  ref := "HEAD"
  path := "ci.yml"
  content := some (readContent [(.text "on", .text "push"), (.text "jobs",
    .mapping [(.text "deploy", .mapping deployBody), (.text "build", .mapping buildBody)])])

lemma shipping_acyclic (name : String) : ¬ WaitsFor shipping name name := by
  have hneeds : ∀ j ∈ shipping.jobs, ∀ need ∈ Graph.knownNeeds shipping j,
      need = "build" ∧ j.name = "deploy" := by
    decide +kernel
  intro h
  obtain ⟨_, ⟨j, hj, -, hneed⟩, -⟩ := Relation.TransGen.head'_iff.mp h
  obtain ⟨_, -, j', hj', hname, hneed'⟩ := Relation.TransGen.tail'_iff.mp h
  obtain ⟨hbuild, -⟩ := hneeds j hj name hneed
  obtain ⟨-, hdeploy⟩ := hneeds j' hj' _ hneed'
  exact absurd (hbuild.symm.trans (hname.symm.trans hdeploy)) (by decide)

theorem shipping_reached :
    let x := (ofOperations [.addWorkflow .default settingUp]).addWorkflow .default shipping
    (∀ o ∈ [Operation.addWorkflow .default settingUp], o.IsNumbered) ∧
      (∀ name, ¬ WaitsFor shipping name name) ∧
      ∃ i, x.workflowNumber? shipping = some i ∧
        x.Reaches i ⟨.workflow, "o/r:HEAD:deploy.yml"⟩ ∧
        x.Reaches i (stepKey "o/r:HEAD:ci.yml:build" 1) ∧ x.Reaches i ⟨.action, "o/r:HEAD:setup"⟩ := by
  have hos : ∀ o ∈ [Operation.addWorkflow .default settingUp], o.IsNumbered := by
    intro o ho
    obtain rfl := List.mem_singleton.mp ho
    exact Document.isNumbered_parse _ _ _ _
  have hjobs : shipping.jobs = [readJob "deploy" deployBody, readJob "build" buildBody] := rfl
  obtain ⟨i, hi, hreached⟩ := document_parts_reached hos .default (d := shipping) rfl shipping_acyclic
  obtain ⟨-, hcallee, -⟩ := hreached "deploy" deployBody (by simp [hjobs])
  obtain ⟨-, -, hsteps⟩ := hreached "build" buildBody (by simp [hjobs])
  obtain ⟨hstep, haction⟩ := hsteps _ rfl 1 _ rfl
  refine ⟨hos, shipping_acyclic, i, hi, ?_, hstep, ?_⟩
  · exact hcallee "./deploy.yml" rfl (.localPath "deploy.yml") (by decide +kernel) _ rfl
  · exact haction "./setup" rfl (.localPath "setup") (by decide +kernel) _ rfl

end IndexedGraph

end WorkflowAudit
