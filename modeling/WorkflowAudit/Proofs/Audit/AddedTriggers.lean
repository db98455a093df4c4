import WorkflowAudit.Proofs.Audit.Reporting
import WorkflowAudit.Proofs.Graph.Triggers

/-! What more triggers of a workflow come to. They take no path and no walk away; but once labeling
is among them, every path from the workflow counts as gated, and with it a checkout goes unreported
whose commit cannot change any more. -/

namespace WorkflowAudit

open WorkflowAudit.Graph (AgreesBut labeledTrigger mem_paths_iff mem_tagged_iff)
open Source (Knowledge)

namespace Walk

variable {k : Knowledge} {g g' : Graph} {i x : Nat} {tag : String} {p : Place}

lemma reachesOwnStep_of_agreesBut (h : g.AgreesBut i g') (hx : x ≠ i)
    (hreach : reachesOwnStep g x tag = true) : reachesOwnStep g' x tag = true := by
  simp only [reachesOwnStep, List.any_eq_true, Option.any_eq_true, List.contains_iff_mem]
    at hreach ⊢
  obtain ⟨q, hq, k, hk, hown⟩ := hreach
  refine ⟨q, mem_paths_iff.mpr (h.taggedPath (fun k' hk' => ?_) ?_ (mem_paths_iff.mp hq)), k, hk, ?_⟩
  · obtain rfl := Option.mem_unique hk hk'
    rw [Graph.stepsOf, List.mem_filter, Bool.and_eq_true, Option.any_eq_true] at hown
    obtain ⟨-, -, n, hn, hkind⟩ := hown
    rintro rfl
    obtain ⟨w, -, hw, -⟩ := h.entry
    obtain rfl := Option.some.inj (hn.symm.trans hw)
    exact absurd hkind (by simp [Graph.Node.kind])
  · rw [h.hasTag_eq hx]
    exact id
  · rwa [h.stepsOf_eq]

lemma leavesBehind_of_agreesBut (h : g.AgreesBut i g') (hp : p.current ≠ i) (tag : String) :
    leavesBehind g' p tag = leavesBehind g p tag := by
  have hreach : reachesOwnStep g' p.current tag = reachesOwnStep g p.current tag := by
    rw [Bool.eq_iff_iff]
    exact ⟨reachesOwnStep_of_agreesBut h.symm hp, reachesOwnStep_of_agreesBut h hp⟩
  rw [leavesBehind, leavesBehind, hreach, entersSteps, entersSteps, h.stepsOf_eq]

lemma isRuledOut_of_agreesBut (h : g.AgreesBut i g') : isRuledOut k g' = isRuledOut k g := by
  funext p
  rw [isRuledOut, isRuledOut]
  by_cases hp : p.current = i
  · obtain ⟨w, triggers, hw, hw'⟩ := h.entry
    rw [hp, hw, hw']
  · rw [h.others _ hp, leavesBehind_of_agreesBut h hp]

/-- Of a workflow that a path comes from the triggers do not matter. -/
lemma apply_nodeAt_of_agreesBut {α : Type} (h : g.AgreesBut i g') (f : Option Graph.Node → α)
    (hf : ∀ (w : Graph.Workflow) (triggers : List String),
      f (some (.workflow { w with triggers := triggers })) = f (some (.workflow w)))
    (previous : Option Nat) : f (nodeAt g' previous) = f (nodeAt g previous) := by
  cases previous with
  | none => rfl
  | some x =>
    change f g'.nodes[x]? = f g.nodes[x]?
    by_cases hx : x = i
    · obtain ⟨w, triggers, hw, hw'⟩ := h.entry
      rw [hx, hw, hw', hf]
    · rw [h.others x hx]

lemma enter_of_agreesBut (h : g.AgreesBut i g') : enter k g' = enter k g := by
  funext walk p
  have hworkflow (w : Graph.Workflow) :=
    apply_nodeAt_of_agreesBut h (enterWorkflow w · walk) (fun _ _ => rfl) p.previous
  rw [enter, enter]
  by_cases hp : p.current = i
  · obtain ⟨w, triggers, hw, hw'⟩ := h.entry
    rw [hp, hw, hw']
    exact hworkflow w
  · rw [h.others _ hp]
    cases g.nodes[p.current]? with
    | none => rfl
    | some n =>
      cases n with
      | workflow w => exact hworkflow w
      | job j => simp only [enterJob, leavesBehind_of_agreesBut h hp]
      | action a => exact apply_nodeAt_of_agreesBut h (enterAction · walk) (fun _ _ => rfl) _
      | repo _ | step _ => rfl

/-- The walk along a path sees no triggers. -/
lemma along_of_agreesBut (h : g.AgreesBut i g') (path : List Nat) :
    along k g' path = along k g path := by
  rw [along, along, isRuledOut_of_agreesBut h, enter_of_agreesBut h]

end Walk

namespace Audit

variable {k : Knowledge} {g g' : Graph} {i y : Nat} {repo step tag : String} {path : List Nat}
  {w : Graph.Workflow} {s : Graph.Step} {walk : Walk} {f : Finding} {tags triggers : List String}

/-- A finding about a step belongs under a repository. -/
def IsReported (k : Knowledge) (g : Graph) (repo step : String) : Prop :=
  ∃ f ∈ (pwnRequests k g).toList, f.repo = repo ∧ f.stepName = step

lemma isReported_iff : IsReported k g repo step ↔
    ∃ path w s walk f, PwnRequestBy k g path w s walk f ∧ w.repo = repo ∧ s.name = step := by
  have hkind : ∀ f ∈ (pwnRequestPaths g).filterMap (pwnRequestAlong k g), f.kind = "pwn_request" := by
    intro f hf
    obtain ⟨p, -, hp⟩ := List.mem_filterMap.mp hf
    exact kind_of_pwnRequestAlong hp
  constructor
  · rintro ⟨f, hf, hrepo, hstep⟩
    obtain ⟨p, hp, hgive⟩ := List.mem_filterMap.mp (Findings.mem_of_mem_toList_ofList hf)
    obtain ⟨w, s, walk, hby⟩ := pwnRequestAlong_eq_some_iff.mp ⟨hp, hgive⟩
    exact ⟨p, w, s, walk, f, hby, (hby.isOn_iff repo step).mp (by simp [isOn, hrepo, hstep])⟩
  · rintro ⟨p, w, s, walk, f, hby, hon⟩
    obtain ⟨hp, hgive⟩ := pwnRequestAlong_eq_some_iff.mpr ⟨w, s, walk, hby⟩
    have hmem : f ∈ ((pwnRequestPaths g).filterMap (pwnRequestAlong k g)).filter (isOn repo step) :=
      List.mem_filter.mpr ⟨List.mem_filterMap.mpr ⟨p, hp, hgive⟩, (hby.isOn_iff repo step).mpr hon⟩
    obtain ⟨f', hf'⟩ := Finding.exists_surest? hmem
    have hkept : f' ∈ (pwnRequests k g).toList.filter (isOn repo step) := by
      rw [pwnRequests, filter_isOn_toList_ofList hkind, hf']
      exact List.mem_singleton_self f'
    obtain ⟨hf', hon'⟩ := List.mem_filter.mp hkept
    exact ⟨f', hf', by simpa [isOn] using hon'⟩

lemma PwnRequestBy.isReported (h : PwnRequestBy k g path w s walk f) :
    IsReported k g w.repo s.name :=
  isReported_iff.mpr ⟨path, w, s, walk, f, h, rfl, rfl⟩

/-- A path stays one for an attack where its start keeps its tags. -/
lemma AttackPath.of_agreesBut (h : AttackPath k g tags tag path w s walk) (hg : g.AgreesBut i g')
    (hstart : ∀ j ∈ path.head?, ∀ t, g.hasTag j t = true → g'.hasTag j t = true) :
    ∃ w', AttackPath k g' tags tag path w' s walk ∧ w'.repo = w.repo := by
  obtain ⟨y, hy, hs⟩ := h.last
  obtain ⟨⟨j, hj, hw, hp⟩, -, hwalk⟩ := h
  have hbegins := (mem_paths_iff.mp hp).begins
  obtain ⟨t, ht, htag⟩ := mem_tagged_iff.mp hj
  obtain ⟨n, hn, w', rfl, hrepo⟩ := (hg.exists_iff
    (P := fun n => ∃ w', n = .workflow w' ∧ w'.repo = w.repo) (by simp) j).mpr ⟨_, hw, w, rfl, rfl⟩
  refine ⟨w', ⟨⟨j, mem_tagged_iff.mpr ⟨t, ht, hstart j hbegins t htag⟩, hn, ?_⟩, ?_, ?_⟩, hrepo⟩
  · refine mem_paths_iff.mpr (hg.taggedPath (fun k hk => ?_) (hstart j hbegins _) (mem_paths_iff.mp hp))
    obtain rfl := Option.mem_unique hy hk
    exact hg.ne_of_step hs
  · rw [endStep?_eq_some_iff, Walk.nodeAt, Option.mem_def.mp hy]
    exact hg.getElem?_step.mpr hs
  · rw [Walk.along_of_agreesBut hg, hwalk]

lemma IsUngated.of_agreesBut (h : IsUngated g path walk) (hg : g.AgreesBut i g')
    (hlabeled : ∀ j ∈ path.head?, g'.hasTag j labeledTrigger = true →
      g.hasTag j labeledTrigger = true) : IsUngated g' path walk where
  noApproval := h.noApproval
  noSoftGate := mt hg.hasSoftGate_iff.mp h.noSoftGate
  notLabeled j hj := by
    have hnot := mt (hlabeled j hj)
    simp only [Bool.not_eq_true] at hnot
    exact hnot (h.notLabeled j hj)

/-- What a path gives, it gives in the other graph too, where its start keeps its tags and it still
passes. -/
lemma PwnRequestBy.of_agreesBut (h : PwnRequestBy k g path w s walk f) (hg : g.AgreesBut i g')
    (hstart : ∀ j ∈ path.head?, ∀ t, g.hasTag j t = true → g'.hasTag j t = true)
    (hpasses : IsUngated g' path walk ∨ s.traits.mutableRef = true) :
    ∃ w' f', PwnRequestBy k g' path w' s walk f' ∧ w'.repo = w.repo := by
  obtain ⟨w', hattack, hrepo⟩ := h.toAttackPath.of_agreesBut hg hstart
  obtain ⟨y, hy, -⟩ := hattack.last
  exact ⟨w', _, ⟨hattack, hpasses, y, hy, rfl⟩, hrepo⟩

/-- Paths from elsewhere do not see the change. -/
lemma PwnRequestBy.elsewhere (h : PwnRequestBy k g path w s walk f) (hg : g.AgreesBut i g')
    (hhead : path.head? ≠ some i) :
    ∃ w' f', PwnRequestBy k g' path w' s walk f' ∧ w'.repo = w.repo := by
  have hsame : ∀ j ∈ path.head?, ∀ t, g'.hasTag j t = g.hasTag j t :=
    fun j hj t => hg.hasTag_eq (fun hji => hhead (hji ▸ hj)) t
  apply h.of_agreesBut hg
  · exact fun j hj t ht => by rwa [hsame j hj]
  · exact h.passes.imp_left fun hungated => hungated.of_agreesBut hg fun j hj ht => by
      rwa [← hsame j hj]

lemma AttackPath.eq_of_name (h : AttackPath k g tags tag path w s walk) (hk : g.IsKeyed)
    {s' : Graph.Step} (hs' : g.nodes[y]? = some (.step s')) (hname : s.name = s'.name) : s = s' := by
  obtain ⟨x, -, hs⟩ := h.last
  obtain rfl := hk.eq hs hs' (congrArg (Graph.Key.mk .step) hname)
  exact Graph.Node.step.inj (Option.some.inj (hs.symm.trans hs'))

lemma isKeyed_withTriggers (hk : g.IsKeyed) : (g.withTriggers i triggers).IsKeyed := by
  have hkey (n : Graph.Node) : (n.withTriggers triggers).key = n.key := by
    cases n <;> rfl
  rw [Graph.IsKeyed, Graph.withTriggers, Graph.map_key_modify fun n _ => hkey n]
  exact hk

/-- With more triggers of a workflow a step stays reported, unless labeling comes to be among them,
the commit that the step checks out cannot change, and no path from another workflow has the step
reported. -/
theorem added_triggers_hide_iff (hk : g.IsKeyed) (hi : g.nodes[i]? = some (.workflow w))
    (hsub : w.triggers ⊆ triggers) (hs : g.nodes[y]? = some (.step s))
    (h : IsReported k g repo s.name) :
    IsReported k (g.withTriggers i triggers) repo s.name ↔
      (labeledTrigger ∈ triggers → labeledTrigger ∈ w.triggers) ∨ s.traits.mutableRef = true ∨
        ∃ path w' walk f, path.head? ≠ some i ∧ PwnRequestBy k g path w' s walk f ∧
          w'.repo = repo := by
  have hg := Graph.agreesBut_withTriggers hi triggers
  have hmore (path : List Nat) : ∀ j ∈ path.head?, ∀ t, g.hasTag j t = true →
      (g.withTriggers i triggers).hasTag j t = true :=
    fun j _ t => Graph.hasTag_withTriggers hi hsub
  constructor
  · intro h'
    obtain ⟨path, w', s', walk, f, hby, rfl, hname⟩ := isReported_iff.mp h'
    obtain rfl := hby.eq_of_name (isKeyed_withTriggers hk) (hg.getElem?_step.mpr hs) hname
    by_cases hhead : path.head? = some i
    · rcases hby.passes with hungated | hmutable
      · refine Or.inl fun hmem => ?_
        have htag := (Graph.hasTag_labeled_iff (Graph.getElem?_withTriggers hi triggers)).mpr hmem
        exact absurd htag (by simp [hungated.notLabeled i hhead])
      · exact Or.inr (Or.inl hmutable)
    · obtain ⟨w'', f', hby', hrepo⟩ := hby.elsewhere hg.symm hhead
      exact Or.inr (Or.inr ⟨path, w'', walk, f', hhead, hby', hrepo⟩)
  · intro hcases
    obtain ⟨path, w', s', walk, f, hby, rfl, hname⟩ := isReported_iff.mp h
    obtain rfl := hby.eq_of_name hk hs hname
    rcases hcases with hlabeled | hmutable | ⟨path', w'', walk', f', hhead, hby', hrepo'⟩
    · have hpasses := hby.passes.imp_left fun hungated => hungated.of_agreesBut hg fun j _ =>
        Graph.hasTag_labeled_of_withTriggers hi hlabeled
      obtain ⟨w'', f', hby', hrepo⟩ := hby.of_agreesBut hg (hmore path) hpasses
      exact hrepo ▸ hby'.isReported
    · obtain ⟨w'', f', hby', hrepo⟩ := hby.of_agreesBut hg (hmore path) (Or.inr hmutable)
      exact hrepo ▸ hby'.isReported
    · obtain ⟨w₃, f₃, hby₃, hrepo₃⟩ := hby'.elsewhere hg hhead
      exact (hrepo₃.trans hrepo') ▸ hby₃.isReported

instance (k : Knowledge) (g : Graph) (repo step : String) : Decidable (IsReported k g repo step) :=
  inferInstanceAs (Decidable (∃ f ∈ (pwnRequests k g).toList, f.repo = repo ∧ f.stepName = step))

lemma getElem?_of_endStep?_singleton (h : endStep? g [i] = some s) :
    g.nodes[i]? = some (.step s) :=
  endStep?_eq_some_iff.mp h

def comments : Document.Entries := [(.text "issue_comment", .null)]

def commentsAndLabels : Document.Entries :=
  comments ++ [(.text "pull_request_target", .mapping [(.text "types", .text "labeled")])]

/-- A workflow whose only step checks out the code of a pull request at a reference. -/
def checkingOut (ref : String) (triggers : Document.Entries) : Document where
  repo := "o/r"
  ref := "HEAD"
  path := "ci.yml"
  content := some (Document.readContent [(.text "on", .mapping triggers), (.text "jobs", .mapping
    [(.text "build", .mapping [(.text "steps", .sequence [.mapping
      [(.text "uses", .text "actions/checkout@v4"),
        (.text "with", .mapping [(.text "ref", .text ref)])]])])])])

def movingHead : String := "$\x7b\x7b github.head_ref \x7d\x7d"

def fixedHead : String := "$\x7b\x7b github.event.pull_request.head.sha \x7d\x7d"

/-- A branch can move on after the labeling. -/
theorem moving_checkout_stays_reported :
    let g := Graph.ofWorkflow .default (checkingOut movingHead comments)
    let triggers := (checkingOut movingHead commentsAndLabels).triggers
    g.IsKeyed ∧ g.nodes[1]? = some (Graph.workflowNode (checkingOut movingHead comments)) ∧
      (checkingOut movingHead comments).triggers ⊆ triggers ∧ labeledTrigger ∈ triggers ∧
      ∃ s, g.nodes[3]? = some (.step s) ∧ IsReported nothingKnown g "o/r" s.name ∧
        s.traits.mutableRef = true ∧
        IsReported nothingKnown (g.withTriggers 1 triggers) "o/r" s.name := by
  intro g triggers
  have hk : g.IsKeyed := Graph.isKeyed_ofWorkflow .default _
  obtain ⟨hi, hsub, hlabeled, hend⟩ :
      g.nodes[1]? = some (Graph.workflowNode (checkingOut movingHead comments)) ∧
        (checkingOut movingHead comments).triggers ⊆ triggers ∧ labeledTrigger ∈ triggers ∧
        ∃ s ∈ endStep? g [3], IsReported nothingKnown g "o/r" s.name ∧
          s.traits.mutableRef = true := by
    decide +kernel
  obtain ⟨s, hs, hreported, hmutable⟩ := hend
  have hs : g.nodes[3]? = some (.step s) := getElem?_of_endStep?_singleton (Option.mem_def.mp hs)
  have hiff := added_triggers_hide_iff hk hi hsub hs hreported
  exact ⟨hk, hi, hsub, hlabeled, s, hs, hreported, hmutable, hiff.mpr (.inr (.inl hmutable))⟩

/-- Anyone can comment, and the comment runs a fixed commit; the labels that may also start the
workflow hide it. -/
theorem labeling_hides_checkout :
    (checkingOut fixedHead comments).triggers ⊆ (checkingOut fixedHead commentsAndLabels).triggers ∧
      Graph.ofWorkflow .default (checkingOut fixedHead commentsAndLabels) =
        (Graph.ofWorkflow .default (checkingOut fixedHead comments)).withTriggers 1
          (checkingOut fixedHead commentsAndLabels).triggers ∧
      IsReported nothingKnown (Graph.ofWorkflow .default (checkingOut fixedHead comments)) "o/r"
        "o/r:HEAD:ci.yml:build:0" ∧
      ¬ IsReported nothingKnown (Graph.ofWorkflow .default (checkingOut fixedHead commentsAndLabels))
        "o/r" "o/r:HEAD:ci.yml:build:0" := by
  decide +kernel

end Audit

end WorkflowAudit
