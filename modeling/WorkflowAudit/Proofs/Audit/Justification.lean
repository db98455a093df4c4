import WorkflowAudit.Audit.Basic
import WorkflowAudit.Proofs.Audit.AttackPaths
import WorkflowAudit.Proofs.Finding.Gathering

/-! Whatever an audit reports is borne out by a path of the resolved graph. -/

namespace WorkflowAudit.Audit

open Source (Knowledge)

/-- The triggers of the finder that gives such details. -/
def triggersFor : Details → List String
  | .injection _ => injectionTriggers
  | .pwnRequest .. => pwnRequestTriggers

/-- A path that an outsider can take from a workflow with one of some triggers, and what a finding
says of it. -/
structure IsTrace (k : Knowledge) (g : Graph) (triggers : List String) (path : List Nat)
    (w : Graph.Workflow) (s : Graph.Step) (f : Finding) : Prop where
  begins : ∃ i ∈ path.head?, g.nodes[i]? = some (.workflow w) ∧
    ∃ tag ∈ triggers, g.hasTag i tag = true
  notFork : k.isFork w.repo = false
  consecutive : path.IsChain fun i j => j ∈ g.successors i
  simple : path.Nodup
  isOpen : ∀ i ∈ path, g.IsOpen i
  noHardGate : ∀ i ∈ path.dropLast, ¬ g.IsHardGate i
  ends : ∃ i ∈ path.getLast?, g.nodes[i]? = some (.step s)
  repo : f.repo = w.repo
  stepName : f.stepName = s.name
  /-- The last job on the path, if there is one. -/
  job : f.job = (path.filterMap g.jobAt?).getLast?.map (·.job)
  keys : f.path.map some = path.map fun i => g.nodes[i]?.map (·.key)

/-- What has to hold of a path besides for a finding with certain details. -/
def BearsOut (k : Knowledge) (g : Graph) (path : List Nat) (s : Graph.Step) (c : Confidence) :
    Details → Prop
  | .injection contexts =>
    (∀ i ∈ path, ∀ j, g.nodes[i]? = some (.job j) → ∀ e ∈ j.environment,
      k.isProtected j.repo e = false) ∧
    contexts ≠ [] ∧ contexts.Nodup ∧ (c = .high ↔ ∃ i ∈ contexts, i.origin = .direct)
  | .pwnRequest _ isMutable sink canRaceGate =>
    s.traits.isCheckout = true ∧ (c = .high ↔ sink.isSome = true) ∧
    (canRaceGate = true → isMutable = true)

variable {k : Knowledge} {g : Graph} {triggers : List String} {tag : String} {path : List Nat}
  {w : Graph.Workflow} {s : Graph.Step} {walk : Walk} {f : Finding}

lemma map_some_filterMap {α β : Type} {l : List α} {key? : α → Option β}
    (h : ∀ a ∈ l, (key? a).isSome = true) : (l.filterMap key?).map some = l.map key? := by
  induction l with
  | nil => rfl
  | cons a l ih =>
    obtain ⟨b, hb⟩ := Option.isSome_iff_exists.mp (h a (by simp))
    rw [List.filterMap_cons_some hb, List.map_cons, List.map_cons, hb,
      ih fun a ha => h a (List.mem_cons_of_mem _ ha)]

lemma AttackPath.isTrace (h : AttackPath k g triggers tag path w s walk) (c : Confidence)
    (details : Details) :
    IsTrace k g triggers path w s (walk.report g path c details w s) := by
  obtain ⟨i, hw, htag, ht⟩ := h.taggedPath
  have hpresent : ∀ j ∈ path, (g.nodes[j]?.map (·.key)).isSome = true := by
    intro j hj
    obtain ⟨n, hn, -⟩ := ht.isOpen j hj
    simp [hn]
  exact
    { begins := ⟨i, ht.begins, hw, htag⟩
      notFork := Walk.isFork_of_along h.walked ht.begins hw
      consecutive := ht.consecutive
      simple := ht.simple
      isOpen := ht.isOpen
      noHardGate := ht.noHardGate
      ends := h.last
      repo := rfl
      stepName := rfl
      job := Walk.job_report h.walked c details w s
      keys := map_some_filterMap hpresent }

lemma isCheckout_of_hasTag {i : Nat} (hs : g.nodes[i]? = some (.step s))
    (h : g.hasTag i "checkout" = true) : s.traits.isCheckout = true := by
  rw [Graph.hasTag_iff_of_isInitialized hs rfl] at h
  simpa [Graph.Node.kind, Graph.Kind.tag, Graph.Node.ownTags, Graph.Node.traitTags] using h

lemma InjectionBy.bearsOut (h : InjectionBy k g path w s walk f) :
    IsTrace k g (triggersFor f.details) path w s f ∧
      BearsOut k g path s f.confidence f.details := by
  rw [h.finding]
  refine ⟨h.toAttackPath.isTrace _ _, ?_, h.implicates, nodup_eraseDups _,
    injectionConfidence_eq_high_iff _⟩
  intro i hi j hj e he
  exact Walk.not_isProtected_of_along h.walked h.ungated hi hj he

lemma PwnRequestBy.bearsOut (h : PwnRequestBy k g path w s walk f) :
    IsTrace k g (triggersFor f.details) path w s f ∧
      BearsOut k g path s f.confidence f.details := by
  obtain ⟨checkout, hlast, hf⟩ := h.finding
  rw [hf]
  refine ⟨h.toAttackPath.isTrace _ _, ?_, ?_, ?_⟩
  · obtain ⟨i, -, -, ht⟩ := h.taggedPath
    obtain ⟨j, hj, hs⟩ := h.last
    obtain ⟨j', hj', htag⟩ := ht.tagged
    obtain rfl := Option.mem_unique hj hj'
    exact isCheckout_of_hasTag hs htag
  · show (if _ then Confidence.high else .medium) = .high ↔ _
    split
    · next hsink => simp [hsink]
    · next hsink => simp [hsink]
  · intro hgated
    have hg := isGated_eq_false_iff h.walked
    refine h.passes.resolve_left fun hu => ?_
    rw [hg.mpr hu] at hgated
    exact absurd hgated Bool.false_ne_true

lemma mem_entries_findings {e : String × List Finding} (he : e ∈ (findings k g).entries)
    (hf : f ∈ e.2) :
    (f ∈ (injectionPaths g).filterMap (injectionAlong k g) ∨
      f ∈ (pwnRequestPaths g).filterMap (pwnRequestAlong k g)) ∧ e.1 = f.repo := by
  rcases Findings.mem_entries_foldl_push he hf with ⟨hm, hr⟩ | ⟨e', he', hr, hf'⟩
  · exact ⟨Or.inr (Findings.mem_of_mem_toList_ofList hm), hr⟩
  · obtain ⟨hm, hr'⟩ := Findings.mem_entries_ofList he' hf'
    exact ⟨Or.inl hm, hr.symm.trans hr'⟩

/-- Each finding stands under its repository and is borne out by a path of the resolved graph. -/
theorem findings_justified (k : Knowledge) (t : Classification.Tables) (g : Graph)
    {e : String × List Finding} (he : e ∈ (audit k t g).entries) {f : Finding} (hf : f ∈ e.2) :
    e.1 = f.repo ∧ ∃ path w s, IsTrace k (resolved k t g) (triggersFor f.details) path w s f ∧
      BearsOut k (resolved k t g) path s f.confidence f.details := by
  obtain ⟨hmem, hrepo⟩ := mem_entries_findings he hf
  refine ⟨hrepo, ?_⟩
  rcases hmem with hmem | hmem
  · obtain ⟨p, hp, hg⟩ := List.mem_filterMap.mp hmem
    obtain ⟨w, s, walk, h⟩ := injectionAlong_eq_some_iff.mp ⟨hp, hg⟩
    exact ⟨p, w, s, h.bearsOut⟩
  · obtain ⟨p, hp, hg⟩ := List.mem_filterMap.mp hmem
    obtain ⟨w, s, walk, h⟩ := pwnRequestAlong_eq_some_iff.mp ⟨hp, hg⟩
    exact ⟨p, w, s, h.bearsOut⟩

/-- A workflow that puts the name of a branch into a script. -/
def greeting : Graph :=
  Graph.empty.addWorkflow .default (Document.parse ("on: fork\njobs:\n  greet:\n    steps:\n" ++
    "    - run: echo $\x7b\x7b github.head_ref \x7d\x7d\n") "o/r" "HEAD" "ci.yml")

theorem greeting_justified :
    let g := resolved nothingKnown .default greeting
    ∃ f, (audit nothingKnown .default greeting).entries = [("o/r", [f])] ∧ f.job = some "greet" ∧
      ∃ path w s, IsTrace nothingKnown g injectionTriggers path w s f ∧
        BearsOut nothingKnown g path s f.confidence f.details := by
  let f : Finding :=
    { repo := "o/r", workflow := "ci.yml", job := some "greet", step := "step 0"
      stepName := "o/r:HEAD:ci.yml:greet:0", triggers := ["fork"], confidence := .high
      selfHosted := false
      path := [⟨.workflow, "o/r:HEAD:ci.yml"⟩, ⟨.job, "o/r:HEAD:ci.yml:greet"⟩,
        ⟨.step, "o/r:HEAD:ci.yml:greet:0"⟩]
      details := .injection [⟨"github.head_ref", .direct, none⟩] }
  have hentries : (audit nothingKnown .default greeting).entries = [("o/r", [f])] := by
    decide +kernel
  have he : ("o/r", [f]) ∈ (audit nothingKnown .default greeting).entries := by simp [hentries]
  have hf := findings_justified nothingKnown .default greeting he (List.mem_singleton.mpr rfl)
  exact ⟨f, hentries, rfl, hf.2⟩

end WorkflowAudit.Audit
