import WorkflowAudit.Proofs.Context.Interpolation
import WorkflowAudit.Proofs.Graph.DocumentFacts
import WorkflowAudit.Proofs.Graph.TaggedPaths
import WorkflowAudit.Proofs.Text.LetterCase

/-! The flags of a step fit together, though branches that know nothing of each other set them. A
context that anyone can set makes a sink of the step it is put into, whichever way the step came by
its script; only a step that has a script beside an action of its own escapes. -/

namespace WorkflowAudit

/-- The fields of a classification do not contradict each other. -/
structure StepClass.IsCoherent (c : StepClass) : Prop where
  isCheckout_iff : c.isCheckout = true ↔ ∃ ref, c.checkoutRef = some ref
  isCheckout_of_mutableRef : c.mutableRef = true → c.isCheckout = true
  isGate_iff : c.isGate = true ↔ Xor (c.hardGate = true) (c.softGate = true)
  not_both : ¬ (c.hardGate = true ∧ c.softGate = true)
  contexts_ne_nil : c.injectable = true → c.contexts ≠ []

/-- The tags of a step show its flags, and nothing but its flags and that it is a step. -/
structure StepClass.IsShownBy (c : StepClass) (tags : List String) : Prop where
  checkout_iff : "checkout" ∈ tags ↔ c.isCheckout = true
  sink_iff : "sink" ∈ tags ↔ c.isSink = true
  injectable_iff : "injectable" ∈ tags ↔ c.injectable = true
  permission_check_iff : "permission_check" ∈ tags ↔ c.isGate = true
  permission_blocker_iff : "permission_blocker" ∈ tags ↔ c.hardGate = true
  eq_of_mem : ∀ tag ∈ tags, tag ∈ ["StepNode", "checkout", "sink", "injectable",
    "permission_check", "permission_blocker"]

namespace Context

variable {text : String}

lemma bodies_eq_nil_of_noOpening (h : ¬ opening <:+: text.toList) : bodies text = [] := by
  have hbodies := Interpolation.bodies_text ⟨[], ⟨text.toList, h⟩⟩
  simpa [Interpolation.text] using hbodies

lemma noOpening_of_isBlankText (h : Text.isBlankText text = true) : ¬ opening <:+: text.toList := by
  intro hopening
  have hdollar : '$' ∈ text.toList := hopening.subset List.mem_cons_self
  exact absurd (List.all_eq_true.mp h _ hdollar) (by decide)

end Context

namespace Classification

variable {t : Tables} {d : Document.Step} {uses : Option Uses} {inputs : Assoc String}
  {u : RepositoryUses} {a b script : String}

/-! ### Actions -/

/-- Both entries name one whole repository, and not the same. -/
def areApart (a b : String) : Bool :=
  match UsesPattern.parse? a, UsesPattern.parse? b with
  | some (.exactRepo _ r), some (.exactRepo _ r') => !Text.sameIgnoringCase r r'
  | _, _ => false

lemma isAction_eq_false_of_areApart (h : areApart a b = true) (ha : isAction u a = true) :
    isAction u b = false := by
  revert h ha
  unfold areApart isAction
  split
  next o r o' r' hparse hparse' =>
    intro hdiffer ha
    simp only [hparse, hparse', UsesPattern.accepts, UsesPattern.sameRepo, Bool.and_eq_true]
      at ha ⊢
    rw [Bool.not_eq_true', ← Text.sameIgnoringCase_congr_left ha.1.2] at hdiffer
    simp [hdiffer]
  next => exact fun h => (Bool.false_ne_true h).elim

lemma scriptActions_areApart : ∀ a ∈ scriptActions,
    areApart a.1 "ruby/setup-ruby" = true ∧ areApart a.1 "actions/setup-node" = true := by
  decide +kernel

/-- The actions that are sinks by what they are told to cache. -/
def isCachingAction (u : RepositoryUses) : Bool :=
  isAction u "ruby/setup-ruby" || isAction u "actions/setup-node"

lemma stepScript_none_eq_some (h : stepScript uses none inputs = some script) :
    ∃ u, uses = some (.repository u) ∧ isCachingAction u = false := by
  cases uses with
  | none => cases h
  | some uses =>
    cases uses with
    | localPath _ | docker _ => cases h
    | repository u =>
      obtain ⟨a, hfind, -⟩ := Option.bind_eq_some_iff.mp h
      have haction := List.find?_some hfind
      obtain ⟨hruby, hnode⟩ := scriptActions_areApart a (List.mem_of_find?_eq_some hfind)
      refine ⟨u, rfl, ?_⟩
      rw [isCachingAction, isAction_eq_false_of_areApart hruby haction,
        isAction_eq_false_of_areApart hnode haction, Bool.or_false]

/-! ### Sinks -/

lemma isSinkStep_of_injectable (hblank : Text.isBlankText script = false)
    (h : ∀ u, uses = some (.repository u) → isCachingAction u = false) :
    isSinkStep t uses inputs (some script) true = true := by
  cases uses with
  | none => rfl
  | some uses =>
    cases uses with
    | localPath _ | docker _ => rfl
    | repository u =>
      obtain ⟨hruby, hnode⟩ := Bool.or_eq_false_iff.mp (h u rfl)
      simp [isSinkStep, hruby, hnode, hblank]

lemma exists_script_of_injectable (h : (classifyStep t d).injectable = true) :
    ∃ script, stepScript (d.uses.bind Uses.parse?) d.run d.inputs = some script ∧
      (classifyStep t d).contexts = Context.bodies script ∧ Context.bodies script ≠ [] := by
  simp only [classifyStep] at h ⊢
  cases hscript : stepScript (d.uses.bind Uses.parse?) d.run d.inputs with
  | none => simp [hscript] at h
  | some script =>
    refine ⟨script, rfl, rfl, ?_⟩
    intro hnil
    simp [hscript, hnil] at h

/-- An injectable step that is no sink has a script beside the action it uses, which is one of those
that only their cache makes a sink. -/
lemma exists_of_injectable_of_not_isSink (h : (classifyStep t d).injectable = true)
    (hsink : (classifyStep t d).isSink = false) :
    ∃ script u, d.run = some script ∧ d.uses.bind Uses.parse? = some (.repository u) ∧
      isCachingAction u = true := by
  obtain ⟨script, hscript, -, hbodies⟩ := exists_script_of_injectable h
  have hblank : Text.isBlankText script = false := by
    rw [Bool.eq_false_iff]
    intro hblank
    exact hbodies (Context.bodies_eq_nil_of_noOpening (Context.noOpening_of_isBlankText hblank))
  obtain ⟨u, huses, hcaching⟩ : ∃ u, d.uses.bind Uses.parse? = some (.repository u) ∧
      isCachingAction u = true := by
    by_contra! hno
    have heq : (classifyStep t d).isSink = isSinkStep t (d.uses.bind Uses.parse?) d.inputs
        (stepScript (d.uses.bind Uses.parse?) d.run d.inputs) (classifyStep t d).injectable := rfl
    rw [hsink, hscript, h, isSinkStep_of_injectable hblank fun u hu =>
      Bool.eq_false_iff.mpr (hno u hu)] at heq
    exact Bool.false_ne_true heq
  cases hrun : d.run with
  | some run => exact ⟨run, u, rfl, huses, hcaching⟩
  | none =>
    rw [hrun] at hscript
    obtain ⟨u', huses', hcaching'⟩ := stepScript_none_eq_some hscript
    obtain rfl := Uses.repository.inj (Option.some.inj (huses.symm.trans huses'))
    exact absurd hcaching (by simp [hcaching'])

/-- Where such an action decides, the script is not looked at. -/
example :
    let c := classifyStep .default ⟨0, none, none, some "ruby/setup-ruby@v1",
      some "./greet '$\x7b\x7b github.head_ref \x7d\x7d'", [], [], none⟩
    c.injectable = true ∧ c.isSink = false := by decide +kernel

lemma isSink_of_injectable (hone : d.uses = none ∨ d.run = none)
    (h : (classifyStep t d).injectable = true) : (classifyStep t d).isSink = true := by
  by_contra hsink
  obtain ⟨script, u, hrun, huses, -⟩ :=
    exists_of_injectable_of_not_isSink h (Bool.not_eq_true _ ▸ hsink)
  rcases hone with hnone | hnone
  · simp [hnone] at huses
  · cases hnone.symm.trans hrun

/-! ### Flags and tags -/

lemma isCoherent_classifyStep (t : Tables) (d : Document.Step) : (classifyStep t d).IsCoherent where
  isCheckout_iff := Option.isSome_iff_exists
  isCheckout_of_mutableRef h := by
    obtain ⟨ref, href, -⟩ := (Option.any_eq_true _ _).mp h
    exact Option.isSome_iff_exists.mpr ⟨ref, href⟩
  isGate_iff := by
    simp only [classifyStep, decide_eq_true_eq]
    rcases stepGate t (d.uses.bind Uses.parse?)
      (stepScript (d.uses.bind Uses.parse?) d.run d.inputs) with _ | (_ | _) <;> simp [Xor]
  not_both := by
    simp only [classifyStep, decide_eq_true_eq]
    rintro ⟨hhard, hsoft⟩
    cases hhard.symm.trans hsoft
  contexts_ne_nil h := by
    obtain ⟨script, -, hcontexts, hbodies⟩ := exists_script_of_injectable h
    exact hcontexts ▸ hbodies

lemma mem_traitTags {c : StepClass} {tag : String} (h : tag ∈ Graph.Node.traitTags c) :
    tag ∈ ["checkout", "sink", "injectable", "permission_check", "permission_blocker"] := by
  obtain ⟨⟨held, tag'⟩, hflag, hheld⟩ := List.mem_filterMap.mp h
  obtain ⟨-, htag⟩ := Option.ite_none_right_eq_some.mp hheld
  rw [← Option.some.inj htag]
  exact List.mem_map_of_mem (f := Prod.snd) hflag

lemma isShownBy_tags (s : Graph.Step) : s.traits.IsShownBy (Graph.Node.step s).tags := by
  have hmem (tag : String) : tag ∈ (Graph.Node.step s).tags ↔
      tag = "StepNode" ∨ tag ∈ Graph.Node.traitTags s.traits := Graph.Node.mem_tags_iff rfl
  constructor
  case eq_of_mem =>
    exact fun tag htag => List.mem_cons.mpr (((hmem tag).mp htag).imp_right mem_traitTags)
  all_goals
    rw [hmem]
    simp [Graph.Node.traitTags]

/-- However a step is written down, its flags do not contradict each other, its tags show them, and
unless it has both a script and an action, it is a sink when it is injectable. -/
theorem classifyStep_coherent (t : Tables) (d : Document.Step) :
    (classifyStep t d).IsCoherent ∧
      (d.uses = none ∨ d.run = none → (classifyStep t d).injectable = true →
        (classifyStep t d).isSink = true) ∧
      ∀ parent : Graph.Parent,
        (classifyStep t d).IsShownBy (Graph.stepNode t parent d).tags ∧
          ("permission_blocker" ∈ (Graph.stepNode t parent d).tags →
            "permission_check" ∈ (Graph.stepNode t parent d).tags) := by
  have hcoherent := isCoherent_classifyStep t d
  refine ⟨hcoherent, isSink_of_injectable, fun parent => ?_⟩
  have hshown : (classifyStep t d).IsShownBy (Graph.stepNode t parent d).tags :=
    isShownBy_tags (.ofDocument t parent.name parent.repo parent.job d)
  refine ⟨hshown, fun hblocker => hshown.permission_check_iff.mpr (hcoherent.isGate_iff.mpr ?_)⟩
  have hhard := hshown.permission_blocker_iff.mp hblocker
  exact .inl ⟨hhard, fun hsoft => hcoherent.not_both ⟨hhard, hsoft⟩⟩

/-- A step that greets by a script that an action runs. -/
def greetingStep : Document.Step :=
  ⟨0, none, none, some "actions/github-script@v7", none,
    [("script", "core.info('$\x7b\x7b github.head_ref \x7d\x7d')")], [], none⟩

theorem isSink_greetingStep :
    greetingStep.run = none ∧ (classifyStep .default greetingStep).injectable = true ∧
      (classifyStep .default greetingStep).isSink = true := by
  have hinjectable : (classifyStep .default greetingStep).injectable = true := by decide +kernel
  exact ⟨rfl, hinjectable, (classifyStep_coherent .default greetingStep).2.1 (.inr rfl) hinjectable⟩

end Classification

end WorkflowAudit
