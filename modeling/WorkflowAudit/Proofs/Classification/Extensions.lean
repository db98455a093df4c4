import Mathlib.Data.List.Basic
import WorkflowAudit.Graph.Facts

/-! What a configuration adds to the classification of steps. Its entries stand behind the built-in
ones, and each decision that is made by a table is made anew by the entries alone, so that nothing
that the built-in tables find is lost. -/

namespace WorkflowAudit.Classification

/-- The entries of a configuration without the built-in ones. -/
def Tables.ofEntries (c : Configuration) : Tables :=
  { Tables.default with
    sinkPatterns := c.sinkPatterns
    sinkCommands := c.sinkPrefixes
    permissionCheckPatterns := c.permissionCheckPatterns
    permissionCheckActions := c.permissionCheckActions
    safeActions := c.safeActions }

variable (c : Configuration)

open Tables (ofEntries ofConfiguration)

lemma containsAny_append (xs ys : List String) (text : String) :
    containsAny (xs ++ ys) text = (containsAny xs text || containsAny ys text) := List.any_append

lemma acceptedByAny_append (xs ys : List UsesPattern) (u : RepositoryUses) :
    UsesPattern.acceptedByAny (xs ++ ys) u =
      (UsesPattern.acceptedByAny xs u || UsesPattern.acceptedByAny ys u) := List.any_append

lemma isSinkScript_iff (t : Tables) (script : String) : isSinkScript t script = true ↔
    containsAny t.sinkPatterns script = true ∨
      ∃ l ∈ lines script, ∃ command ∈ t.sinkCommands,
        startsWithCommand (String.ofList (Text.trimStartChars l.toList)) command = true := by
  simp [isSinkScript]

lemma isSinkScript_ofConfiguration (script : String) :
    isSinkScript (ofConfiguration c) script =
      (isSinkScript .default script || isSinkScript (ofEntries c) script) := by
  rw [Bool.eq_iff_iff, Bool.or_eq_true, isSinkScript_iff, isSinkScript_iff, isSinkScript_iff]
  simp only [ofConfiguration, ofEntries, containsAny_append, List.mem_append, or_and_right,
    exists_or, and_or_left, Bool.or_eq_true]
  exact or_or_or_comm

lemma isSinkStep_ofConfiguration (uses : Option Uses) (inputs : Assoc String)
    (script : Option String) (injectable : Bool) :
    isSinkStep (ofConfiguration c) uses inputs script injectable =
      (isSinkStep .default uses inputs script injectable ||
        isSinkStep (ofEntries c) uses inputs script injectable) := by
  cases uses with
  | none =>
    cases script with
    | none => rfl
    | some s => cases injectable <;> simp [isSinkStep, isSinkScript_ofConfiguration]
  | some u =>
    cases u with
    | localPath _ => rfl
    | repository u => simp [isSinkStep]
    | docker _ =>
      cases script with
      | none => rfl
      | some s => cases injectable <;> simp [isSinkStep, isSinkScript_ofConfiguration]

lemma scriptGate_ofConfiguration (script : String) :
    scriptGate (ofConfiguration c) script =
      (scriptGate .default script).or (scriptGate (ofEntries c) script) := by
  have happend : containsAny (ofConfiguration c).permissionCheckPatterns script =
      (containsAny Tables.default.permissionCheckPatterns script ||
        containsAny (ofEntries c).permissionCheckPatterns script) := containsAny_append _ _ _
  -- Which of the tables asks for permissions has no say in how the gate ends.
  simp only [scriptGate, happend]
  cases containsAny Tables.default.permissionCheckPatterns script <;>
    cases containsAny forkCheckMarkers script && containsAny failureMarkers script <;> simp

lemma actionGate_ofConfiguration (u : RepositoryUses) :
    actionGate (ofConfiguration c) u =
      (actionGate .default u).or (actionGate (ofEntries c) u) := by
  have happend : UsesPattern.acceptedByAny (ofConfiguration c).permissionCheckActions u =
      (UsesPattern.acceptedByAny Tables.default.permissionCheckActions u ||
        UsesPattern.acceptedByAny (ofEntries c).permissionCheckActions u) :=
    acceptedByAny_append _ _ _
  have hfailing : (ofConfiguration c).failingPermissionCheckActions =
      (ofEntries c).failingPermissionCheckActions := rfl
  simp only [actionGate, happend, hfailing]
  cases UsesPattern.acceptedByAny Tables.default.permissionCheckActions u <;> rfl

lemma stepGate_ofConfiguration (uses : Option Uses) (script : Option String) :
    stepGate (ofConfiguration c) uses script =
      (stepGate .default uses script).or (stepGate (ofEntries c) uses script) := by
  cases script with
  | some s => exact scriptGate_ofConfiguration c s
  | none =>
    cases uses with
    | none => rfl
    | some u =>
      cases u with
      | repository u => exact actionGate_ofConfiguration c u
      | localPath _ => rfl
      | docker _ => rfl

/-- Whether an entry of a configuration takes the action of a clause to be safe. -/
def isTrusted (c : Configuration) (clause : String) : Bool :=
  match Uses.parse? clause with
  | some (.repository u) => UsesPattern.acceptedByAny c.safeActions u
  | _ => false

lemma usedAction_ofConfiguration (repo ref clause : String) :
    Graph.usedAction (ofConfiguration c) repo ref clause =
      (Graph.usedAction .default repo ref clause).map fun a =>
        { a with initialized := a.initialized || isTrusted c clause } := by
  simp only [Graph.usedAction, isTrusted]
  cases Uses.parse? clause with
  | none => rfl
  | some uses =>
    cases uses with
    | repository u =>
      have happend : UsesPattern.acceptedByAny (ofConfiguration c).safeActions u =
          (UsesPattern.acceptedByAny Tables.default.safeActions u ||
            UsesPattern.acceptedByAny c.safeActions u) := acceptedByAny_append _ _ _
      simp [happend, Bool.or_assoc]
    | localPath _ => rfl
    | docker _ => rfl

/-- A configuration leaves alone what a step checks out and puts into its script. What the built-in
tables take for a sink stays one, a gate stays a gate of its kind, and an action that need not be
read need not be read either; anything more comes of the entries of the configuration alone. -/
theorem configuration_extends (c : Configuration) (s : Document.Step) :
    let before := classifyStep .default s
    let added := classifyStep (ofEntries c) s
    let after := classifyStep (ofConfiguration c) s
    (after.isCheckout = before.isCheckout ∧ after.checkoutRef = before.checkoutRef ∧
        after.mutableRef = before.mutableRef ∧ after.injectable = before.injectable ∧
        after.contexts = before.contexts) ∧
      after.isSink = (before.isSink || added.isSink) ∧
      (before.isGate = true → after.isGate = true ∧ after.hardGate = before.hardGate ∧
        after.softGate = before.softGate) ∧
      (before.isGate = false → after.isGate = added.isGate ∧ after.hardGate = added.hardGate ∧
        after.softGate = added.softGate) ∧
      ∀ repo ref clause, Graph.usedAction (ofConfiguration c) repo ref clause =
        (Graph.usedAction .default repo ref clause).map fun a =>
          { a with initialized := a.initialized || isTrusted c clause } := by
  intro before added after
  have hgate := stepGate_ofConfiguration c (s.uses.bind Uses.parse?)
    (stepScript (s.uses.bind Uses.parse?) s.run s.inputs)
  refine ⟨⟨rfl, rfl, rfl, rfl, rfl⟩, isSinkStep_ofConfiguration c _ _ _ _, fun hbefore => ?_,
    fun hbefore => ?_, usedAction_ofConfiguration c⟩
  · obtain ⟨gate, hsome⟩ := Option.isSome_iff_exists.mp hbefore
    rw [hsome, Option.some_or] at hgate
    simp [before, after, classifyStep, hgate, hsome]
  · have hnone := Option.isSome_eq_false_iff.mp hbefore
    rw [Option.isNone_iff_eq_none] at hnone
    rw [hnone, Option.none_or] at hgate
    simp [added, after, classifyStep, hgate]

end WorkflowAudit.Classification
