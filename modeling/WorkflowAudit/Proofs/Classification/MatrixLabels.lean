import WorkflowAudit.Classification.Job
import WorkflowAudit.Proofs.Context.Interpolation
import WorkflowAudit.Proofs.Text.Parts

/-! Labels of machines that come from the matrix of a job. Labels and values of a matrix are judged by
two recursions over YAML; on values that are plain they agree, so a label that names a key of the
matrix counts as one of the values that the key takes. -/

namespace WorkflowAudit

namespace Yaml

mutual

/-- Without mappings and without text that holds an expression, at any depth of sequences. A tag
hides what it stands at. -/
def isPlain : Yaml → Bool
  | .text s => !Classification.hasExpression s
  | .sequence vs => arePlain vs
  | .mapping _ => false
  | _ => true

def arePlain : List Yaml → Bool
  | [] => true
  | v :: rest => isPlain v && arePlain rest

end

end Yaml

/-- The job with another label or other labels. -/
def Document.Job.runningOn (job : Document.Job) (labels : Yaml) : Document.Job :=
  { job with runsOn := some labels }

namespace Classification

/-- A name that an expression can look up in a matrix. -/
structure MatrixKey where
  name : String
  ne_empty : name ≠ ""
  isPathChar : ∀ c ∈ name.toList, Context.isPathChar c = true

/-- The values that a key takes in a matrix: its own, and those of the included entries. -/
inductive Takes (key : String) (es : List (Yaml × Yaml)) (v : Yaml) : Prop
  | own : Yaml.lookup key es = some v → Takes key es v
  | included {entries entry} : Yaml.lookup "include" es = some (.sequence entries) →
      entry ∈ entries → Yaml.get? key entry = some v → Takes key es v

namespace MatrixKey

def body (k : MatrixKey) : String := "matrix." ++ k.name

/-- The label that stands for the values of the key. -/
def label (k : MatrixKey) : Yaml := .text ("$\x7b\x7b " ++ k.body ++ " \x7d\x7d")

variable (k : MatrixKey)

lemma toList_body : k.body.toList = "matrix.".toList ++ k.name.toList := String.toList_append

lemma matrixKey_body : matrixKey k.body = some k.name := by
  have hfront := (Text.afterFront_eq_some_iff _ _ _).mpr k.toList_body
  have hkey : (!k.name.toList.isEmpty && k.name.toList.all Context.isPathChar) = true := by
    simpa [k.ne_empty] using k.isPathChar
  rw [matrixKey, hfront]
  dsimp only
  rw [if_pos hkey, String.ofList_toList]

lemma passes_body : Context.Passes false false k.body.toList := by
  have hroot : Context.Passes false false "matrix.".toList :=
    Context.passes_of_class (p := "matrix.".toList.contains) rfl rfl
      (List.all_eq_true.mp (by decide))
  have hname : Context.Passes false false k.name.toList :=
    Context.passes_of_class rfl rfl k.isPathChar
  rw [toList_body]
  exact hroot.append hname

lemma endsOutside_body : Text.EndsOutside Text.isBlank k.body.toList := by
  rw [toList_body]
  constructor
  · intro c hc
    obtain rfl : 'm' = c := by simpa using hc
    rfl
  · intro c hc
    have hmem : c ∈ k.name.toList := by
      rw [List.getLast?_append_of_ne_nil _ (by simpa using k.ne_empty)] at hc
      exact List.mem_of_getLast? hc
    cases hblank : Text.isBlank c with
    | false => rfl
    | true =>
      have hpath : Context.isPathChar c = false := Text.eq_false_of_isBlank (by decide +kernel) hblank
      exact absurd (k.isPathChar c hmem) (by simp [hpath])

lemma bodies_label : Context.bodies ("$\x7b\x7b " ++ k.body ++ " \x7d\x7d") = [k.body] := by
  have hblank : Context.Passes false false [' '] := Context.passes_of_ne (by decide) (by decide)
  have hpasses := (hblank.append (k.passes_body.append hblank)).bodies_fenced
  have htext : "$\x7b\x7b " ++ k.body ++ " \x7d\x7d" =
      String.ofList (Expression.fenced ([' '] ++ (k.body.toList ++ [' ']))) := by
    rw [← String.toList_inj]
    simp [Expression.fenced]
  have htrim : Text.trimChars ([' '] ++ (k.body.toList ++ [' '])) = k.body.toList :=
    Text.between_eq k.endsOutside_body (List.forall_mem_singleton.mpr rfl)
      (List.forall_mem_singleton.mpr rfl)
  rw [htext, hpasses, htrim, String.ofList_toList]

lemma hasExpression_label : hasExpression ("$\x7b\x7b " ++ k.body ++ " \x7d\x7d") = true := by
  rw [hasExpression, Text.contains_iff]
  refine List.IsPrefix.isInfix ⟨' ' :: (k.body.toList ++ " \x7d\x7d".toList), ?_⟩
  simp

end MatrixKey

variable {matrix : Option Yaml} {v : Yaml} {vs labels : List Yaml} {es : List (Yaml × Yaml)}
  {key : String}

mutual

lemma runsOnSelfHosted_of_isPlain (matrix : Option Yaml) : (v : Yaml) → v.isPlain = true →
    runsOnSelfHosted matrix v = matrixValueSelfHosted v
  | .text s, h => by
    have hs : hasExpression s = false := by simpa [Yaml.isPlain] using h
    simp [runsOnSelfHosted, matrixValueSelfHosted, hs]
  | .sequence vs, h => by
    rw [Yaml.isPlain] at h
    rw [runsOnSelfHosted, matrixValueSelfHosted]
    exact anySelfHosted_of_arePlain matrix vs h
  | .mapping es, h => by simp [Yaml.isPlain] at h
  | .null, _ | .bool _, _ | .number _, _ | .tagged _ _, _ => by
    simp [runsOnSelfHosted, matrixValueSelfHosted]

lemma anySelfHosted_of_arePlain (matrix : Option Yaml) : (vs : List Yaml) →
    Yaml.arePlain vs = true → anySelfHosted matrix vs = matrixValuesSelfHosted vs
  | [], _ => by simp [anySelfHosted, matrixValuesSelfHosted]
  | v :: rest, h => by
    rw [Yaml.arePlain, Bool.and_eq_true] at h
    rw [anySelfHosted, matrixValuesSelfHosted, runsOnSelfHosted_of_isPlain matrix v h.1,
      anySelfHosted_of_arePlain matrix rest h.2]

end

lemma anySelfHosted_iff : anySelfHosted matrix labels = true ↔
    ∃ l ∈ labels, runsOnSelfHosted matrix l = true := by
  induction labels with
  | nil => simp [anySelfHosted]
  | cons l rest ih => simp [anySelfHosted, ih]

lemma jobSelfHosted_runningOn (job : Document.Job) (v : Yaml) :
    jobSelfHosted (job.runningOn v) = runsOnSelfHosted job.matrix v := rfl

lemma takes_iff_of_included {entries : List Yaml}
    (h : Yaml.lookup "include" es = some (.sequence entries)) : Takes key es v ↔
      v ∈ (Yaml.lookup key es).toList ++ entries.filterMap (Yaml.get? key) := by
  rw [List.mem_append, Option.mem_toList, List.mem_filterMap]
  constructor
  · rintro (hown | @⟨entries', entry, hentries, hentry, hv⟩)
    · exact .inl hown
    · rw [h] at hentries
      cases hentries
      exact .inr ⟨entry, hentry, hv⟩
  · rintro (hown | ⟨entry, hentry, hv⟩)
    · exact .own hown
    · exact .included h hentry hv

lemma takes_iff_of_not_included (h : ∀ entries, Yaml.lookup "include" es ≠ some (.sequence entries)) :
    Takes key es v ↔ v ∈ (Yaml.lookup key es).toList := by
  rw [Option.mem_toList]
  constructor
  · rintro (hown | ⟨hentries, -, -⟩)
    · exact hown
    · exact absurd hentries (h _)
  · exact .own

lemma expressionSelfHosted_iff (k : MatrixKey)
    (hinclude : ∀ s, Yaml.lookup "include" es ≠ some (.text s)) :
    expressionSelfHosted (some (.mapping es)) k.body = true ↔
      ∃ v, Takes k.name es v ∧ matrixValueSelfHosted v = true := by
  unfold expressionSelfHosted
  rw [k.matrixKey_body]
  dsimp only
  split
  · next entries hentries => simp only [takes_iff_of_included hentries, List.any_eq_true]
  · next s hs => exact absurd hs (hinclude s)
  · next hother _ => simp only [takes_iff_of_not_included hother, List.any_eq_true]

lemma runsOnSelfHosted_label (k : MatrixKey) :
    runsOnSelfHosted matrix k.label = expressionSelfHosted matrix k.body := by
  simp [MatrixKey.label, runsOnSelfHosted, k.hasExpression_label, k.bodies_label]

/-- A label that names a key of the matrix stands for the values of that key: the job runs on a
machine of its owner just when it would with one of them as its label, as long as the values are
plain and the included entries are listed. Labels in a list count one by one. -/
theorem labels_written_out (job : Document.Job) :
    (∀ (k : MatrixKey) (es : List (Yaml × Yaml)), job.matrix = some (.mapping es) →
      (∀ s, Yaml.lookup "include" es ≠ some (.text s)) →
      (∀ v, Takes k.name es v → v.isPlain = true) →
      (jobSelfHosted (job.runningOn k.label) = true ↔
        ∃ v, Takes k.name es v ∧ jobSelfHosted (job.runningOn v) = true)) ∧
    ∀ labels, jobSelfHosted (job.runningOn (.sequence labels)) = true ↔
      ∃ l ∈ labels, jobSelfHosted (job.runningOn l) = true := by
  constructor
  · intro k es hmatrix hinclude hplain
    simp only [jobSelfHosted_runningOn, hmatrix]
    rw [runsOnSelfHosted_label, expressionSelfHosted_iff k hinclude]
    refine exists_congr fun v => and_congr_right fun hv => ?_
    rw [runsOnSelfHosted_of_isPlain _ v (hplain v hv)]
  · intro labels
    simp only [jobSelfHosted_runningOn]
    rw [runsOnSelfHosted, anySelfHosted_iff]

theorem included_label_counts :
    let os : MatrixKey := ⟨"os", by decide, List.all_eq_true.mp (by decide)⟩
    let arm : Yaml := .sequence [.text "self-hosted", .text "arm"]
    let entries : List (Yaml × Yaml) :=
      [(.text "os", .sequence [.text "ubuntu-latest", .null]),
        (.text "include", .sequence [.mapping [(.text "os", arm)], .text "os"])]
    let job : Document.Job :=
      ⟨"build", none, [], [], [], [], none, none, none, none, some (.mapping entries), []⟩
    (∀ s, Yaml.lookup "include" entries ≠ some (.text s)) ∧
      (∀ v, Takes os.name entries v → v.isPlain = true) ∧
      jobSelfHosted (job.runningOn os.label) = true ∧
      ∃ v, Takes os.name entries v ∧ jobSelfHosted (job.runningOn v) = true := by
  intro os arm entries job
  have hincluded : Yaml.lookup "include" entries =
      some (.sequence [.mapping [(.text "os", arm)], .text "os"]) := rfl
  have hlisted (s : String) : Yaml.lookup "include" entries ≠ some (.text s) := by
    rw [hincluded]
    simp
  have hplain (v : Yaml) (hv : Takes os.name entries v) : v.isPlain = true := by
    have hvalues : ∀ v ∈ [.sequence [.text "ubuntu-latest", .null], arm], v.isPlain = true := by
      decide
    exact hvalues v ((takes_iff_of_included hincluded).mp hv)
  have hlabel : jobSelfHosted (job.runningOn os.label) = true := by decide +kernel
  exact ⟨hlisted, hplain, hlabel,
    ((labels_written_out job).1 os entries rfl hlisted hplain).mp hlabel⟩

end Classification

end WorkflowAudit
