import WorkflowAudit.Proofs.Audit.TokenSpellings

/-! The classification of a step and the walks agree on what can be injected. A body is judged once
without any state, and again in each state that a walk comes with: whatever is found in a state has
been foreseen, and what stands for itself is found in all of them. -/

namespace WorkflowAudit

namespace Scope

variable {s : Scope} {bodies : List String} {body token : String}

/-- The body says that the outsider has a say whatever is known of names: there is no reading of it
and no path in it, or it mentions a context that stands for itself. -/
def SpeaksForItself (body : String) : Prop :=
  isUnreadable body = true ∨ ∃ token ∈ Context.tokens body, isRoot token = true

lemma implicated_ne_nil_iff :
    s.implicated bodies ≠ [] ↔ ∃ body ∈ bodies, s.resolveBody body ≠ [] := by
  constructor
  · intro h
    obtain ⟨i, hi⟩ := List.exists_mem_of_ne_nil _ h
    obtain ⟨body, hbody, hi⟩ := mem_implicated_iff.mp hi
    exact ⟨body, hbody, List.ne_nil_of_mem hi⟩
  · rintro ⟨body, hbody, h⟩
    obtain ⟨i, hi⟩ := List.exists_mem_of_ne_nil _ h
    exact List.ne_nil_of_mem (mem_implicated_iff.mpr ⟨body, hbody, hi⟩)

lemma exists_direct_resolveBody_iff :
    (∃ i ∈ s.resolveBody body, i.origin = .direct) ↔ SpeaksForItself body := by
  rw [resolveBody, SpeaksForItself]
  split
  · next hunreadable =>
    exact iff_of_true ⟨_, List.mem_singleton_self _, rfl⟩ (.inl hunreadable)
  · next hreadable =>
    have hroot (token : String) :
        isRoot token = true ↔ ∃ i ∈ s.resolveToken token, i.origin = .direct := by
      rw [← direct_mem_origins_iff (s := s), List.mem_map]
    rw [or_iff_right hreadable]
    simp only [hroot, List.mem_flatMap]
    constructor
    · rintro ⟨i, ⟨token, htoken, hi⟩, horigin⟩
      exact ⟨token, htoken, i, hi, horigin⟩
    · rintro ⟨token, htoken, i, hi, horigin⟩
      exact ⟨i, ⟨token, htoken, hi⟩, horigin⟩

lemma exists_direct_iff :
    (∃ i ∈ s.implicated bodies, i.origin = .direct) ↔ ∃ body ∈ bodies, SpeaksForItself body := by
  simp only [← exists_direct_resolveBody_iff (s := s), mem_implicated_iff]
  constructor
  · rintro ⟨i, ⟨body, hbody, hi⟩, horigin⟩
    exact ⟨body, hbody, i, hi, horigin⟩
  · rintro ⟨body, hbody, i, hi, horigin⟩
    exact ⟨i, ⟨body, hbody, hi⟩, horigin⟩

lemma resolveToken_of_isStatic (h : Classification.isStatic token = true) :
    s.resolveToken token = [] := by
  rw [resolveToken, resolve, if_pos h]

lemma isInjectableBody_of_resolveBody (h : s.resolveBody body ≠ []) :
    Classification.isInjectableBody body = true := by
  rw [Classification.isInjectableBody, Bool.or_eq_true, List.any_eq_true]
  rw [resolveBody] at h
  split at h
  · next hunreadable => exact .inl hunreadable
  · obtain ⟨i, hi⟩ := List.exists_mem_of_ne_nil _ h
    obtain ⟨token, htoken, hi⟩ := List.mem_flatMap.mp hi
    refine .inr ⟨token, htoken, ?_⟩
    cases hstatic : Classification.isStatic token with
    | false => rfl
    | true =>
      rw [resolveToken_of_isStatic hstatic] at hi
      cases hi

lemma exists_resolveToken_ne_nil (h : slotsOf token ≠ []) :
    ∃ s : Scope, s.resolveToken token ≠ [] := by
  obtain ⟨x, rest, hslots⟩ := List.exists_cons_of_ne_nil h
  -- A state that binds the first slot the token asks, and no other.
  refine ⟨empty.perform (filling x), ?_⟩
  have hask : (empty.perform (filling x)).ask (slotsOf token) = some ["github.head_ref"] := by
    rw [hslots, ask_cons, at?_filling, if_pos rfl]
    rfl
  intro hnil
  have hmem := mem_tokens_resolveToken hask (List.mem_singleton_self _)
  rw [hnil] at hmem
  cases hmem

end Scope

namespace Classification

open Scope (hiddenPrefixes)

lemma isInjectableBody_iff {body : String} :
    isInjectableBody body = true ↔
      (∃ s : Scope, s.resolveBody body ≠ []) ∨ ∃ token ∈ Context.tokens body,
        isStatic token = false ∧ ∃ front ∈ hiddenPrefixes, Text.startsWith front token = true := by
  constructor
  · intro h
    rw [isInjectableBody, Bool.or_eq_true, List.any_eq_true] at h
    obtain hunreadable | ⟨token, htoken, hstatic⟩ := h
    · refine .inl ⟨.empty, ?_⟩
      rw [Scope.resolveBody, if_pos (show Scope.isUnreadable body = true from hunreadable)]
      exact List.cons_ne_nil _ _
    rw [Bool.not_eq_true'] at hstatic
    have hstate (s : Scope) (hs : s.resolveToken token ≠ []) : s.resolveBody body ≠ [] := by
      obtain ⟨i, hi⟩ := List.exists_mem_of_ne_nil _ hs
      rw [Scope.resolveBody_of_mem s htoken]
      exact List.ne_nil_of_mem (List.mem_flatMap.mpr ⟨token, htoken, hi⟩)
    by_cases hroot : Scope.isRoot token = true
    · refine .inl ⟨.empty, hstate _ ?_⟩
      rw [Scope.resolveToken_of_isRoot _ hroot]
      exact List.cons_ne_nil _ _
    · rw [Bool.not_eq_true] at hroot
      by_cases hslots : Scope.slotsOf token = []
      · exact .inr ⟨token, htoken, hstatic, Scope.exists_hidden_front hstatic hroot hslots⟩
      · obtain ⟨s, hs⟩ := Scope.exists_resolveToken_ne_nil hslots
        exact .inl ⟨s, hstate s hs⟩
  · rintro (⟨s, hs⟩ | ⟨token, htoken, hstatic, -⟩)
    · exact Scope.isInjectableBody_of_resolveBody hs
    · rw [isInjectableBody, Bool.or_eq_true, List.any_eq_true]
      exact .inr ⟨token, htoken, by rw [hstatic]; rfl⟩

end Classification

namespace Audit

open WorkflowAudit.Graph
open Scope (isUnreadable_iff isRoot_iff implicated_ne_nil_iff)

lemma injectable_classifyStep (t : Classification.Tables) (d : Document.Step) :
    (Classification.classifyStep t d).injectable =
      (Classification.classifyStep t d).contexts.any Classification.isInjectableBody := rfl

/-- A step in which any state finds something is classified injectable, and the search for
injections is for the tag of those steps. A body that speaks for itself, and nothing else, gives a
direct context, the same in every state. The class holds besides only of steps with a context below
`steps.` or `jobs.`, of which no state knows anything. -/
theorem injectable_exact (t : Classification.Tables) (d : Document.Step) :
    let c := Classification.classifyStep t d
    (∀ s : Scope, s.implicated c.contexts ≠ [] → c.injectable = true ∧
      ∀ parent repo job, "injectable" ∈ (Node.step (.ofDocument t parent repo job d)).tags) ∧
    (∀ s : Scope, (∃ i ∈ s.implicated c.contexts, i.origin = .direct) ↔
      ∃ body ∈ c.contexts, Expression.parse? body = none ∧ Context.tokens body = [] ∨
        ∃ token ∈ Context.tokens body, Classification.isStatic token = false ∧
          ∀ front ∈ ["env.", "inputs.", "needs.", "steps.", "jobs."],
            Text.startsWith front token = false) ∧
    (c.injectable = true ↔ (∃ s : Scope, s.implicated c.contexts ≠ []) ∨
      ∃ body ∈ c.contexts, ∃ token ∈ Context.tokens body, Classification.isStatic token = false ∧
        ∃ front ∈ ["steps.", "jobs."], Text.startsWith front token = true) := by
  intro c
  have hexact : c.injectable = true ↔ (∃ s : Scope, s.implicated c.contexts ≠ []) ∨
      ∃ body ∈ c.contexts, ∃ token ∈ Context.tokens body, Classification.isStatic token = false ∧
        ∃ front ∈ ["steps.", "jobs."], Text.startsWith front token = true := by
    rw [injectable_classifyStep, List.any_eq_true]
    simp only [Classification.isInjectableBody_iff, implicated_ne_nil_iff, and_or_left, exists_or]
    refine or_congr_left ?_
    constructor
    · rintro ⟨body, hbody, s, hs⟩
      exact ⟨s, body, hbody, hs⟩
    · rintro ⟨s, body, hbody, hs⟩
      exact ⟨body, hbody, s, hs⟩
  refine ⟨fun s hs => ?_, fun s => ?_, hexact⟩
  · have hinjectable := hexact.mpr (.inl ⟨s, hs⟩)
    exact ⟨hinjectable, fun _ _ _ => injectable_mem_tags_iff.mpr hinjectable⟩
  · rw [Scope.exists_direct_iff]
    simp only [Scope.SpeaksForItself, isUnreadable_iff, isRoot_iff]
    rfl

end Audit

end WorkflowAudit
