import Mathlib.Data.List.Forall2
import WorkflowAudit.Classification.Tables
import WorkflowAudit.Proofs.Text.Cuts
import WorkflowAudit.Proofs.Text.LetterCase

/-! Patterns of contexts by the components of texts: a pattern covers what its components lead, and
a context stays static in other letters and with more components behind it. -/

namespace WorkflowAudit

namespace Context

/-- The texts between the dots of another one. -/
structure AreComponents (parts : List String) (s : String) : Prop where
  ne_nil : parts ≠ []
  dotless : ∀ part ∈ parts, '.' ∉ part.toList
  joined : Text.join "." parts = s

variable {parts ps cs ds : List String} {part s context : String}

lemma join_cons (h : parts ≠ []) :
    Text.join "." (part :: parts) = part ++ "." ++ Text.join "." parts := by
  cases parts with
  | nil => exact absurd rfl h
  | cons _ _ => rfl

lemma areComponents_singleton (h : '.' ∉ part.toList) : AreComponents [part] part where
  ne_nil := List.cons_ne_nil _ _
  dotless := by simpa using h
  joined := rfl

lemma AreComponents.cons (h : AreComponents parts s) (hpart : '.' ∉ part.toList) :
    AreComponents (part :: parts) (part ++ "." ++ s) where
  ne_nil := List.cons_ne_nil _ _
  dotless := List.forall_mem_cons.mpr ⟨hpart, h.dotless⟩
  joined := by rw [join_cons h.ne_nil, h.joined]

lemma split_cons (hpart : '.' ∉ part.toList) (s : String) :
    Text.split '.' (part ++ "." ++ s) = part :: Text.split '.' s := by
  have hchars : (part ++ "." ++ s).toList = part.toList ++ '.' :: s.toList := by simp
  rw [Text.split, hchars, Text.splitChars_append_cons hpart, List.map_cons, String.ofList_toList,
    Text.split]

lemma AreComponents.split_eq (h : AreComponents parts s) : Text.split '.' s = parts := by
  obtain ⟨hne, hdotless, rfl⟩ := h
  induction parts with
  | nil => exact absurd rfl hne
  | cons part parts ih =>
    obtain ⟨hpart, hrest⟩ := List.forall_mem_cons.mp hdotless
    by_cases hnil : parts = []
    · rw [hnil, Text.join, Text.split, Text.splitChars_of_notMem hpart, List.map_singleton,
        String.ofList_toList]
    · rw [join_cons hnil, split_cons hpart, ih hnil hrest]

lemma areComponents_split (s : String) : AreComponents (Text.split '.' s) s := by
  obtain ⟨chars, rfl⟩ : ∃ chars, s = String.ofList chars := ⟨s.toList, by simp⟩
  induction hn : chars.length using Nat.strong_induction_on generalizing chars with
  | _ n ih =>
    cases hcut : Text.cutFirstChars '.' chars with
    | none =>
      have hdot : '.' ∉ (String.ofList chars).toList := by
        simpa using Text.cutFirstChars_eq_none_iff.mp hcut
      have hparts := areComponents_singleton hdot
      rwa [hparts.split_eq]
    | some cut =>
      obtain ⟨before, after⟩ := cut
      obtain ⟨rfl, hbefore⟩ := Text.cutFirstChars_eq_some_iff.mp hcut
      have hafter := ih after.length (by simp at hn; omega) after rfl
      have hdot : '.' ∉ (String.ofList before).toList := by simpa using hbefore
      have htext : String.ofList (before ++ '.' :: after) =
          String.ofList before ++ "." ++ String.ofList after := by
        rw [← String.toList_inj]
        simp
      rw [htext, split_cons hdot]
      exact hafter.cons hdot

lemma areComponents_iff : AreComponents parts s ↔ parts = Text.split '.' s := by
  constructor
  · exact fun h => h.split_eq.symm
  · rintro rfl
    exact areComponents_split s

lemma AreComponents.append (h : AreComponents ps s) (h' : AreComponents cs context) :
    AreComponents (ps ++ cs) (s ++ "." ++ context) := by
  obtain ⟨hne, hdotless, rfl⟩ := h
  induction ps with
  | nil => exact absurd rfl hne
  | cons part ps ih =>
    obtain ⟨hpart, hrest⟩ := List.forall_mem_cons.mp hdotless
    by_cases hnil : ps = []
    · rw [hnil]
      exact h'.cons hpart
    · rw [join_cons hnil]
      simpa only [List.cons_append, String.append_assoc] using (ih hnil hrest).cons hpart

/-! ### What a pattern covers -/

/-- A star stands for any component, another one for itself in whatever letters. -/
def StandsFor (p c : String) : Prop := p = "*" ∨ Text.sameIgnoringCase p c = true

/-- The components of a pattern stand, one by one, for the first components of a context. -/
def Leads (pattern context : String) : Prop :=
  ∃ ps cs front, AreComponents ps pattern ∧ AreComponents cs context ∧ front <+: cs ∧
    List.Forall₂ StandsFor ps front

lemma leads_iff {pattern : String} :
    Leads pattern context ↔ ∃ front, front <+: Text.split '.' context ∧
      List.Forall₂ StandsFor (Text.split '.' pattern) front := by
  simp only [Leads, areComponents_iff]
  constructor
  · rintro ⟨_, _, front, rfl, rfl, hfront, hall⟩
    exact ⟨front, hfront, hall⟩
  · rintro ⟨front, hfront, hall⟩
    exact ⟨_, _, front, rfl, rfl, hfront, hall⟩

lemma Leads.append {pattern : String} (h : Leads pattern context) (rest : String) :
    Leads pattern (context ++ "." ++ rest) := by
  obtain ⟨ps, cs, front, hps, hcs, hfront, hall⟩ := h
  have hmore := hcs.append (areComponents_split rest)
  exact ⟨ps, _, front, hps, hmore, hfront.trans (List.prefix_append _ _), hall⟩

namespace Pattern

variable {p : Pattern}

lemma coversComponents_iff :
    coversComponents ps cs = true ↔ ∃ front, front <+: cs ∧ List.Forall₂ StandsFor ps front := by
  induction ps generalizing cs with
  | nil => exact iff_of_true (by rw [coversComponents]) ⟨[], List.nil_prefix, .nil⟩
  | cons p ps ih =>
    cases cs with
    | nil =>
      refine iff_of_false (by simp [coversComponents]) ?_
      rintro ⟨front, hfront, hall⟩
      obtain rfl := List.prefix_nil.mp hfront
      cases hall
    | cons c cs =>
      have hhead : (p == "*" || Text.sameIgnoringCase p c) = true ↔ StandsFor p c := by
        rw [Bool.or_eq_true, beq_iff_eq, StandsFor]
      rw [coversComponents, Bool.and_eq_true, hhead, ih]
      constructor
      · rintro ⟨hpc, front, hfront, hall⟩
        exact ⟨c :: front, (List.prefix_cons_inj c).mpr hfront, .cons hpc hall⟩
      · rintro ⟨front, hfront, hall⟩
        cases hall with
        | cons hpc hall =>
          obtain ⟨rfl, hrest⟩ := List.cons_prefix_cons.mp hfront
          exact ⟨hpc, _, hrest, hall⟩

lemma components_of_ofString? (h : ofString? s = some p) : p.components = Text.split '.' s := by
  rw [ofString?, Option.ite_none_right_eq_some, Option.some.injEq] at h
  rw [← h.2]
  rfl

lemma covers_iff (h : ofString? s = some p) : p.covers context = true ↔ Leads s context := by
  rw [covers, components_of_ofString? h, coversComponents_iff, leads_iff]

lemma coversComponents_congr (h : List.Forall₂ (fun c d => Text.sameIgnoringCase c d = true) cs ds)
    (ps : List String) : coversComponents ps cs = coversComponents ps ds := by
  induction h generalizing ps with
  | nil => rfl
  | cons hcd _ ih =>
    cases ps with
    | nil => rw [coversComponents, coversComponents]
    | cons p ps =>
      rw [coversComponents, coversComponents, Text.sameIgnoringCase_congr_right hcd, ih]

lemma covers_congr {a b : String} (h : Text.sameIgnoringCase a b = true) (p : Pattern) :
    p.covers a = p.covers b :=
  coversComponents_congr (Text.forall₂_split (by decide) h) p.components

end Pattern

end Context

namespace Classification

open Context (Pattern Leads)

lemma isStatic_congr {a b : String} (h : Text.sameIgnoringCase a b = true) :
    isStatic a = isStatic b := by
  rw [isStatic, isStatic, funext (Pattern.covers_congr h)]

/-- Each of the static contexts is a pattern. -/
lemma exists_pattern_of_mem {s : String} (h : s ∈ staticContexts) :
    ∃ p, Pattern.ofString? s = some p := by
  have hall : ∀ s ∈ staticContexts, (Pattern.ofString? s).isSome = true := by decide +kernel
  exact Option.isSome_iff_exists.mp (hall s h)

lemma isStatic_iff {context : String} :
    isStatic context = true ↔ ∃ s ∈ staticContexts, Leads s context := by
  rw [isStatic, List.any_eq_true]
  constructor
  · rintro ⟨p, hp, hcovers⟩
    obtain ⟨s, hs, hread⟩ := List.mem_filterMap.mp hp
    exact ⟨s, hs, (Pattern.covers_iff hread).mp hcovers⟩
  · rintro ⟨s, hs, hleads⟩
    obtain ⟨p, hread⟩ := exists_pattern_of_mem hs
    exact ⟨p, List.mem_filterMap.mpr ⟨s, hs, hread⟩, (Pattern.covers_iff hread).mpr hleads⟩

/-- A pattern covers the contexts that it leads component by component, no other. So a context is
static exactly when one of the static ones leads it, in whatever letters it is written, and stays
static with more components behind it. -/
theorem patterns_lead :
    (∀ (s : String) (p : Pattern), Pattern.ofString? s = some p →
      ∀ context, p.covers context = true ↔ Leads s context) ∧
    (∀ context, isStatic context = true ↔ ∃ s ∈ staticContexts, Leads s context) ∧
    (∀ a b, Text.sameIgnoringCase a b = true → isStatic a = isStatic b) ∧
    ∀ context rest, isStatic context = true → isStatic (context ++ "." ++ rest) = true := by
  refine ⟨fun s p hread context => Pattern.covers_iff hread, fun context => isStatic_iff,
    fun a b hsame => isStatic_congr hsame, fun context rest hstatic => ?_⟩
  obtain ⟨s, hs, hleads⟩ := isStatic_iff.mp hstatic
  exact isStatic_iff.mpr ⟨s, hs, hleads.append rest⟩

/-- A reference is static in other letters and with a component behind it; the context of the branch
an outsider names only begins with the same characters. -/
theorem ref_leads_by_components :
    let p : Pattern := ⟨["github", "ref"]⟩
    Pattern.ofString? "github.ref" = some p ∧ Leads "github.ref" "GitHub.REF.x" ∧
      ¬ Leads "github.ref" "github.reference" ∧ isStatic "github.ref" = true ∧
      Text.sameIgnoringCase "github.ref" "GITHUB.ref" = true ∧ isStatic "GITHUB.ref" = true ∧
      isStatic "github.ref.x" = true ∧ ¬ isStatic "github.head_ref" = true := by
  intro p
  obtain ⟨hcovers, -, hletters, hmore⟩ := patterns_lead
  have hread : Pattern.ofString? "github.ref" = some p := by decide +kernel
  have hstatic : isStatic "github.ref" = true := by decide +kernel
  have hsame : Text.sameIgnoringCase "github.ref" "GITHUB.ref" = true := by decide +kernel
  refine ⟨hread, (hcovers _ p hread _).mp (by decide +kernel),
    mt (hcovers _ p hread _).mpr (by decide +kernel), hstatic, hsame, ?_, hmore _ "x" hstatic, ?_⟩
  · exact (hletters _ _ hsame).symm.trans hstatic
  · decide +kernel

end Classification

end WorkflowAudit
