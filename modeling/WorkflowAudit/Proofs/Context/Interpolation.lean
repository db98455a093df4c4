import WorkflowAudit.Context.Scan
import WorkflowAudit.Proofs.Expression.Reading
import WorkflowAudit.Proofs.Text.Cuts

/-! Texts put together from literal text and fenced bodies. The scan for fences counts quotes and
braces by hand; on a body that spells a tree it finds the closing fence where the grammar ends, and
so it takes apart what was put together. -/

namespace WorkflowAudit.Context

open Expression (Layout Phrase fenced)
open Expression.Token (doubled isSpace continuesName Spelled)

def opening : List Char := ['$', '\x7b', '\x7b']

/-- Any text without an opening fence. -/
structure Literal where
  chars : List Char
  noOpening : ¬ opening <:+: chars

/-- A text that spells a tree, between blanks. -/
structure SpelledBody where
  chars : List Char
  tree : Expression
  isSpelled : ∃ ts, Layout ts (Text.trimChars chars) ∧ Phrase .disjunction ts tree

/-- Literal text and fenced bodies in turn. -/
structure Interpolation where
  passages : List (Literal × SpelledBody)
  last : Literal

def Interpolation.text (i : Interpolation) : List Char :=
  i.passages.flatMap (fun p => p.1.chars ++ fenced p.2.chars) ++ i.last.chars

variable {q q' q'' : Bool} {c : Char} {cs ds rest : List Char} {t : Expression.Token}
  {ts : List Expression.Token} {fuel : Nat}

/-! ### Bodies that keep their fence -/

/-- The scan for the closing fence runs through a text, from one state of quotation to another. -/
def Passes (q q' : Bool) (cs : List Char) : Prop :=
  ∀ rest, fencedBody q (cs ++ rest) = (fencedBody q' rest).map fun r => (cs ++ r.1, r.2)

lemma Passes.nil : Passes q q [] := by
  intro rest
  simp

lemma Passes.append (h : Passes q q' cs) (h' : Passes q' q'' ds) : Passes q q'' (cs ++ ds) := by
  intro rest
  rw [List.append_assoc, h, h', Option.map_map]
  simp [Function.comp_def]

lemma passes_quote : Passes q (!q) ['\''] := by
  intro rest
  simp [fencedBody]

lemma passes_of_ne (hquote : c ≠ '\'') (hbrace : c ≠ '\x7d') : Passes q q [c] := by
  intro rest
  simp [fencedBody, hquote, hbrace]

lemma passes_quoted (hquote : c ≠ '\'') : Passes true true [c] := by
  intro rest
  simp [fencedBody, hquote]

lemma Passes.fencedBody_eq (h : Passes false false cs) (rest : List Char) :
    fencedBody false (cs ++ '\x7d' :: '\x7d' :: rest) = some (cs, rest) := by
  rw [h]
  simp [fencedBody]

lemma passes_of_class {p : Char → Bool} (hquote : p '\'' = false) (hbrace : p '\x7d' = false)
    (h : ∀ c ∈ cs, p c = true) : Passes q q cs := by
  induction cs with
  | nil => exact .nil
  | cons c cs ih =>
    obtain ⟨hc, hcs⟩ := List.forall_mem_cons.mp h
    refine (passes_of_ne ?_ ?_).append (ih hcs) <;> rintro rfl
    · exact Bool.false_ne_true (hquote.symm.trans hc)
    · exact Bool.false_ne_true (hbrace.symm.trans hc)

lemma passes_doubled (s : List Char) : Passes true true (doubled s) := by
  induction s with
  | nil => exact .nil
  | cons c s ih =>
    rw [Expression.Token.doubled_cons]
    by_cases hc : c = '\''
    · rw [if_pos hc]
      -- The first of the two quotes closes the quotation, the second opens it again.
      exact (passes_quote.append passes_quote).append ih
    · rw [if_neg hc]
      exact (passes_quoted hc).append ih

lemma passes_of_spelled (h : t.Spelled cs) : Passes false false cs := by
  have symbol {cs : List Char} (h : cs.all "|&=!(),.".toList.contains = true) :
      Passes false false cs :=
    passes_of_class rfl rfl (List.all_eq_true.mp h)
  have digits {ds : List Char} (h : ∀ c ∈ ds, c.isDigit = true) : Passes false false ds :=
    passes_of_class rfl rfl h
  have name {c : Char} {cs : List Char} (hc : Expression.Token.startsName c = true)
      (hcs : ∀ d ∈ cs, continuesName d = true) : Passes false false (c :: cs) :=
    passes_of_class (p := continuesName) rfl rfl
      (List.forall_mem_cons.mpr ⟨Expression.Token.continuesName_of_startsName hc, hcs⟩)
  cases h with
  | whole _ hds => exact digits hds
  | decimal _ hds _ hfs =>
    have point : Passes false false ['.'] := symbol rfl
    exact (digits hds).append (point.append (digits hfs))
  | text s => exact passes_quote.append ((passes_doubled s).append passes_quote)
  | name hc hcs => exact name hc hcs
  | call hc hcs =>
    have parenthesis : Passes false false ['('] := symbol rfl
    exact (name hc hcs).append parenthesis
  | _ => exact symbol rfl

lemma passes_of_layout (h : Layout ts cs) : Passes false false cs := by
  induction h with
  | blank hbs => exact passes_of_class rfl rfl hbs
  | word hbs hw _ ih =>
    exact (passes_of_class rfl rfl hbs).append ((passes_of_spelled hw).append ih)

namespace SpelledBody

lemma passes (b : SpelledBody) : Passes false false b.chars := by
  obtain ⟨ts, hlayout, -⟩ := b.isSpelled
  obtain ⟨front, back, hcut, hfront, hback⟩ := Text.exists_between Text.isBlank b.chars
  have hfronts : Passes false false front := passes_of_class rfl rfl hfront
  have hbacks : Passes false false back := passes_of_class rfl rfl hback
  rw [hcut]
  exact hfronts.append ((passes_of_layout hlayout).append hbacks)

lemma tokens_eq (b : SpelledBody) :
    tokens (String.ofList (Text.trimChars b.chars)) = b.tree.contexts := by
  obtain ⟨ts, hlayout, hphrase⟩ := b.isSpelled
  have hparse := (Expression.parse?_eq_some_iff _ _).mpr
    (Expression.spells_of_layout hlayout hphrase).1
  rw [tokens, hparse]

end SpelledBody

/-! ### Steps of the scan -/

lemma bodiesFrom_of_noOpening (h : ¬ opening <+: c :: cs) (n : Nat) :
    bodiesFrom (n + 1) (c :: cs) = bodiesFrom n cs := by
  have hnone : Text.afterFront opening (c :: cs) = none := by
    rw [Option.eq_none_iff_forall_ne_some]
    intro after hafter
    exact h ⟨after, ((Text.afterFront_eq_some_iff _ _ _).mp hafter).symm⟩
  rw [opening] at hnone
  rw [bodiesFrom, hnone]

lemma bodiesFrom_opening (rest : List Char) (n : Nat) :
    bodiesFrom (n + 1) (opening ++ rest) =
      ((fencedBody false rest).map fun r => Text.trimChars r.1 :: bodiesFrom n r.2).getD [] := by
  have hsome := (Text.afterFront_eq_some_iff opening (opening ++ rest) rest).mpr rfl
  rw [opening, List.cons_append] at hsome ⊢
  rw [bodiesFrom, hsome]
  cases h : fencedBody false rest <;> simp only [h, Option.map_none, Option.map_some] <;> rfl

lemma noOpening_append (hcs : ¬ opening <:+: c :: cs) (hrest : rest.head? ≠ some '\x7b') :
    ¬ opening <+: c :: (cs ++ rest) := by
  rintro ⟨after, hafter⟩
  -- Of the three characters of an opening the literal would hold one, two or all.
  rcases cs with _ | ⟨d, _ | ⟨d', cs⟩⟩ <;> simp only [opening, List.cons_append, List.nil_append,
    List.cons.injEq] at hafter
  · exact hrest (by rw [← hafter.2]; rfl)
  · exact hrest (by rw [← hafter.2.2]; rfl)
  · obtain ⟨rfl, rfl, rfl, -⟩ := hafter
    exact hcs ⟨[], cs, rfl⟩

lemma bodiesFrom_append (hcs : ¬ opening <:+: cs) (hrest : rest.head? ≠ some '\x7b') (n : Nat) :
    bodiesFrom (cs.length + n) (cs ++ rest) = bodiesFrom n rest := by
  induction cs with
  | nil => rw [List.length_nil, Nat.zero_add, List.nil_append]
  | cons c cs ih =>
    have htail : ¬ opening <:+: cs := fun h => hcs (h.trans (List.suffix_cons c cs).isInfix)
    rw [List.length_cons, Nat.add_right_comm, List.cons_append,
      bodiesFrom_of_noOpening (noOpening_append hcs hrest), ih htail]

lemma Passes.bodiesFrom_fenced (h : Passes false false cs) (rest : List Char) (n : Nat) :
    bodiesFrom (n + 1) (fenced cs ++ rest) = Text.trimChars cs :: bodiesFrom n rest := by
  have hopen : fenced cs ++ rest = opening ++ (cs ++ '\x7d' :: '\x7d' :: rest) := by
    simp [fenced, opening]
  rw [hopen, bodiesFrom_opening, h.fencedBody_eq, Option.map_some, Option.getD_some]

lemma Passes.bodies_fenced (h : Passes false false cs) :
    bodies (String.ofList (fenced cs)) = [String.ofList (Text.trimChars cs)] := by
  have hfrom := h.bodiesFrom_fenced [] (fenced cs).length
  rw [List.append_nil] at hfrom
  rw [bodies, String.toList_ofList, hfrom]
  rfl

lemma bodiesFrom_text (passages : List (Literal × SpelledBody)) (last : Literal)
    (h : (Interpolation.text ⟨passages, last⟩).length < fuel) :
    bodiesFrom fuel (Interpolation.text ⟨passages, last⟩) =
      passages.map fun p => Text.trimChars p.2.chars := by
  induction passages generalizing fuel with
  | nil =>
    obtain ⟨n, rfl⟩ : ∃ n, fuel = last.chars.length + n :=
      Nat.exists_eq_add_of_le (by simpa [Interpolation.text] using h.le)
    have hlast : bodiesFrom (last.chars.length + n) (last.chars ++ []) = bodiesFrom n [] :=
      bodiesFrom_append last.noOpening (by simp) n
    rw [List.append_nil] at hlast
    rw [Interpolation.text, List.flatMap_nil, List.nil_append, hlast]
    cases n <;> rfl
  | cons p passages ih =>
    obtain ⟨lit, body⟩ := p
    have htext : Interpolation.text ⟨(lit, body) :: passages, last⟩ =
        lit.chars ++ (fenced body.chars ++ Interpolation.text ⟨passages, last⟩) := by
      simp [Interpolation.text]
    rw [htext, List.length_append, List.length_append] at h
    have hfence : 0 < (fenced body.chars).length := by simp [fenced]
    obtain ⟨n, rfl⟩ : ∃ n, fuel = lit.chars.length + (n + 1) :=
      ⟨fuel - lit.chars.length - 1, by omega⟩
    rw [htext, bodiesFrom_append lit.noOpening (by simp [fenced]), body.passes.bodiesFrom_fenced,
      ih (by omega), List.map_cons]

namespace Interpolation

lemma bodies_text (i : Interpolation) :
    bodies (String.ofList i.text) =
      i.passages.map fun p => String.ofList (Text.trimChars p.2.chars) := by
  rw [bodies, String.toList_ofList, bodiesFrom_text _ _ (Nat.lt_succ_self _), List.map_map]
  rfl

end Interpolation

end WorkflowAudit.Context
