import WorkflowAudit.Proofs.Expression.Layouts
import WorkflowAudit.Proofs.Text.Cuts

/-! An expression is read from a text exactly when the text spells it, and every way of writing a
tree down is read back as that tree. -/

namespace WorkflowAudit.Expression

open Token Text

/-! ### Trimming and fences -/

lemma unfence_of_fenced {cs inner : List Char} (h : trimChars cs = fenced inner) :
    unfence cs = trimChars inner := by
  have hfront := (afterFront_eq_some_iff _ _ _).mpr h
  have hback := (beforeBack_eq_some_iff ['\x7d', '\x7d'] _ inner).mpr rfl
  simp only [unfence, hfront, hback]

lemma unfence_of_bare {cs : List Char} (h : ∀ inner, trimChars cs ≠ fenced inner) :
    unfence cs = trimChars cs := by
  rw [unfence]
  split
  · next rest hfront =>
    split
    · next body hback =>
      rw [afterFront_eq_some_iff] at hfront
      rw [beforeBack_eq_some_iff] at hback
      rw [hback] at hfront
      exact absurd hfront (h body)
    · rfl
  · rfl

lemma body_iff (cs body : List Char) : Body cs body ↔ unfence cs = body := by
  constructor
  · rintro (h | h)
    · exact unfence_of_fenced h
    · exact unfence_of_bare h
  · rintro rfl
    by_cases h : ∃ inner, trimChars cs = fenced inner
    · obtain ⟨inner, h⟩ := h
      exact unfence_of_fenced h ▸ .fenced h
    · push Not at h
      exact unfence_of_bare h ▸ .bare h

lemma Layout.nil : Layout [] [] := .blank (by simp)

lemma Layout.cons {t : Token} {ts : List Token} {w cs : List Char} (hw : t.Spelled w)
    (h : Layout ts cs) : Layout (t :: ts) (w ++ cs) := by
  have hnone : ∀ c ∈ ([] : List Char), isSpace c = true := by simp
  exact .word hnone hw h

lemma Layout.indent {ts : List Token} {bs cs : List Char} (hb : ∀ c ∈ bs, isSpace c = true)
    (h : Layout ts cs) : Layout ts (bs ++ cs) := by
  cases h with
  | blank hc =>
    exact .blank fun c h => (List.mem_append.mp h).elim (hb c) (hc c)
  | word hc hw hl =>
    rw [← List.append_assoc]
    exact .word (fun c h => (List.mem_append.mp h).elim (hb c) (hc c)) hw hl

/-- The part of a layout from its first word to its last one. -/
structure Layout.Core (ts : List Token) (mid : List Char) : Prop where
  layout : Layout ts mid
  first : ∃ t c cs, mid = c :: cs ∧ StartsWord t c
  last : ∃ cs c, mid = cs ++ [c] ∧ isBlank c = false

lemma Layout.exists_core {ts : List Token} {cs : List Char} (h : Layout ts cs) (hne : ts ≠ []) :
    ∃ bs mid bs', cs = bs ++ (mid ++ bs') ∧ (∀ c ∈ bs, isSpace c = true) ∧
      (∀ c ∈ bs', isSpace c = true) ∧ Layout.Core ts mid := by
  induction h with
  | blank _ => exact absurd rfl hne
  | @word bs w cs t ts hb hw hl ih =>
    obtain ⟨c, w', hw', hc⟩ := hw.head
    by_cases hts : ts = []
    · subst hts
      cases hl with
      | blank hcs =>
        refine ⟨bs, w, cs, rfl, hb, hcs, ⟨?_, ⟨t, c, w', hw', hc⟩, hw.last⟩⟩
        simpa using Layout.cons hw .nil
    · obtain ⟨bs₁, mid, bs₂, rfl, h₁, h₂, hmid⟩ := ih hts
      obtain ⟨cs', d, hd, hblank⟩ := hmid.last
      refine ⟨bs, w ++ (bs₁ ++ mid), bs₂, by simp, hb, h₂, ⟨?_, ⟨t, c, _, by rw [hw']; rfl, hc⟩, ?_⟩⟩
      · exact .cons hw (hmid.layout.indent h₁)
      · exact ⟨w ++ (bs₁ ++ cs'), d, by simp [hd], hblank⟩

lemma Layout.core_trimChars {ts : List Token} {cs : List Char} (h : Layout ts cs) (hne : ts ≠ []) :
    Layout.Core ts (trimChars cs) := by
  obtain ⟨bs, mid, bs', rfl, hb, hb', hmid⟩ := h.exists_core hne
  obtain ⟨t, c, cs, hfirst, hc⟩ := hmid.first
  obtain ⟨ds, d, hlast, hd⟩ := hmid.last
  have hends : EndsOutside isBlank mid := by
    constructor
    · simpa [hfirst] using hc.visible
    · simpa [hlast] using hd
  have htrim : trimChars (bs ++ (mid ++ bs')) = mid :=
    between_eq hends (fun c h => isBlank_of_isSpace (hb c h)) fun c h => isBlank_of_isSpace (hb' c h)
  rwa [htrim]

lemma trimChars_fenced (cs : List Char) : trimChars (fenced cs) = fenced cs := by
  apply between_self
  constructor
  · intro c hc
    obtain rfl : '$' = c := by simpa [fenced] using hc
    rfl
  · intro c hc
    obtain rfl : '\x7d' = c := by simpa [fenced, List.getLast?_append, List.getLast?_cons] using hc
    rfl

lemma body_of_layout {ts : List Token} {cs : List Char} (h : Layout ts cs) (hne : ts ≠ []) :
    Body cs (trimChars cs) := by
  obtain ⟨t, c, rest, hfirst, hc⟩ := (h.core_trimChars hne).first
  apply Body.bare
  intro inner heq
  rw [hfirst, fenced] at heq
  exact hc.noFence (List.cons.inj heq).1

/-! ### Reading and writing -/

lemma parse?_ofList (cs : List Char) :
    parse? (String.ofList cs) = (Token.ofChars (unfence cs)).bind ofTokens? := by
  simp [parse?]

lemma parse?_eq_some_iff (s : String) (e : Expression) : parse? s = some e ↔ Spells s e := by
  rw [parse?, Option.bind_eq_some_iff]
  constructor
  · rintro ⟨ts, hts, he⟩
    have hp := (ofTokens?_eq_some_iff ts e).mp he
    exact ⟨_, ts, (body_iff _ _).mpr rfl, (ofChars_eq_some_iff hp.regular.apart).mp hts, hp⟩
  · rintro ⟨body, ts, hb, hl, hp⟩
    rw [(body_iff _ _).mp hb]
    exact ⟨ts, (ofChars_eq_some_iff hp.regular.apart).mpr hl, (ofTokens?_eq_some_iff ts e).mpr hp⟩

lemma spells_of_layout {ts : List Token} {cs : List Char} {e : Expression} (h : Layout ts cs)
    (hp : Phrase .disjunction ts e) :
    Spells (String.ofList cs) e ∧ Spells (String.ofList (fenced cs)) e := by
  have hcore := h.core_trimChars hp.ne_nil
  constructor
  · exact ⟨_, ts, by simpa using body_of_layout h hp.ne_nil, hcore.layout, hp⟩
  · refine ⟨_, ts, ?_, hcore.layout, hp⟩
    rw [String.toList_ofList]
    exact .fenced (trimChars_fenced cs)

lemma parse?_name {c : Char} {cs : List Char} (hc : startsName c = true)
    (hcs : ∀ d ∈ cs, continuesName d = true) :
    parse? (String.ofList (c :: cs)) = some (.name (String.ofList (c :: cs))) := by
  have hlayout : Layout [.name (String.ofList (c :: cs))] (c :: cs ++ []) :=
    .cons (.name hc hcs) .nil
  have hphrase : Phrase .disjunction [.name (String.ofList (c :: cs))]
      (.name (String.ofList (c :: cs))) :=
    .conjunction (.comparison (.operand (.name _)))
  rw [List.append_nil] at hlayout
  exact (parse?_eq_some_iff _ _).mpr (spells_of_layout hlayout hphrase).1

lemma Phrase.looser {level wanted : Level} {ts : List Token} {e : Expression}
    (h : Phrase level ts e) (hl : level.looseness ≤ wanted.looseness) : Phrase wanted ts e := by
  cases level <;> cases wanted <;> first
    | exact h
    | exact absurd hl (by decide)
    | exact .operand h
    | exact .comparison h
    | exact .conjunction h
    | exact .comparison (.operand h)
    | exact .conjunction (.comparison h)
    | exact .conjunction (.comparison (.operand h))

lemma phrase_grouped {ts : List Token} {e : Expression} (h : Phrase .disjunction ts e) (n : Nat) :
    Phrase .disjunction (grouped n ts) e := by
  induction n with
  | zero => exact h
  | succ n ih => exact (Phrase.group ih).looser (Nat.zero_le _)

lemma phrase_wrapped {level : Level} {ts : List Token} {e : Expression} (h : Phrase level ts e)
    (hlevel : e.level = level) (wanted : Level) (n : Nat) :
    Phrase wanted (grouped (n + if wanted.looseness < e.level.looseness then 1 else 0) ts) e := by
  subst hlevel
  have hloose : Phrase .disjunction ts e := h.looser (by cases e.level <;> decide)
  cases hn : n + if wanted.looseness < e.level.looseness then 1 else 0 with
  | zero =>
    apply h.looser
    split at hn <;> omega
  | succ m => exact (Phrase.group (phrase_grouped hloose m)).looser (Nat.zero_le _)

lemma wordsOfAll_eq_map (extra : Expression → Nat) (args : List Expression) :
    wordsOfAll extra args = args.map (words extra .disjunction) := by
  induction args with
  | nil => rfl
  | cons e rest ih => rw [wordsOfAll, ih, List.map_cons]

mutual

lemma phrase_words (extra : Expression → Nat) (wanted : Level) :
    (e : Expression) → Phrase wanted (words extra wanted e) e
  | .number x => by
    rw [words]
    exact phrase_wrapped (.number x) rfl wanted _
  | .text s => by
    rw [words]
    exact phrase_wrapped (.text s) rfl wanted _
  | .name s => by
    rw [words]
    exact phrase_wrapped (.name s) rfl wanted _
  | .call f args => by
    have h := Phrase.call f (args.map fun e => (words extra .disjunction e, e))
      (by simpa using phrase_wordsOfAll extra args)
    simp only [List.map_map, Function.comp_def, List.map_id_fun', id_eq] at h
    rw [words, wordsOfAll_eq_map]
    exact phrase_wrapped h rfl wanted _
  | .not e => by
    rw [words]
    exact phrase_wrapped (.not (phrase_words extra .operand e)) rfl wanted _
  | .binary .or a b => by
    rw [words]
    exact phrase_wrapped (.or (phrase_words extra _ a) (phrase_words extra _ b)) rfl wanted _
  | .binary .and a b => by
    rw [words]
    exact phrase_wrapped (.and (phrase_words extra _ a) (phrase_words extra _ b)) rfl wanted _
  | .binary .equal a b => by
    rw [words]
    exact phrase_wrapped (.equal (phrase_words extra _ a) (phrase_words extra _ b)) rfl wanted _
  | .binary .notEqual a b => by
    rw [words]
    exact phrase_wrapped (.notEqual (phrase_words extra _ a) (phrase_words extra _ b)) rfl wanted _

lemma phrase_wordsOfAll (extra : Expression → Nat) :
    (args : List Expression) → ∀ e ∈ args, Phrase .disjunction (words extra .disjunction e) e
  | [] => by simp
  | e :: rest => List.forall_mem_cons.mpr ⟨phrase_words extra _ e, phrase_wordsOfAll extra rest⟩

end

lemma forall_mem_grouped {ts : List Token} (h : ∀ t ∈ ts, HasSpelling t) (n : Nat) :
    ∀ t ∈ grouped n ts, HasSpelling t := by
  induction n with
  | zero => exact h
  | succ n ih =>
    intro t ht
    simp only [grouped, List.mem_cons, List.mem_append, List.not_mem_nil, or_false] at ht
    rcases ht with rfl | ht | rfl
    · exact ⟨_, .opening⟩
    · exact ih t ht
    · exact ⟨_, .closing⟩

lemma forall_mem_commaSeparated {parts : List (List Token)}
    (h : ∀ ts ∈ parts, ∀ t ∈ ts, HasSpelling t) : ∀ t ∈ commaSeparated parts, HasSpelling t := by
  induction parts with
  | nil => simp [commaSeparated]
  | cons ts rest ih =>
    by_cases hrest : rest = []
    · subst hrest
      exact h ts (by simp)
    · rw [commaSeparated_cons ts hrest]
      intro t ht
      rcases List.mem_append.mp ht with ht | ht
      · exact h ts (by simp) t ht
      · rcases List.mem_cons.mp ht with rfl | ht
        · exact ⟨_, .comma⟩
        · exact ih (fun us hu => h us (List.mem_cons_of_mem _ hu)) t ht

lemma forall_mem_joined {ts us : List Token} {t : Token} (hts : ∀ t ∈ ts, HasSpelling t)
    (ht : HasSpelling t) (hus : ∀ t ∈ us, HasSpelling t) : ∀ u ∈ ts ++ t :: us, HasSpelling u :=
  List.forall_mem_append.mpr ⟨hts, List.forall_mem_cons.mpr ⟨ht, hus⟩⟩

mutual

lemma spelling_words (extra : Expression → Nat) (wanted : Level) :
    (e : Expression) → e.IsSpellable → ∀ t ∈ words extra wanted e, HasSpelling t
  | .number x, h => by
    rw [words]
    have ht : HasSpelling (.number x) := h
    exact forall_mem_grouped (by simpa using ht) _
  | .text s, _ => by
    rw [words]
    have ht : HasSpelling (.text s) := ⟨_, by simpa using Spelled.text s.toList⟩
    exact forall_mem_grouped (by simpa using ht) _
  | .name s, h => by
    rw [words]
    have ht : HasSpelling (.name s) := h
    exact forall_mem_grouped (by simpa using ht) _
  | .call f args, h => by
    rw [words]
    obtain ⟨hf, hargs⟩ := h
    exact forall_mem_grouped (List.forall_mem_cons.mpr ⟨hf, forall_mem_joined
      (forall_mem_commaSeparated (spelling_wordsOfAll extra args hargs)) ⟨_, .closing⟩ (by simp)⟩) _
  | .not e, h => by
    rw [words]
    exact forall_mem_grouped (List.forall_mem_cons.mpr ⟨⟨_, .not⟩, spelling_words extra _ e h⟩) _
  | .binary .or a b, ⟨ha, hb⟩ => by
    rw [words]
    exact forall_mem_grouped (forall_mem_joined (spelling_words extra _ a ha) ⟨_, .or⟩
      (spelling_words extra _ b hb)) _
  | .binary .and a b, ⟨ha, hb⟩ => by
    rw [words]
    exact forall_mem_grouped (forall_mem_joined (spelling_words extra _ a ha) ⟨_, .and⟩
      (spelling_words extra _ b hb)) _
  | .binary .equal a b, ⟨ha, hb⟩ => by
    rw [words]
    exact forall_mem_grouped (forall_mem_joined (spelling_words extra _ a ha) ⟨_, .equal⟩
      (spelling_words extra _ b hb)) _
  | .binary .notEqual a b, ⟨ha, hb⟩ => by
    rw [words]
    exact forall_mem_grouped (forall_mem_joined (spelling_words extra _ a ha) ⟨_, .notEqual⟩
      (spelling_words extra _ b hb)) _

lemma spelling_wordsOfAll (extra : Expression → Nat) :
    (args : List Expression) → AreSpellable args →
      ∀ ts ∈ wordsOfAll extra args, ∀ t ∈ ts, HasSpelling t
  | [], _ => by simp [wordsOfAll]
  | e :: rest, ⟨he, hrest⟩ => by
    rw [wordsOfAll]
    exact List.forall_mem_cons.mpr
      ⟨spelling_words extra _ e he, spelling_wordsOfAll extra rest hrest⟩

end

lemma exists_layout {ts : List Token} (h : ∀ t ∈ ts, HasSpelling t) : ∃ cs, Layout ts cs := by
  induction ts with
  | nil => exact ⟨[], .nil⟩
  | cons t ts ih =>
    obtain ⟨ht, hts⟩ := List.forall_mem_cons.mp h
    obtain ⟨w, hw⟩ := ht
    obtain ⟨cs, hcs⟩ := ih hts
    exact ⟨w ++ cs, .cons hw hcs⟩

/-- A text is read as the tree that it spells, and as nothing if it spells none. Hence a tree is read
back from every layout of its words, whatever parentheses are put in, bare or in a fence; and a tree
whose leaves can be spelled has such a layout. -/
theorem parse?_exact :
    (∀ s e, parse? s = some e ↔ Spells s e) ∧ (∀ s, parse? s = none ↔ ∀ e, ¬ Spells s e) ∧
      ∀ (extra : Expression → Nat) (e : Expression),
        (e.IsSpellable → ∃ cs, Layout (words extra .disjunction e) cs) ∧
        ∀ cs, Layout (words extra .disjunction e) cs →
          parse? (String.ofList cs) = some e ∧ parse? (String.ofList (fenced cs)) = some e := by
  refine ⟨parse?_eq_some_iff, fun s => ?_, fun extra e => ⟨?_, ?_⟩⟩
  · simp only [← parse?_eq_some_iff, Option.eq_none_iff_forall_ne_some, ne_eq]
  · exact fun h => exists_layout (spelling_words extra .disjunction e h)
  · intro cs hcs
    obtain ⟨hbare, hfenced⟩ := spells_of_layout hcs (phrase_words extra .disjunction e)
    exact ⟨(parse?_eq_some_iff _ e).mpr hbare, (parse?_eq_some_iff _ e).mpr hfenced⟩

end WorkflowAudit.Expression
