import WorkflowAudit.Context.Scan
import WorkflowAudit.Proofs.Expression.Reading
import WorkflowAudit.Proofs.Text.Cuts

/-! Paths of a context, with some components written as an index in brackets. A path without brackets
is an expression and is read as one; a path with brackets is none, and is scanned. Both ways lead to
the same token. -/

namespace WorkflowAudit.Context

open Expression.Token (EndsAt startsName continuesName)

def isNameChar (c : Char) : Bool := c.isAlphanum || c = '-' || c = '_'

structure Name where
  chars : List Char
  ne_nil : chars ≠ []
  isNameChar : ∀ c ∈ chars, isNameChar c = true

structure Blanks where
  chars : List Char
  isBlank : ∀ c ∈ chars, Text.isBlank c = true

/-- What may stand in brackets: a name in either quotes, a number or a star. -/
inductive Index where
  | single (name : Name)
  | double (name : Name)
  | number (digits : List Char) (ne_nil : digits ≠ []) (isDigit : ∀ c ∈ digits, c.isDigit = true)
  | star

def Index.text : Index → List Char
  | single name => '\'' :: (name.chars ++ ['\''])
  | double name => '"' :: (name.chars ++ ['"'])
  | number digits _ _ => digits
  | star => ['*']

/-- The component that an index stands for: a number stands for any. -/
def Index.component : Index → List Char
  | single name | double name => name.chars
  | number .. | star => ['*']

inductive Component where
  | dotted (name : Name)
  | indexed (front : Blanks) (i : Index) (back : Blanks)

namespace Component

def spelled : Component → List Char
  | dotted name => '.' :: name.chars
  | indexed front i back => '[' :: (front.chars ++ (i.text ++ (back.chars ++ [']'])))

def plain : Component → List Char
  | dotted name => '.' :: name.chars
  | indexed _ i _ => '.' :: i.component

end Component

/-- A path of at least two components, in one of its spellings. -/
structure PathSpelling where
  root : Name
  first : ∀ c ∈ root.chars.head?, c.isAlpha = true ∨ c = '_'
  components : List Component
  ne_nil : components ≠ []

namespace PathSpelling

def spelled (p : PathSpelling) : List Char := p.root.chars ++ p.components.flatMap (·.spelled)

/-- The dotted spelling. -/
def plain (p : PathSpelling) : List Char := p.root.chars ++ p.components.flatMap (·.plain)

end PathSpelling

variable {c : Char} {cs rest : List Char} {p : PathSpelling} {comps : List Component} {fuel : Nat}

/-! ### Characters of names -/

lemma toNat_of_isNameChar (h : isNameChar c = true) :
    c.toNat = 45 ∨ 48 ≤ c.toNat ∧ c.toNat ≤ 57 ∨ 65 ≤ c.toNat ∧ c.toNat ≤ 122 := by
  simp only [isNameChar, Bool.or_eq_true, decide_eq_true_eq] at h
  rcases h with (h | rfl) | rfl
  · have hclass : (c.isAlpha || c.isDigit) = true := h
    rcases Bool.or_eq_true _ _ ▸ hclass with halpha | hdigit
    · exact .inr (.inr (Expression.Token.toNat_of_isAlpha halpha))
    · exact .inr (.inl (Expression.Token.toNat_of_isDigit hdigit))
  · exact .inl rfl
  · exact .inr (.inr (by decide))

lemma continuesName_of_isNameChar (h : isNameChar c = true) : continuesName c = true := by
  simp only [isNameChar, Bool.or_eq_true] at h
  simp only [continuesName, Bool.or_eq_true]
  tauto

lemma isPathChar_of_isNameChar (h : isNameChar c = true) : isPathChar c = true := by
  have hsmall : c.toNat < 128 := by
    have hbounds := toNat_of_isNameChar h
    omega
  simp only [isNameChar, Bool.or_eq_true] at h
  simp only [isPathChar, Text.isWordChar, if_pos hsmall, Bool.or_eq_true]
  tauto

lemma ne_of_isNameChar {mark : Char} (hmark : isNameChar mark = false) (h : isNameChar c = true) :
    c ≠ mark := by
  rintro rfl
  exact absurd (hmark.symm.trans h) Bool.false_ne_true

lemma isDecimal_of_isDigit (h : c.isDigit = true) : Text.isDecimal c = true := by
  have hbounds := Expression.Token.toNat_of_isDigit h
  rw [Text.isDecimal, if_pos (by omega), h]

lemma isDecimal_of_isBlank (h : Text.isBlank c = true) : Text.isDecimal c = false :=
  Text.eq_false_of_isBlank (by decide +kernel) h

/-! ### Indices read as components -/

lemma trimStartChars_append (b : Blanks) (h : EndsAt Text.isBlank rest) :
    Text.trimStartChars (b.chars ++ rest) = rest :=
  Expression.Token.dropWhile_append_of_endsAt b.isBlank h

lemma endsAt_cons {q : Char → Bool} (h : q c = false) (cs : List Char) : EndsAt q (c :: cs) := by
  intro d hd
  obtain rfl : c = d := by simpa using hd
  exact h

lemma endsAt_blanks {q : Char → Bool} (h : ∀ c, Text.isBlank c = true → q c = false) (b : Blanks)
    (hrest : EndsAt q rest) : EndsAt q (b.chars ++ rest) := by
  intro c hc
  rcases hb : b.chars with _ | ⟨d, ds⟩
  · rw [hb] at hc
    exact hrest c hc
  · rw [hb] at hc
    obtain rfl : d = c := by simpa using hc
    exact h d (b.isBlank d (by simp [hb]))

lemma Index.endsAt_text (i : Index) (rest : List Char) : EndsAt Text.isBlank (i.text ++ rest) := by
  cases i with
  | single name | double name | star => exact endsAt_cons rfl _
  | number digits hne hdigits =>
    cases digits with
    | nil => exact absurd rfl hne
    | cons d ds =>
      have hbounds := Expression.Token.toNat_of_isDigit (hdigits d List.mem_cons_self)
      exact endsAt_cons (Expression.Token.isBlank_of_printable (by omega) (by omega)) _

lemma indexContent_text (i : Index) {rest : List Char} (hrest : EndsAt Text.isDecimal rest) :
    indexContent (i.text ++ rest) = some (i.component, rest) := by
  cases i with
  | single name =>
    have hquote : '\'' ∉ name.chars := fun h => ne_of_isNameChar rfl (name.isNameChar _ h) rfl
    rw [Index.text, List.cons_append, List.append_assoc, indexContent]
    exact Text.cutFirstChars_eq_some_iff.mpr ⟨rfl, hquote⟩
  | double name =>
    have hquote : '"' ∉ name.chars := fun h => ne_of_isNameChar rfl (name.isNameChar _ h) rfl
    rw [Index.text, List.cons_append, List.append_assoc, indexContent]
    exact Text.cutFirstChars_eq_some_iff.mpr ⟨rfl, hquote⟩
  | star => rfl
  | number digits hne hdigits =>
    have hdecimal : ∀ d ∈ digits, Text.isDecimal d = true := fun d hd =>
      isDecimal_of_isDigit (hdigits d hd)
    have htake := Expression.Token.takeWhile_append_of_endsAt hdecimal hrest
    have hdrop := Expression.Token.dropWhile_append_of_endsAt hdecimal hrest
    have hmark {mark : Char} (hmark : mark.isDigit = false) (cs : List Char) :
        digits ++ rest ≠ mark :: cs := by
      cases digits with
      | nil => exact absurd rfl hne
      | cons d ds =>
        intro heq
        obtain rfl := (List.cons.inj heq).1
        exact Bool.false_ne_true (hmark.symm.trans (hdigits d List.mem_cons_self))
    rw [Index.text, Index.component, indexContent.eq_4 _ (hmark rfl) (hmark rfl) (hmark rfl), htake,
      hdrop, if_neg (by simpa using hne)]

lemma indexRest_indexed (front : Blanks) (i : Index) (back : Blanks) (rest : List Char) :
    indexRest (front.chars ++ (i.text ++ (back.chars ++ ']' :: rest))) =
      some (i.component, rest) := by
  have hend : EndsAt Text.isDecimal (back.chars ++ ']' :: rest) :=
    endsAt_blanks (fun _ => isDecimal_of_isBlank) back (endsAt_cons rfl _)
  rw [indexRest, trimStartChars_append front (i.endsAt_text _), indexContent_text i hend]
  dsimp only
  rw [trimStartChars_append back (endsAt_cons rfl _)]
  rfl

lemma dotIndices_append (hcs : '[' ∉ cs) (n : Nat) (rest : List Char) :
    dotIndices (cs.length + n) (cs ++ rest) = cs ++ dotIndices n rest := by
  induction cs with
  | nil => rw [List.length_nil, Nat.zero_add, List.nil_append, List.nil_append]
  | cons c cs ih =>
    obtain ⟨hc, hcs⟩ := not_or.mp (mt List.mem_cons.mpr hcs)
    rw [List.length_cons, Nat.add_right_comm, List.cons_append, dotIndices, if_neg (Ne.symm hc),
      ih hcs, List.cons_append]

lemma dotIndices_components (h : (comps.flatMap (·.spelled)).length < fuel) :
    dotIndices fuel (comps.flatMap (·.spelled)) = comps.flatMap (·.plain) := by
  induction comps generalizing fuel with
  | nil => cases fuel <;> rfl
  | cons comp comps ih =>
    rw [List.flatMap_cons, List.length_append] at h
    rw [List.flatMap_cons, List.flatMap_cons]
    cases comp with
    | dotted name =>
      have hbracket : '[' ∉ '.' :: name.chars := by
        rw [List.mem_cons, not_or]
        exact ⟨by decide, fun hmem => ne_of_isNameChar rfl (name.isNameChar _ hmem) rfl⟩
      obtain ⟨n, rfl⟩ : ∃ n, fuel = ('.' :: name.chars).length + n :=
        Nat.exists_eq_add_of_le (le_trans (Nat.le_add_right ..) h.le)
      rw [Component.spelled] at h ⊢
      rw [dotIndices_append hbracket, ih (Nat.lt_of_add_lt_add_left h), Component.plain]
    | indexed front i back =>
      obtain ⟨n, rfl⟩ : ∃ n, fuel = n + 1 := ⟨fuel - 1, by omega⟩
      have hlen : (comps.flatMap (·.spelled)).length < n := by
        rw [Component.spelled, List.length_cons] at h
        omega
      rw [Component.spelled, List.cons_append, dotIndices, if_pos rfl]
      simp only [List.append_assoc, List.singleton_append, indexRest_indexed, ih hlen]
      rfl

/-! ### The scan of a dotted path -/

lemma dropQuoted_of_notMem (h : '\'' ∉ cs) : dropQuoted false cs = cs := by
  induction cs with
  | nil => rfl
  | cons c cs ih =>
    obtain ⟨hc, hcs⟩ := not_or.mp (mt List.mem_cons.mpr h)
    rw [dropQuoted, if_neg (Ne.symm hc), if_neg Bool.false_ne_true, ih hcs]

lemma Component.exists_plain (comp : Component) :
    comp.plain = ['.', '*'] ∨ ∃ name : Name, comp.plain = '.' :: name.chars := by
  cases comp with
  | dotted name => exact .inr ⟨name, rfl⟩
  | indexed front i back =>
    cases i with
    | single name | double name => exact .inr ⟨name, rfl⟩
    | number | star => exact .inl rfl

lemma Component.continuesName_of_mem_plain {comp : Component} (h : c ∈ comp.plain) :
    continuesName c = true := by
  obtain hplain | ⟨name, hplain⟩ := comp.exists_plain
  · rw [hplain] at h
    simp only [List.mem_cons, List.not_mem_nil, or_false] at h
    obtain rfl | rfl := h <;> rfl
  · rw [hplain] at h
    obtain rfl | h := List.mem_cons.mp h
    · rfl
    · exact continuesName_of_isNameChar (name.isNameChar c h)

lemma endsAt_plain (comps : List Component) : EndsAt isPathChar (comps.flatMap (·.plain)) := by
  cases comps with
  | nil => simp [EndsAt]
  | cons comp comps =>
    rw [List.flatMap_cons]
    obtain hplain | ⟨name, hplain⟩ := comp.exists_plain <;> rw [hplain] <;>
      exact endsAt_cons (by decide) _

lemma Name.takeWhile_chars (name : Name) (comps : List Component) :
    (name.chars ++ comps.flatMap (·.plain)).takeWhile isPathChar = name.chars :=
  Expression.Token.takeWhile_append_of_endsAt
    (fun c hc => isPathChar_of_isNameChar (name.isNameChar c hc)) (endsAt_plain comps)

lemma Name.dropWhile_chars (name : Name) (comps : List Component) :
    (name.chars ++ comps.flatMap (·.plain)).dropWhile isPathChar = comps.flatMap (·.plain) :=
  Expression.Token.dropWhile_append_of_endsAt
    (fun c hc => isPathChar_of_isNameChar (name.isNameChar c hc)) (endsAt_plain comps)

lemma componentsRest_plain (h : comps.length ≤ fuel) :
    componentsRest fuel (comps.flatMap (·.plain)) = (comps.flatMap (·.plain), []) := by
  induction comps generalizing fuel with
  | nil => cases fuel <;> rfl
  | cons comp comps ih =>
    obtain ⟨n, rfl⟩ : ∃ n, fuel = n + 1 := Nat.exists_eq_succ_of_ne_zero (by rintro rfl; simp at h)
    have hmore := ih (Nat.le_of_succ_le_succ h)
    rw [List.flatMap_cons]
    obtain hplain | ⟨name, hplain⟩ := comp.exists_plain
    · simp [hplain, componentsRest, hmore]
    · have hstar (rest : List Char) : name.chars ++ comps.flatMap (·.plain) ≠ '*' :: rest := by
        obtain ⟨d, ds, hname⟩ := List.exists_cons_of_ne_nil name.ne_nil
        intro heq
        rw [hname] at heq
        obtain rfl := (List.cons.inj heq).1
        have hd := name.isNameChar '*' (by simp [hname])
        exact absurd hd (by decide)
      have hempty : name.chars.isEmpty = false := List.isEmpty_eq_false_iff.mpr name.ne_nil
      rw [hplain, List.cons_append, componentsRest.eq_3 _ _ hstar]
      simp [name.takeWhile_chars, name.dropWhile_chars, hempty, hmore]

namespace PathSpelling

lemma exists_root (p : PathSpelling) :
    ∃ c cs, p.root.chars = c :: cs ∧ (c.isAlpha = true ∨ c = '_') := by
  obtain ⟨c, cs, hroot⟩ := List.exists_cons_of_ne_nil p.root.ne_nil
  exact ⟨c, cs, hroot, p.first c (by simp [hroot])⟩

lemma continuesName_of_mem_plain (h : c ∈ p.plain) : continuesName c = true := by
  rw [plain, List.mem_append, List.mem_flatMap] at h
  obtain h | ⟨comp, -, h⟩ := h
  · exact continuesName_of_isNameChar (p.root.isNameChar c h)
  · exact comp.continuesName_of_mem_plain h

lemma length_components_le (comps : List Component) :
    comps.length ≤ (comps.flatMap (·.plain)).length := by
  induction comps with
  | nil => exact Nat.le_refl _
  | cons comp comps ih =>
    have hplain : 0 < comp.plain.length := by
      obtain hplain | ⟨name, hplain⟩ := comp.exists_plain <;> simp [hplain]
    rw [List.flatMap_cons, List.length_append, List.length_cons]
    omega

lemma pathRest_plain (p : PathSpelling) : pathRest p.plain = some (p.plain, []) := by
  obtain ⟨c, cs, hroot, hc⟩ := p.exists_root
  have hlen : p.components.length ≤ p.plain.length := by
    rw [plain, List.length_append]
    exact (length_components_le _).trans (Nat.le_add_left _ _)
  have hcomps : (p.components.flatMap (·.plain)).isEmpty = false := by
    rw [List.isEmpty_eq_false_iff, ← List.length_pos_iff]
    exact (List.length_pos_iff.mpr p.ne_nil).trans_le (length_components_le _)
  have htake : p.plain.takeWhile isPathChar = p.root.chars := p.root.takeWhile_chars _
  have hdrop : p.plain.dropWhile isPathChar = p.components.flatMap (·.plain) :=
    p.root.dropWhile_chars _
  have hplain : p.plain = c :: (cs ++ p.components.flatMap (·.plain)) := by
    rw [plain, hroot, List.cons_append]
  have hfirst : (c.isAlpha || decide (c = '_')) = true := by simpa using hc
  rw [hplain, pathRest, if_pos hfirst, ← hplain]
  simp only [htake, hdrop, componentsRest_plain hlen, hcomps]
  rfl

lemma scanPaths_spelled (p : PathSpelling) :
    scanPaths (String.ofList p.spelled) = [String.ofList p.plain] := by
  have hbracket : '[' ∉ p.root.chars := fun h => ne_of_isNameChar rfl (p.root.isNameChar _ h) rfl
  have hquote : '\'' ∉ p.plain := fun h =>
    Bool.false_ne_true ((continuesName_of_mem_plain h).symm.trans rfl).symm
  have hdots : dotIndices (p.spelled.length + 1) p.spelled = p.plain := by
    rw [spelled, List.length_append, Nat.add_assoc, dotIndices_append hbracket,
      dotIndices_components (Nat.lt_succ_self _), plain]
  have hpaths : pathsFrom (p.plain.length + 1) p.plain = [p.plain] := by
    obtain ⟨c, cs, hplain⟩ : ∃ c cs, p.plain = c :: cs := by
      obtain ⟨c, cs, hroot, -⟩ := p.exists_root
      exact ⟨c, _, by rw [plain, hroot, List.cons_append]⟩
    have hread := p.pathRest_plain
    rw [hplain] at hread ⊢
    rw [pathsFrom, hread]
    rfl
  simp only [scanPaths, String.toList_ofList, hdots, dropQuoted_of_notMem hquote, hpaths,
    List.map_cons, List.map_nil]

end PathSpelling

/-! ### Paths as expressions -/

section Expressions

open Expression

/-- No expression has a bracket behind a name. -/
lemma parse?_eq_none_of_bracket {name : List Char} (hc : startsName c = true)
    (hname : ∀ d ∈ name, continuesName d = true) :
    parse? (String.ofList (c :: (name ++ '[' :: rest))) = none := by
  have hvisible : Text.isBlank c = false :=
    Token.isBlank_of_continuesName (Token.continuesName_of_startsName hc)
  have htrim : Text.trimChars (c :: (name ++ '[' :: rest)) =
      c :: (name ++ '[' :: rest.rdropWhile Text.isBlank) := by
    rw [Text.trimChars_eq_between, Text.between, List.dropWhile_cons_of_neg (by simp [hvisible]),
      ← List.cons_append, Text.rdropWhile_append_cons (by decide), List.cons_append]
  have hfence : unfence (c :: (name ++ '[' :: rest)) =
      c :: (name ++ '[' :: rest.rdropWhile Text.isBlank) := by
    refine (unfence_of_bare fun inner heq => ?_).trans htrim
    rw [htrim, fenced, List.cons_append] at heq
    obtain rfl := (List.cons.inj heq).1
    exact absurd hc (by decide)
  have hspace : Token.isSpace c = false := by
    rw [Bool.eq_false_iff]
    exact fun h => Bool.false_ne_true (hvisible.symm.trans (Token.isBlank_of_isSpace h))
  have hword : Token.next (c :: (name ++ '[' :: rest.rdropWhile Text.isBlank)) =
      some (.name (String.ofList (c :: name)), '[' :: rest.rdropWhile Text.isBlank) := by
    rw [Token.next_of_startsName hc, Token.nameRest_name hc hname (endsAt_cons (by decide) _)]
  have hbracket (n : Nat) : Token.scan n ('[' :: rest.rdropWhile Text.isBlank) = none := by
    cases n <;> rfl
  rw [parse?_ofList, hfence, Token.ofChars, Token.scan,
    List.dropWhile_cons_of_neg (by simp [hspace])]
  simp only [hword, hbracket]
  rfl

end Expressions

/-! ### Both ways -/

lemma spelled_eq_plain_or (comps : List Component) :
    comps.flatMap (·.spelled) = comps.flatMap (·.plain) ∨
      ∃ front rest, comps.flatMap (·.spelled) = front ++ '[' :: rest ∧
        ∀ c ∈ front, continuesName c = true := by
  induction comps with
  | nil => exact .inl rfl
  | cons comp comps ih =>
    rw [List.flatMap_cons, List.flatMap_cons]
    cases comp with
    | indexed front i back =>
      exact .inr ⟨[], _, rfl, by simp⟩
    | dotted name =>
      obtain hplain | ⟨front, rest, hspelled, hfront⟩ := ih
      · exact .inl (by rw [hplain]; rfl)
      · refine .inr ⟨'.' :: name.chars ++ front, rest, ?_, ?_⟩
        · rw [hspelled, Component.spelled, List.append_assoc]
        · intro c hc
          obtain hc | hc := List.mem_append.mp hc
          · have hplain : c ∈ (Component.dotted name).plain := hc
            exact Component.continuesName_of_mem_plain hplain
          · exact hfront c hc

lemma contexts_of_dot {s : String} (h : '.' ∈ s.toList) : (Expression.name s).contexts = [s] := by
  have hno {value : String} (hvalue : '.' ∉ value.toList.map Char.toLower) :
      Text.sameIgnoringCase s value = false := by
    rw [Bool.eq_false_iff]
    intro hsame
    rw [Text.sameIgnoringCase, beq_iff_eq] at hsame
    exact hvalue (hsame ▸ List.mem_map_of_mem h)
  rw [Expression.contexts, Expression.isBoolean, hno (by decide), hno (by decide), Bool.or_self,
    if_neg Bool.false_ne_true]

/-- However the components of a path are written, as names behind points or as indices in brackets,
the path gives one token: its dotted form, with a star for an index that is a number or a star. -/
theorem tokens_spelled (p : PathSpelling) :
    tokens (String.ofList p.spelled) = [String.ofList p.plain] ∧
      tokens (String.ofList p.plain) = [String.ofList p.plain] := by
  obtain ⟨c, cs, hroot, hc⟩ := p.exists_root
  have hstarts : startsName c = true := by
    simp only [startsName, Bool.or_eq_true, decide_eq_true_eq]
    exact .inl hc
  have hplain : p.plain = c :: (cs ++ p.components.flatMap (·.plain)) := by
    rw [PathSpelling.plain, hroot, List.cons_append]
  have hdotted : tokens (String.ofList p.plain) = [String.ofList p.plain] := by
    have hdot : '.' ∈ (String.ofList p.plain).toList := by
      obtain ⟨comp, comps, hcomps⟩ := List.exists_cons_of_ne_nil p.ne_nil
      obtain hcomp | ⟨name, hcomp⟩ := comp.exists_plain <;>
        simp [PathSpelling.plain, hcomps, hcomp]
    have hparse : Expression.parse? (String.ofList p.plain) =
        some (.name (String.ofList p.plain)) := by
      rw [hplain]
      refine Expression.parse?_name hstarts fun d hd => ?_
      exact PathSpelling.continuesName_of_mem_plain (hplain ▸ List.mem_cons_of_mem _ hd)
    rw [tokens, hparse]
    exact contexts_of_dot hdot
  refine ⟨?_, hdotted⟩
  obtain hspelled | ⟨front, rest, hspelled, hfront⟩ := spelled_eq_plain_or p.components
  · rw [PathSpelling.spelled, hspelled]
    exact hdotted
  · have hname : ∀ d ∈ cs ++ front, continuesName d = true := by
      intro d hd
      obtain hd | hd := List.mem_append.mp hd
      · exact continuesName_of_isNameChar (p.root.isNameChar d (by simp [hroot, hd]))
      · exact hfront d hd
    have hparse : Expression.parse? (String.ofList p.spelled) = none := by
      rw [PathSpelling.spelled, hspelled, hroot, List.cons_append, ← List.append_assoc]
      exact parse?_eq_none_of_bracket hstarts hname
    rw [tokens, hparse]
    exact p.scanPaths_spelled

example : tokens "github.event['pull_request'][ 0 ].title" =
    ["github.event.pull_request.*.title"] := by decide +kernel

end WorkflowAudit.Context
