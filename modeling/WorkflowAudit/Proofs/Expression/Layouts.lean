import Mathlib.Data.List.TakeWhile
import WorkflowAudit.Proofs.Expression.Phrases

/-! Cutting a text into words. Every cut is a layout of the words, and a layout whose words keep
apart is the only cut of its text. -/

namespace WorkflowAudit.Expression

namespace Token

/-- The text does not go on with a character of the class. -/
def EndsAt (p : Char → Bool) (cs : List Char) : Prop := ∀ c ∈ cs.head?, p c = false

lemma takeWhile_append_of_endsAt {p : Char → Bool} {ds rest : List Char} (hd : ∀ c ∈ ds, p c = true)
    (hr : EndsAt p rest) : (ds ++ rest).takeWhile p = ds := by
  rw [List.takeWhile_append_of_pos hd]
  cases rest with
  | nil => simp
  | cons c rest => simp [hr c rfl]

lemma dropWhile_append_of_endsAt {p : Char → Bool} {ds rest : List Char} (hd : ∀ c ∈ ds, p c = true)
    (hr : EndsAt p rest) : (ds ++ rest).dropWhile p = rest := by
  rw [List.dropWhile_append_of_pos hd]
  cases rest with
  | nil => simp
  | cons c rest => simp [hr c rfl]

lemma forall_mem_takeWhile (p : Char → Bool) (cs : List Char) : ∀ c ∈ cs.takeWhile p, p c = true :=
  fun _ hc => List.mem_takeWhile_imp hc

/-! ### Quoted text -/

lemma doubled_cons (c : Char) (s : List Char) :
    doubled (c :: s) = (if c = '\'' then ['\'', '\''] else [c]) ++ doubled s := by
  rw [doubled, List.flatMap_cons, ← doubled]

lemma quotedRest_sound {cs s rest : List Char} (h : quotedRest cs = some (s, rest)) :
    cs = doubled s ++ '\'' :: rest := by
  fun_induction quotedRest cs generalizing s with
  | case1 => simp at h
  | case2 cs ih =>
    obtain ⟨⟨s', rest'⟩, hs, he⟩ := Option.map_eq_some_iff.mp h
    obtain ⟨rfl, rfl⟩ := Prod.mk.inj he
    simp [doubled, ih hs]
  | case3 cs _ =>
    obtain ⟨rfl, rfl⟩ := Prod.mk.inj (Option.some.inj h)
    rfl
  | case4 c cs _ hc ih =>
    obtain ⟨⟨s', rest'⟩, hs, he⟩ := Option.map_eq_some_iff.mp h
    obtain ⟨rfl, rfl⟩ := Prod.mk.inj he
    simp [doubled, hc, ih hs]

lemma quotedRest_doubled (s : List Char) {rest : List Char} (hr : EndsAt (· = '\'') rest) :
    quotedRest (doubled s ++ '\'' :: rest) = some (s, rest) := by
  induction s with
  | nil =>
    have hend : ∀ cs, '\'' = '\'' → rest = '\'' :: cs → False := by
      rintro cs - rfl
      simpa using hr '\'' rfl
    simp [doubled, quotedRest.eq_3 _ _ hend]
  | cons c s ih =>
    rw [doubled_cons]
    by_cases hc : c = '\''
    · subst hc
      simp [quotedRest, ih]
    · simp [hc, quotedRest.eq_3 c _ fun _ h _ => hc h, ih]

/-! ### Numbers and names -/

lemma numberRest_sound {c : Char} (hc : c.isDigit = true) (cs : List Char) :
    ∃ w, c :: cs = w ++ (numberRest (c :: cs)).2 ∧
      Spelled (.number (numberRest (c :: cs)).1) w := by
  have hne : (c :: cs).takeWhile Char.isDigit ≠ [] := by simp [hc]
  have hds := forall_mem_takeWhile Char.isDigit (c :: cs)
  have hcut := (List.takeWhile_append_dropWhile (p := Char.isDigit) (l := c :: cs)).symm
  have hwhole := Spelled.whole hne hds
  rw [numberRest]
  split
  · next after hafter =>
    dsimp only
    split
    · exact ⟨_, hafter ▸ hcut, hwhole⟩
    · next hfs =>
      refine ⟨_, ?_, .decimal hne hds (by simpa using hfs) (forall_mem_takeWhile Char.isDigit after)⟩
      rw [List.append_assoc, List.cons_append, List.takeWhile_append_dropWhile, ← hafter]
      exact hcut
  · exact ⟨_, hcut, hwhole⟩

def extendsOperand (c : Char) : Bool := continuesName c || c = '(' || c = '\''

lemma EndsAt.imp {p q : Char → Bool} (h : ∀ c, q c = true → p c = true) {cs : List Char}
    (hc : EndsAt p cs) : EndsAt q cs := by
  intro c hcs
  have hp := hc c hcs
  cases hq : q c with
  | false => rfl
  | true => rw [h c hq] at hp; exact absurd hp (by simp)

lemma continuesName_of_isDigit {c : Char} (h : c.isDigit = true) : continuesName c = true := by
  simp [continuesName, Char.isAlphanum, h]

lemma continuesName_of_startsName {c : Char} (h : startsName c = true) : continuesName c = true := by
  simp only [startsName, Bool.or_eq_true, decide_eq_true_eq] at h
  rcases h with (h | rfl) | rfl
  · simp [continuesName, Char.isAlphanum, h]
  · rfl
  · rfl

lemma numberRest_whole {ds rest : List Char} (hd : ∀ c ∈ ds, c.isDigit = true)
    (hr : EndsAt extendsOperand rest) :
    numberRest (ds ++ rest) = (Binary64.ofDecimal false (Text.numeral ds) 0, rest) := by
  have hdigit : EndsAt Char.isDigit rest :=
    hr.imp fun c h => by simp [extendsOperand, continuesName_of_isDigit h]
  rw [numberRest, takeWhile_append_of_endsAt hd hdigit, dropWhile_append_of_endsAt hd hdigit]
  split
  · next after =>
    have hdot := hr '.' rfl
    exact absurd hdot (by decide)
  · rfl

lemma numberRest_decimal {ds fs rest : List Char} (hd : ∀ c ∈ ds, c.isDigit = true) (hne : fs ≠ [])
    (hf : ∀ c ∈ fs, c.isDigit = true) (hr : EndsAt extendsOperand rest) :
    numberRest (ds ++ '.' :: (fs ++ rest)) =
      (Binary64.ofDecimal false (Text.numeral (ds ++ fs)) (-fs.length), rest) := by
  have hdigit : EndsAt Char.isDigit rest :=
    hr.imp fun c h => by simp [extendsOperand, continuesName_of_isDigit h]
  have hdot : EndsAt Char.isDigit ('.' :: (fs ++ rest)) := by
    intro c hc
    obtain rfl : '.' = c := by simpa using hc
    rfl
  rw [numberRest, takeWhile_append_of_endsAt hd hdot, dropWhile_append_of_endsAt hd hdot]
  simp only [takeWhile_append_of_endsAt hf hdigit, dropWhile_append_of_endsAt hf hdigit]
  simp [hne]

lemma nameRest_sound {c : Char} (hc : startsName c = true) (cs : List Char) :
    ∃ w, c :: cs = w ++ (nameRest (c :: cs)).2 ∧ (nameRest (c :: cs)).1.Spelled w := by
  have hcut := (List.takeWhile_append_dropWhile (p := continuesName) (l := c :: cs)).symm
  have hword : (c :: cs).takeWhile continuesName = c :: cs.takeWhile continuesName := by
    simp [continuesName_of_startsName hc]
  have hrest := forall_mem_takeWhile continuesName cs
  rw [hword] at hcut
  rw [nameRest, hword]
  split
  · next rest hparen =>
    refine ⟨_, ?_, .call hc hrest⟩
    rw [hcut, hparen]
    simp
  · exact ⟨_, hcut, .name hc hrest⟩

lemma nameRest_name {c : Char} {cs rest : List Char} (hc : startsName c = true)
    (hcs : ∀ d ∈ cs, continuesName d = true) (hr : EndsAt extendsOperand rest) :
    nameRest (c :: (cs ++ rest)) = (.name (String.ofList (c :: cs)), rest) := by
  have hall : ∀ d ∈ c :: cs, continuesName d = true :=
    List.forall_mem_cons.mpr ⟨continuesName_of_startsName hc, hcs⟩
  have hend : EndsAt continuesName rest := hr.imp fun d h => by simp [extendsOperand, h]
  rw [← List.cons_append, nameRest, takeWhile_append_of_endsAt hall hend,
    dropWhile_append_of_endsAt hall hend]
  split
  · next after =>
    have hparen := hr '(' rfl
    exact absurd hparen (by decide)
  · rfl

lemma nameRest_call {c : Char} {cs : List Char} (hc : startsName c = true)
    (hcs : ∀ d ∈ cs, continuesName d = true) (rest : List Char) :
    nameRest (c :: (cs ++ '(' :: rest)) = (.call (String.ofList (c :: cs)), rest) := by
  have hall : ∀ d ∈ c :: cs, continuesName d = true :=
    List.forall_mem_cons.mpr ⟨continuesName_of_startsName hc, hcs⟩
  have hend : EndsAt continuesName ('(' :: rest) := by
    intro d hd
    obtain rfl : '(' = d := by simpa using hd
    rfl
  rw [← List.cons_append, nameRest, takeWhile_append_of_endsAt hall hend,
    dropWhile_append_of_endsAt hall hend]
  rfl

/-! ### Single words -/

lemma next_of_isDigit {c : Char} (hc : c.isDigit = true) (cs : List Char) :
    next (c :: cs) = some (.number (numberRest (c :: cs)).1, (numberRest (c :: cs)).2) := by
  rw [next.eq_10]
  · simp [hc]
  all_goals
    intros
    subst_vars
    exact absurd hc (by decide)

lemma toNat_of_isDigit {c : Char} (h : c.isDigit = true) : 48 ≤ c.toNat ∧ c.toNat ≤ 57 := by
  have hbounds : (decide (c.val ≥ '0'.val) && decide (c.val ≤ '9'.val)) = true := h
  simpa [UInt32.le_iff_toNat_le] using hbounds

lemma toNat_of_isAlpha {c : Char} (h : c.isAlpha = true) : 65 ≤ c.toNat ∧ c.toNat ≤ 122 := by
  have hcase : (decide (c.val ≥ 'A'.val ∧ c.val ≤ 'Z'.val) ||
      decide (c.val ≥ 'a'.val) && decide (c.val ≤ 'z'.val)) = true := h
  have hbounds : 65 ≤ c.toNat ∧ c.toNat ≤ 90 ∨ 97 ≤ c.toNat ∧ c.toNat ≤ 122 := by
    simpa [UInt32.le_iff_toNat_le] using hcase
  omega

lemma isDigit_of_startsName {c : Char} (hc : startsName c = true) : c.isDigit = false := by
  simp only [startsName, Bool.or_eq_true, decide_eq_true_eq] at hc
  rcases hc with (h | rfl) | rfl
  · rw [Bool.eq_false_iff]
    intro hd
    have halpha := toNat_of_isAlpha h
    have hdigit := toNat_of_isDigit hd
    omega
  · rfl
  · rfl

lemma startsName_of_isDigit {c : Char} (h : c.isDigit = true) : startsName c = false := by
  rw [Bool.eq_false_iff]
  intro hc
  rw [isDigit_of_startsName hc] at h
  cases h

lemma next_of_startsName {c : Char} (hc : startsName c = true) (cs : List Char) :
    next (c :: cs) = some (nameRest (c :: cs)) := by
  rw [next.eq_10]
  · simp [hc, isDigit_of_startsName hc]
  all_goals
    intros
    subst_vars
    exact absurd hc (by decide)

lemma next_sound {cs rest : List Char} {t : Token} (h : next cs = some (t, rest)) :
    ∃ w, cs = w ++ rest ∧ t.Spelled w := by
  have symbol {u : Token} {w after : List Char} (hu : u.Spelled w)
      (h : some (u, after) = some (t, rest)) : ∃ v, w ++ after = v ++ rest ∧ t.Spelled v := by
    obtain ⟨rfl, rfl⟩ := Prod.mk.inj (Option.some.inj h)
    exact ⟨w, rfl, hu⟩
  fun_cases next cs with
  | case1 cs => exact symbol .or h
  | case2 cs => exact symbol .and h
  | case3 cs => exact symbol .equal h
  | case4 cs => exact symbol .notEqual h
  | case5 cs hne => exact symbol .not (by rwa [next.eq_5 cs hne] at h)
  | case6 cs => exact symbol .opening h
  | case7 cs => exact symbol .closing h
  | case8 cs => exact symbol .comma h
  | case9 cs =>
    obtain ⟨⟨s, after⟩, hs, he⟩ := Option.map_eq_some_iff.mp h
    obtain ⟨rfl, rfl⟩ := Prod.mk.inj he
    exact ⟨_, by rw [quotedRest_sound hs]; simp, .text s⟩
  | case10 c cs _ _ _ _ _ _ _ _ _ hc x after hx =>
    rw [next_of_isDigit hc] at h
    obtain ⟨rfl, rfl⟩ := Prod.mk.inj (Option.some.inj h)
    exact numberRest_sound hc cs
  | case11 c cs _ _ _ _ _ _ _ _ _ _ hc =>
    rw [next_of_startsName hc] at h
    have hsound := nameRest_sound hc cs
    rwa [Option.some.inj h] at hsound
  | case12 c cs h1 h2 h3 h4 h5 h6 h7 h8 h9 hd hn =>
    rw [next.eq_10 c cs h1 h2 h3 h4 h5 h6 h7 h8 h9] at h
    simp [hd, hn] at h
  | case13 => simp [next] at h

/-- The text behind a word cannot be taken for a part of it. -/
structure Bounded (t : Token) (cs : List Char) : Prop where
  operand : t.endsOperand = true → EndsAt extendsOperand cs
  negation : t = .not → EndsAt (· = '=') cs

lemma next_of_spelled {t : Token} {w rest : List Char} (h : t.Spelled w) (hb : Bounded t rest) :
    next (w ++ rest) = some (t, rest) := by
  cases h with
  | or => rfl
  | and => rfl
  | equal => rfl
  | notEqual => rfl
  | not =>
    apply next.eq_5
    rintro cs rfl
    simpa using hb.negation rfl '=' rfl
  | opening => rfl
  | closing => rfl
  | comma => rfl
  | @whole ds hne hd =>
    cases w with
    | nil => exact absurd rfl hne
    | cons c ds =>
      have hr := numberRest_whole hd (hb.operand rfl)
      rw [List.cons_append] at hr ⊢
      rw [next_of_isDigit (hd c (by simp)), hr]
  | @decimal ds fs hne hd hfne hf =>
    cases ds with
    | nil => exact absurd rfl hne
    | cons c ds =>
      have hr := numberRest_decimal hd hfne hf (hb.operand rfl)
      rw [List.cons_append] at hr
      rw [List.append_assoc, List.cons_append, List.cons_append, next_of_isDigit (hd c (by simp)), hr]
  | text s =>
    have hend : EndsAt (· = '\'') rest :=
      (hb.operand rfl).imp fun c h => by simp [extendsOperand, decide_eq_true_eq.mp h]
    rw [List.cons_append, List.append_assoc, List.singleton_append, next,
      quotedRest_doubled s hend]
    rfl
  | @name c cs hc hcs =>
    rw [List.cons_append, next_of_startsName hc, nameRest_name hc hcs (hb.operand rfl)]
  | @call c cs hc hcs =>
    rw [List.cons_append, List.append_assoc, List.singleton_append, next_of_startsName hc,
      nameRest_call hc hcs]

/-! ### Whole texts -/

lemma extendsOperand_of_isSpace {c : Char} (h : isSpace c = true) : extendsOperand c = false := by
  simp only [isSpace, Bool.or_eq_true, decide_eq_true_eq] at h
  rcases h with ((rfl | rfl) | rfl) | rfl <;> rfl

lemma isBlank_of_isSpace {c : Char} (h : isSpace c = true) : Text.isBlank c = true := by
  simp only [isSpace, Bool.or_eq_true, decide_eq_true_eq] at h
  rcases h with ((rfl | rfl) | rfl) | rfl <;> rfl

lemma isBlank_of_printable {c : Char} (h : 32 < c.toNat) (h' : c.toNat < 127) :
    Text.isBlank c = false := by
  simp only [Text.isBlank, Bool.or_eq_false_iff, Bool.and_eq_false_iff, decide_eq_false_iff_not]
  omega

lemma isBlank_of_continuesName {c : Char} (h : continuesName c = true) : Text.isBlank c = false := by
  simp only [continuesName, Bool.or_eq_true, decide_eq_true_eq] at h
  rcases h with (((h | rfl) | rfl) | rfl) | rfl
  · have hclass : (c.isAlpha || c.isDigit) = true := h
    rcases Bool.or_eq_true _ _ ▸ hclass with halpha | hdigit
    · have hbounds := toNat_of_isAlpha halpha
      apply isBlank_of_printable <;> omega
    · have hbounds := toNat_of_isDigit hdigit
      apply isBlank_of_printable <;> omega
  all_goals rfl

structure StartsWord (t : Token) (c : Char) : Prop where
  visible : Text.isBlank c = false
  noFence : c ≠ '$'
  afterNot : t.startsOperand = true → c ≠ '='
  afterOperand : t.startsOperand = false → extendsOperand c = false

lemma StartsWord.of_continuesName {t : Token} {c : Char} (h : continuesName c = true)
    (ht : t.startsOperand = true) : StartsWord t c := by
  refine ⟨isBlank_of_continuesName h, ?_, ?_, by simp [ht]⟩
  · rintro rfl
    exact absurd h (by decide)
  · rintro - rfl
    exact absurd h (by decide)

lemma Spelled.head {t : Token} {w : List Char} (h : t.Spelled w) :
    ∃ c cs, w = c :: cs ∧ StartsWord t c := by
  cases h with
  | @whole ds hne hd =>
    cases w with
    | nil => exact absurd rfl hne
    | cons c ds =>
      exact ⟨c, ds, rfl, .of_continuesName (continuesName_of_isDigit (hd c (by simp))) rfl⟩
  | @decimal ds fs hne hd =>
    cases ds with
    | nil => exact absurd rfl hne
    | cons c ds =>
      exact ⟨c, _, rfl, .of_continuesName (continuesName_of_isDigit (hd c (by simp))) rfl⟩
  | @name c cs hc => exact ⟨c, cs, rfl, .of_continuesName (continuesName_of_startsName hc) rfl⟩
  | @call c cs hc => exact ⟨c, _, rfl, .of_continuesName (continuesName_of_startsName hc) rfl⟩
  | text s => exact ⟨_, _, rfl, rfl, by decide, fun _ => by decide, by simp [startsOperand]⟩
  | _ => exact ⟨_, _, rfl, rfl, by decide, by decide, by decide⟩

lemma Spelled.last {t : Token} {w : List Char} (h : t.Spelled w) :
    ∃ cs c, w = cs ++ [c] ∧ Text.isBlank c = false := by
  have visible {ds : List Char} (hne : ds ≠ []) (hd : ∀ c ∈ ds, continuesName c = true) :
      ∃ cs c, ds = cs ++ [c] ∧ Text.isBlank c = false :=
    ⟨ds.dropLast, ds.getLast hne, (List.dropLast_append_getLast hne).symm,
      isBlank_of_continuesName (hd _ (List.getLast_mem hne))⟩
  cases h with
  | whole hne hd => exact visible hne fun c hc => continuesName_of_isDigit (hd c hc)
  | @decimal ds fs _ _ hne hf =>
    obtain ⟨cs, c, rfl, hc⟩ := visible hne fun c hc => continuesName_of_isDigit (hf c hc)
    exact ⟨ds ++ '.' :: cs, c, by simp, hc⟩
  | text s => exact ⟨'\'' :: doubled s, '\'', rfl, rfl⟩
  | name hc hcs =>
    exact visible (by simp) (List.forall_mem_cons.mpr ⟨continuesName_of_startsName hc, hcs⟩)
  | @call c cs => exact ⟨c :: cs, '(', rfl, rfl⟩
  | or => exact ⟨['|'], '|', rfl, rfl⟩
  | and => exact ⟨['&'], '&', rfl, rfl⟩
  | equal => exact ⟨['='], '=', rfl, rfl⟩
  | notEqual => exact ⟨['!'], '=', rfl, rfl⟩
  | not => exact ⟨[], '!', rfl, rfl⟩
  | opening => exact ⟨[], '(', rfl, rfl⟩
  | closing => exact ⟨[], ')', rfl, rfl⟩
  | comma => exact ⟨[], ',', rfl, rfl⟩

lemma bounded_of_isSpace {t : Token} {c : Char} {cs : List Char} (h : isSpace c = true) :
    Bounded t (c :: cs) := by
  refine ⟨fun _ d hd => ?_, fun _ d hd => ?_⟩ <;> obtain rfl : c = d := by simpa using hd
  · exact extendsOperand_of_isSpace h
  · rw [decide_eq_false_iff_not]
    rintro rfl
    exact absurd h (by decide)

end Token

open Token

lemma Layout.bounded {ts : List Token} {cs : List Char} (h : Layout ts cs) {t : Token}
    (ht : ∀ u ∈ ts.head?, Apart t u) : Bounded t cs := by
  cases h with
  | blank hb =>
    cases cs with
    | nil => exact ⟨fun _ c hc => by simp at hc, fun _ c hc => by simp at hc⟩
    | cons c cs => exact bounded_of_isSpace (hb c (by simp))
  | @word bs w cs u ts hb hw _ =>
    cases bs with
    | cons c bs => exact bounded_of_isSpace (hb c (by simp))
    | nil =>
      obtain ⟨hend, hnot⟩ := ht u rfl
      obtain ⟨c, w', rfl, hc⟩ := hw.head
      refine ⟨fun he d hd => ?_, fun hn d hd => ?_⟩ <;> obtain rfl : c = d := by simpa using hd
      · exact hc.afterOperand (hend he)
      · simpa using hc.afterNot (hnot hn)

lemma dropWhile_blanks {bs cs : List Char} (hb : ∀ c ∈ bs, isSpace c = true)
    (hc : EndsAt isSpace cs) : (bs ++ cs).dropWhile isSpace = cs :=
  dropWhile_append_of_endsAt hb hc

lemma layout_of_scan {fuel : Nat} {cs : List Char} {ts : List Token} (h : scan fuel cs = some ts) :
    Layout ts cs := by
  induction fuel generalizing cs ts with
  | zero => simp [scan] at h
  | succ fuel ih =>
    have hcut := List.takeWhile_append_dropWhile (p := isSpace) (l := cs)
    have hblank := forall_mem_takeWhile isSpace cs
    rw [scan] at h
    split at h
    · next hdrop =>
      obtain rfl := Option.some.inj h
      rw [hdrop, List.append_nil] at hcut
      exact hcut ▸ .blank hblank
    · split at h
      · next t rest hnext =>
        obtain ⟨us, hus, rfl⟩ := Option.map_eq_some_iff.mp h
        obtain ⟨w, hw, hspelled⟩ := next_sound hnext
        rw [hw] at hcut
        exact hcut ▸ .word hblank hspelled (ih hus)
      · simp at h

lemma scan_of_layout {cs : List Char} {ts : List Token} (h : Layout ts cs)
    (ha : ts.IsChain Apart) {fuel : Nat} (hf : cs.length < fuel) : scan fuel cs = some ts := by
  induction h generalizing fuel with
  | @blank bs hb =>
    obtain ⟨fuel, rfl⟩ : ∃ n, fuel = n + 1 := ⟨fuel - 1, by omega⟩
    have hdrop : bs.dropWhile isSpace = [] := by
      have hnil : EndsAt isSpace [] := by simp [EndsAt]
      simpa using dropWhile_blanks hb hnil
    simp [scan, hdrop]
  | @word bs w cs t ts hb hw hl ih =>
    obtain ⟨fuel, rfl⟩ : ∃ n, fuel = n + 1 := ⟨fuel - 1, by omega⟩
    obtain ⟨hhead, htail⟩ := List.isChain_cons.mp ha
    obtain ⟨c, w', rfl, hc⟩ := hw.head
    have hdrop : (bs ++ (c :: w' ++ cs)).dropWhile isSpace = c :: w' ++ cs := by
      apply dropWhile_blanks hb
      intro d hd
      obtain rfl : c = d := by simpa using hd
      cases hs : isSpace c with
      | false => rfl
      | true => exact absurd (isBlank_of_isSpace hs) (by simp [hc.visible])
    have hnext := next_of_spelled hw (hl.bounded hhead)
    simp only [List.length_append, List.length_cons] at hf
    have hlen : cs.length < fuel := by omega
    have hrest := ih htail hlen
    rw [List.cons_append] at hdrop hnext ⊢
    simp [scan, hdrop, hnext, hrest]

theorem ofChars_eq_some_iff {cs : List Char} {ts : List Token} (ha : ts.IsChain Apart) :
    Token.ofChars cs = some ts ↔ Layout ts cs :=
  ⟨layout_of_scan, fun h => scan_of_layout h ha (Nat.lt_succ_self _)⟩

end WorkflowAudit.Expression
