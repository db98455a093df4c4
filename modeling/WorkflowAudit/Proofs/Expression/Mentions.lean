import Mathlib.Algebra.Group.Nat.Even
import WorkflowAudit.Proofs.Expression.Reading

/-! The contexts of a tree that is read, found in its text without reading it: they are the names
outside quotes that are neither called nor truth values, from the first to the last. -/

namespace WorkflowAudit.Expression

open Token Text

/-! ### Names in a text -/

section Names

variable {text before after rest word u v : List Char} {c : Char}

/-- The text does not end within a run of name characters, so that a name may begin behind it. -/
def EndsOpen (before : List Char) : Prop := ∀ c ∈ before.getLast?, continuesName c = false

/-- A whole run of name characters, with the text on both sides of it, that is the name of a context.
Each quote opens or closes a literal, and one that is doubled does both. A run that begins with a
digit is no name, even if a point within could begin one. -/
@[mk_iff]
structure IsMention (before word after : List Char) : Prop where
  unquoted : Even (before.count '\'')
  starts : ∃ c ∈ word.head?, startsName c = true
  continues : ∀ c ∈ word, continuesName c = true
  opens : EndsOpen before
  ends : EndsAt continuesName after
  uncalled : after.head? ≠ some '('
  context : isBoolean (String.ofList word) = false

-- Each test runs over a list: a statement on all characters could be tested on every character.
instance : Decidable (EndsOpen before) :=
  decidable_of_iff (before.getLast?.all (!continuesName ·)) (by simp [EndsOpen, Option.all_eq_true])

instance {p : Char → Bool} : Decidable (EndsAt p after) :=
  decidable_of_iff (after.head?.all (!p ·)) (by simp [EndsAt, Option.all_eq_true])

instance : Decidable (IsMention before word after) :=
  decidable_of_iff
    (before.count '\'' % 2 = 0 ∧ word.head?.any startsName ∧ word.all continuesName ∧
      EndsOpen before ∧ EndsAt continuesName after ∧ after.head? ≠ some '(' ∧
      isBoolean (String.ofList word) = false)
    (by simp [isMention_iff, Nat.even_iff, Option.any_eq_true])

@[ext]
structure Mention (text : List Char) where
  before : List Char
  word : List Char
  after : List Char
  eq : text = before ++ (word ++ after)
  isMention : IsMention before word after

namespace Mention

def place (m : Mention text) : Nat := m.before.length

def name (m : Mention text) : String := String.ofList m.word

def at? (text : List Char) (i : Nat) : Option (Mention text) :=
  let rest := text.drop i
  if h : IsMention (text.take i) (rest.takeWhile continuesName) (rest.dropWhile continuesName) then
    some ⟨_, _, _, by rw [List.takeWhile_append_dropWhile, List.take_append_drop], h⟩
  else none

lemma at?_place (m : Mention text) : at? text m.place = some m := by
  obtain ⟨before, word, after, rfl, h⟩ := m
  have hword := takeWhile_append_of_endsAt h.continues h.ends
  have hafter := dropWhile_append_of_endsAt h.continues h.ends
  simp [at?, place, hword, hafter, h]

lemma place_of_at? {i : Nat} {m : Mention text} (h : at? text i = some m) (hi : i < text.length) :
    m.place = i := by
  rw [at?] at h
  split at h
  · cases h
    simp [place, hi.le]
  · cases h

lemma place_lt (m : Mention text) : m.place < text.length := by
  obtain ⟨c, hc, -⟩ := m.isMention.starts
  obtain ⟨cs, hword⟩ := List.head?_eq_some_iff.mp hc
  have hlen := congrArg List.length m.eq
  simp only [hword, List.length_append, List.length_cons] at hlen
  rw [place]
  omega

end Mention

def mentions (text : List Char) : List (Mention text) :=
  (List.range text.length).filterMap (Mention.at? text)

lemma mem_mentions (m : Mention text) : m ∈ mentions text :=
  List.mem_filterMap.mpr ⟨m.place, List.mem_range.mpr m.place_lt, m.at?_place⟩

lemma pairwise_mentions (text : List Char) :
    (mentions text).Pairwise (fun m m' => m.place < m'.place) := by
  rw [mentions, List.pairwise_filterMap]
  refine List.Pairwise.imp_of_mem ?_ List.pairwise_lt_range
  intro i j hi hj hij m hm m' hm'
  rwa [Mention.place_of_at? hm (List.mem_range.mp hi), Mention.place_of_at? hm' (List.mem_range.mp hj)]

example : (mentions "1.5 == a('b', c.*, d-e(F), true)".toList).map Mention.name = ["c.*", "F"] := by
  decide +kernel

/-! ### Scanning a part of a text -/

/-- The name that is mentioned between two texts, at the head of the second. -/
def nameAt? (before rest : List Char) : Option String :=
  let word := rest.takeWhile continuesName
  if IsMention before word (rest.dropWhile continuesName) then some (String.ofList word) else none

/-- The names that are mentioned from within a part of a text on. -/
def namesWithin (before : List Char) : List Char → List Char → List String
  | [], _ => []
  | c :: u, after =>
    (nameAt? before (c :: (u ++ after))).toList ++ namesWithin (before ++ [c]) u after

lemma Mention.map_name_at? (text : List Char) (i : Nat) :
    (at? text i).map name = nameAt? (text.take i) (text.drop i) := by
  rw [at?, nameAt?]
  split <;> rfl

lemma filterMap_range_eq_namesWithin (before u after : List Char) :
    (List.range u.length).filterMap (fun i => nameAt? (before ++ u.take i) (u.drop i ++ after)) =
      namesWithin before u after := by
  induction u generalizing before with
  | nil => rfl
  | cons c u ih =>
    have htail := ih (before ++ [c])
    simp only [List.append_assoc, List.singleton_append] at htail
    rw [List.length_cons, List.range_succ_eq_map, List.filterMap_cons, List.filterMap_map,
      namesWithin, ← htail]
    simp only [List.take_zero, List.append_nil, List.drop_zero, List.cons_append]
    cases nameAt? before (c :: (u ++ after)) <;> rfl

lemma map_name_mentions (text : List Char) :
    (mentions text).map Mention.name = namesWithin [] text [] := by
  rw [mentions, List.map_filterMap, ← filterMap_range_eq_namesWithin]
  simp only [Mention.map_name_at?, List.nil_append, List.append_nil]

lemma namesWithin_append (before u v after : List Char) :
    namesWithin before (u ++ v) after =
      namesWithin before u (v ++ after) ++ namesWithin (before ++ u) v after := by
  induction u generalizing before with
  | nil => simp [namesWithin]
  | cons c u ih => simp [namesWithin, ih]

lemma nameAt?_of_notStarting (h : ∀ c ∈ rest.head?, startsName c = false) :
    nameAt? before rest = none := by
  apply if_neg
  intro hm
  obtain ⟨c, hc, hstarts⟩ := hm.starts
  rw [List.head?_takeWhile, Option.mem_def, Option.filter_eq_some_iff] at hc
  rw [h c hc.1] at hstarts
  cases hstarts

lemma nameAt?_of_quoted (h : ¬ Even (before.count '\'')) : nameAt? before rest = none :=
  if_neg fun hm => h hm.unquoted

lemma nameAt?_of_continued (h : ∃ c ∈ before.getLast?, continuesName c = true) :
    nameAt? before rest = none := by
  obtain ⟨c, hc, hcontinues⟩ := h
  apply if_neg
  intro hm
  rw [hm.opens c hc] at hcontinues
  cases hcontinues

lemma nameAt?_of_name (heven : Even (before.count '\'')) (hopen : EndsOpen before)
    (hc : startsName c = true) (hword : ∀ d ∈ word, continuesName d = true)
    (hends : EndsAt continuesName rest) :
    nameAt? before (c :: (word ++ rest)) =
      if rest.head? = some '(' ∨ isBoolean (String.ofList (c :: word)) then none
      else some (String.ofList (c :: word)) := by
  have hall : ∀ d ∈ c :: word, continuesName d = true :=
    List.forall_mem_cons.mpr ⟨continuesName_of_startsName hc, hword⟩
  rw [nameAt?, ← List.cons_append, takeWhile_append_of_endsAt hall hends,
    dropWhile_append_of_endsAt hall hends]
  split_ifs with hm hnot hnot
  · rcases hnot with hcall | hbool
    · exact absurd hcall hm.uncalled
    · rw [hm.context] at hbool
      cases hbool
  · rfl
  · rfl
  · rw [not_or, Bool.not_eq_true] at hnot
    exact absurd ⟨heven, ⟨c, rfl, hc⟩, hall, hopen, hends, hnot.1, hnot.2⟩ hm

lemma namesWithin_of_notStarting (h : u.any startsName = false) :
    namesWithin before u after = [] := by
  induction u generalizing before with
  | nil => rfl
  | cons c u ih =>
    obtain ⟨hc, hu⟩ := Bool.or_eq_false_iff.mp (List.any_cons ▸ h)
    rw [namesWithin, ih hu, nameAt?_of_notStarting (by simpa using hc)]
    rfl

/-- Within a run of name characters no name begins. -/
lemma namesWithin_of_continued (h : ∃ c ∈ before.getLast?, continuesName c = true)
    (hu : ∀ c ∈ u, continuesName c = true) : namesWithin before u after = [] := by
  induction u generalizing before with
  | nil => rfl
  | cons c u ih =>
    obtain ⟨hc, hu⟩ := List.forall_mem_cons.mp hu
    rw [namesWithin, nameAt?_of_continued h, ih ⟨c, by simp, hc⟩ hu]
    rfl

lemma namesWithin_of_name (heven : Even (before.count '\'')) (hopen : EndsOpen before)
    (hc : startsName c = true) (hword : ∀ d ∈ word, continuesName d = true)
    (hends : EndsAt continuesName rest) :
    namesWithin before (c :: word) rest =
      if rest.head? = some '(' ∨ isBoolean (String.ofList (c :: word)) then []
      else [String.ofList (c :: word)] := by
  have hlast : ∃ d ∈ (before ++ [c]).getLast?, continuesName d = true :=
    ⟨c, by simp, continuesName_of_startsName hc⟩
  rw [namesWithin, nameAt?_of_name heven hopen hc hword hends, namesWithin_of_continued hlast hword,
    List.append_nil]
  split <;> rfl

/-- Within quotes no name begins; the two quotes of a doubled one leave the text as it was. -/
lemma namesWithin_of_quoted (h : ¬ Even (before.count '\'')) (s : List Char) :
    namesWithin before (doubled s ++ ['\'']) after = [] := by
  induction s generalizing before with
  | nil => exact namesWithin_of_notStarting (by decide)
  | cons c s ih =>
    rw [doubled_cons, List.append_assoc, namesWithin_append]
    by_cases hc : c = '\''
    · rw [if_pos hc, namesWithin_of_notStarting (by decide), List.nil_append]
      have htwo : Even (['\'', '\''].count '\'') := by decide
      apply ih
      rwa [List.count_append, Nat.even_add, iff_true_right htwo]
    · rw [if_neg hc, namesWithin, namesWithin, nameAt?_of_quoted h]
      apply ih
      rwa [List.count_append, List.count_singleton, if_neg (by simpa using hc)]

/-! ### Words -/

/-- Characters that neither belong to a name nor say what it is. -/
def IsGap (u : List Char) : Prop := ∀ c ∈ u, extendsOperand c = false

instance : Decidable (IsGap u) :=
  decidable_of_iff (u.all (!extendsOperand ·)) (by simp [IsGap])

lemma startsName_of_extendsOperand (h : extendsOperand c = false) : startsName c = false := by
  cases hc : startsName c with
  | false => rfl
  | true => simp [extendsOperand, continuesName_of_startsName hc] at h

lemma IsGap.namesWithin_eq (h : IsGap u) : namesWithin before u after = [] :=
  namesWithin_of_notStarting <| List.any_eq_false.mpr fun c hc => by
    simp [startsName_of_extendsOperand (h c hc)]

lemma IsGap.count_quote (h : IsGap u) : u.count '\'' = 0 := by
  rw [List.count_eq_zero]
  intro hmem
  exact absurd (h _ hmem) (by decide)

lemma endsOpen_append (hu : EndsOpen u) (h : u = [] → EndsOpen before) :
    EndsOpen (before ++ u) := by
  intro c hc
  rw [List.getLast?_append, Option.mem_def, Option.or_eq_some_iff] at hc
  rcases hc with hc | ⟨hnone, hc⟩
  · exact hu c hc
  · exact h (List.getLast?_eq_none_iff.mp hnone) c hc

lemma IsGap.endsOpen (h : IsGap u) : EndsOpen u := by
  intro c hc
  have hend := h c (List.mem_of_getLast? hc)
  simp only [extendsOperand, Bool.or_eq_false_iff] at hend
  exact hend.1.1

lemma IsGap.append (hu : IsGap u) (hv : IsGap v) : IsGap (u ++ v) :=
  List.forall_mem_append.mpr ⟨hu, hv⟩

lemma isGap_of_isSpace (h : ∀ c ∈ u, isSpace c = true) : IsGap u :=
  fun c hc => extendsOperand_of_isSpace (h c hc)

lemma isGap_of_isBlank (h : ∀ c ∈ u, isBlank c = true) : IsGap u :=
  fun c hc => eq_false_of_isBlank (by decide +kernel) (h c hc)

end Names

namespace Token

/-- The context that a word mentions. -/
def context? : Token → Option String
  | .name s => if isBoolean s then none else some s
  | _ => none

variable {t : Token} {w before after : List Char}

lemma even_count_doubled (s : List Char) : Even ((doubled s).count '\'') := by
  induction s with
  | nil => decide
  | cons c s ih =>
    rw [doubled_cons, List.count_append, Nat.even_add, iff_true_right ih]
    split
    · decide
    · next hc => simp [hc]

lemma even_count_of_continues (h : ∀ c ∈ w, continuesName c = true) : Even (w.count '\'') := by
  have hnone : '\'' ∉ w := fun hmem => absurd (h _ hmem) (by decide)
  rw [List.count_eq_zero.mpr hnone]
  exact Even.zero

/-- Every quote that a word opens it closes. -/
lemma Spelled.even_count (h : t.Spelled w) : Even (w.count '\'') := by
  have digits {ds : List Char} (hd : ∀ c ∈ ds, c.isDigit = true) :
      ∀ c ∈ ds, continuesName c = true := fun c hc => continuesName_of_isDigit (hd c hc)
  cases h with
  | whole _ hd => exact even_count_of_continues (digits hd)
  | decimal _ hd _ hf =>
    apply even_count_of_continues
    exact List.forall_mem_append.mpr ⟨digits hd, List.forall_mem_cons.mpr ⟨rfl, digits hf⟩⟩
  | text s =>
    rw [List.count_cons_self, List.count_append, List.count_singleton_self, add_assoc]
    exact (even_count_doubled s).add (by decide)
  | name hc hcs =>
    apply even_count_of_continues
    exact List.forall_mem_cons.mpr ⟨continuesName_of_startsName hc, hcs⟩
  | @call c cs hc hcs =>
    have hname : Even ((c :: cs).count '\'') := by
      apply even_count_of_continues
      exact List.forall_mem_cons.mpr ⟨continuesName_of_startsName hc, hcs⟩
    rw [← List.cons_append, List.count_append]
    exact hname.add (by decide)
  | _ => decide

lemma Spelled.endsOpen (h : t.Spelled w) (ht : t.endsOperand = false) : EndsOpen w := by
  cases h with
  | whole | decimal | text | name => cases ht
  | @call c cs =>
    intro d hd
    obtain rfl : '(' = d := by simpa [List.getLast?_cons] using hd
    rfl
  | _ => decide

lemma any_startsName_of_isDigit (h : ∀ c ∈ w, c.isDigit = true) : w.any startsName = false :=
  List.any_eq_false.mpr fun c hc => by simp [startsName_of_isDigit (h c hc)]

/-- A word mentions its context and nothing else. -/
lemma Spelled.namesWithin_eq (h : t.Spelled w) (heven : Even (before.count '\''))
    (hopen : t.startsOperand = true → EndsOpen before)
    (hends : t.endsOperand = true → EndsAt extendsOperand after) :
    namesWithin before w after = t.context?.toList := by
  have hname (ht : t.endsOperand = true) : EndsAt continuesName after :=
    (hends ht).imp fun c hc => by simp [extendsOperand, hc]
  cases h with
  | whole _ hd => exact namesWithin_of_notStarting (any_startsName_of_isDigit hd)
  | @decimal ds fs hne hd _ hf =>
    have hlast : ∃ c ∈ (before ++ ds).getLast?, continuesName c = true :=
      ⟨ds.getLast hne, by simp [List.getLast?_append_of_ne_nil _ hne, List.getLast?_eq_some_getLast hne],
        continuesName_of_isDigit (hd _ (List.getLast_mem hne))⟩
    rw [namesWithin_append, namesWithin_of_notStarting (any_startsName_of_isDigit hd)]
    exact namesWithin_of_continued hlast
      (List.forall_mem_cons.mpr ⟨by decide, fun c hc => continuesName_of_isDigit (hf c hc)⟩)
  | text s =>
    rw [namesWithin, nameAt?_of_notStarting (by simp [startsName]), namesWithin_of_quoted]
    · rfl
    · rw [List.count_append, Nat.even_add, iff_true_left heven]
      decide
  | @name c cs hc hcs =>
    have hparen : after.head? ≠ some '(' := fun h => absurd (hends rfl '(' h) (by decide)
    rw [namesWithin_of_name heven (hopen rfl) hc hcs (hname rfl), context?]
    simp only [hparen, false_or]
    split <;> rfl
  | @call c cs hc hcs =>
    have hparen : EndsAt continuesName (['('] ++ after) := by
      intro d hd
      obtain rfl : '(' = d := by simpa using hd
      rfl
    rw [← List.cons_append, namesWithin_append, namesWithin_of_name heven (hopen rfl) hc hcs hparen,
      if_pos (.inl rfl)]
    exact namesWithin_of_notStarting (by decide)
  | _ => exact namesWithin_of_notStarting (by decide)

end Token

/-! ### Whole texts -/

variable {ts : List Token} {e : Expression} {cs before after : List Char}

lemma endsAt_append {p : Char → Bool} (hcs : EndsAt p cs) (hafter : EndsAt p after) :
    EndsAt p (cs ++ after) := by
  cases cs with
  | nil => exact hafter
  | cons c cs => exact hcs

lemma Layout.namesWithin_eq (h : Layout ts cs) (hapart : ts.IsChain Apart)
    (heven : Even (before.count '\''))
    (hopen : ∀ t ∈ ts.head?, t.startsOperand = true → EndsOpen before)
    (hends : EndsAt extendsOperand after) :
    namesWithin before cs after = ts.filterMap context? := by
  induction h generalizing before with
  | blank hbs => exact (isGap_of_isSpace hbs).namesWithin_eq
  | @word bs w cs t ts hbs hw hl ih =>
    obtain ⟨hhead, htail⟩ := List.isChain_cons.mp hapart
    have hgap := isGap_of_isSpace hbs
    have heven' : Even ((before ++ bs).count '\'') := by
      rwa [List.count_append, hgap.count_quote, add_zero]
    have hopen' (ht : t.startsOperand = true) : EndsOpen (before ++ bs) :=
      endsOpen_append hgap.endsOpen fun _ => hopen t rfl ht
    have hends' (ht : t.endsOperand = true) : EndsAt extendsOperand (cs ++ after) :=
      endsAt_append ((hl.bounded hhead).operand ht) hends
    have hrest : namesWithin (before ++ bs ++ w) cs after = ts.filterMap context? := by
      -- Behind each word quotes are closed, and an operand comes only where no name is left open.
      apply ih htail
      · rw [List.count_append]
        exact heven'.add hw.even_count
      · intro u hu hstarts
        have ht : t.endsOperand = false := by
          rw [Bool.eq_false_iff]
          intro ht
          rw [(hhead u hu).1 ht] at hstarts
          cases hstarts
        obtain ⟨c, w', rfl, -⟩ := hw.head
        exact endsOpen_append (hw.endsOpen ht) fun hnil => absurd hnil (List.cons_ne_nil c w')
    rw [namesWithin_append, hgap.namesWithin_eq, List.nil_append, namesWithin_append,
      hw.namesWithin_eq heven' hopen' hends', hrest, List.filterMap_cons]
    cases t.context? <;> rfl

lemma filterMap_commaSeparated (parts : List (List Token)) :
    (commaSeparated parts).filterMap context? = parts.flatMap (·.filterMap context?) := by
  induction parts with
  | nil => rfl
  | cons ts rest ih =>
    by_cases hrest : rest = []
    · subst hrest
      simp [commaSeparated]
    · rw [commaSeparated_cons ts hrest, List.filterMap_append, List.filterMap_cons_none rfl, ih,
        List.flatMap_cons]

lemma contextsOfAll_eq_flatMap (es : List Expression) :
    contextsOfAll es = es.flatMap contexts := by
  induction es with
  | nil => rfl
  | cons e es ih => rw [contextsOfAll, ih, List.flatMap_cons]

lemma Phrase.contexts_eq {level : Level} (h : Phrase level ts e) :
    e.contexts = ts.filterMap context? := by
  induction h with
  | or _ _ iha ihb | and _ _ iha ihb | equal _ _ iha ihb | notEqual _ _ iha ihb =>
    rw [contexts, iha, ihb, List.filterMap_append, List.filterMap_cons_none rfl]
  | conjunction _ ih | comparison _ ih | operand _ ih => exact ih
  | not _ ih => rw [contexts, ih, List.filterMap_cons_none rfl]
  | group _ ih =>
    rw [ih, List.filterMap_cons_none rfl, List.filterMap_append]
    simp [context?]
  | number x => rfl
  | text s => rfl
  | name s =>
    rw [contexts, List.filterMap_cons, context?]
    split <;> rfl
  | call f args _ ih =>
    rw [contexts, contextsOfAll_eq_flatMap, List.filterMap_cons_none rfl, List.filterMap_append,
      filterMap_commaSeparated, List.filterMap_cons_none rfl, List.filterMap_nil, List.append_nil,
      List.flatMap_map, List.flatMap_map]
    exact List.flatMap_congr ih

lemma exists_gaps_of_body {body : List Char} (h : Body cs body) :
    ∃ front back, cs = front ++ (body ++ back) ∧ IsGap front ∧ IsGap back := by
  obtain ⟨front, back, hcs, hfront, hback⟩ := Text.exists_between isBlank cs
  rw [← trimChars_eq_between] at hcs
  cases h with
  | bare _ => exact ⟨front, back, hcs, isGap_of_isBlank hfront, isGap_of_isBlank hback⟩
  | @fenced inner heq =>
    obtain ⟨front', back', hinner, hfront', hback'⟩ := Text.exists_between isBlank inner
    rw [← trimChars_eq_between] at hinner
    have hopening : IsGap ['$', '\x7b', '\x7b'] := by decide
    have hclosing : IsGap ['\x7d', '\x7d'] := by decide
    refine ⟨front ++ (['$', '\x7b', '\x7b'] ++ front'), back' ++ (['\x7d', '\x7d'] ++ back), ?_,
      (isGap_of_isBlank hfront).append (hopening.append (isGap_of_isBlank hfront')),
      (isGap_of_isBlank hback').append (hclosing.append (isGap_of_isBlank hback))⟩
    calc
      cs = front ++ (fenced inner ++ back) := by rw [← heq, ← hcs]
      _ = front ++ (fenced (front' ++ (trimChars inner ++ back')) ++ back) := by rw [← hinner]
      _ = _ := by simp only [fenced, List.append_assoc]

/-- The contexts of a tree that is read are the names that its text mentions, as often as it mentions
them and in the order of their places. -/
theorem contexts_eq_mentions {s : String} (h : parse? s = some e) :
    ∃ ms : List (Mention s.toList), (∀ m, m ∈ ms) ∧ ms.Pairwise (fun m m' => m.place < m'.place) ∧
      e.contexts = ms.map Mention.name := by
  obtain ⟨body, ts, hbody, hlayout, hphrase⟩ := (parse?_eq_some_iff s e).mp h
  obtain ⟨front, back, hs, hfront, hback⟩ := exists_gaps_of_body hbody
  refine ⟨mentions s.toList, mem_mentions, pairwise_mentions _, ?_⟩
  have hbodyNames : namesWithin front body back = ts.filterMap context? := by
    apply hlayout.namesWithin_eq hphrase.regular.apart
    · rw [hfront.count_quote]
      exact Even.zero
    · exact fun _ _ _ => hfront.endsOpen
    · exact fun c hc => hback c (List.mem_of_head? hc)
  rw [map_name_mentions, hs, namesWithin_append, hfront.namesWithin_eq, namesWithin_append,
    hback.namesWithin_eq]
  simpa [hphrase.contexts_eq] using hbodyNames.symm

/-- The same name twice, on either side of a truth value, behind a call and a quoted name. -/
theorem contexts_of_fenced_disjunction :
    ∃ e, parse? "$\x7b\x7b !f(.body, 'it''s a') && env.X-* == TRUE || 1.5 != env.X-* \x7d\x7d" = some e ∧
      e.contexts = [".body", "env.X-*", "env.X-*"] ∧
      ∃ ms : List (Mention
          "$\x7b\x7b !f(.body, 'it''s a') && env.X-* == TRUE || 1.5 != env.X-* \x7d\x7d".toList),
        (∀ m, m ∈ ms) ∧ ms.Pairwise (fun m m' => m.place < m'.place) ∧
        e.contexts = ms.map Mention.name := by
  let e : Expression :=
    .binary .or
      (.binary .and (.not (.call "f" [.name ".body", .text "it's a"]))
        (.binary .equal (.name "env.X-*") (.name "TRUE")))
      (.binary .notEqual (.number (Binary64.ofDecimal false 15 (-1))) (.name "env.X-*"))
  have hparse : parse? "$\x7b\x7b !f(.body, 'it''s a') && env.X-* == TRUE || 1.5 != env.X-* \x7d\x7d" =
      some e := (parse?_ofList _).trans rfl
  exact ⟨e, hparse, rfl, contexts_eq_mentions hparse⟩

end WorkflowAudit.Expression
