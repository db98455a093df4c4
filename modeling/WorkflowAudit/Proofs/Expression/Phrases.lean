import WorkflowAudit.Proofs.Expression.Grammar

/-! Reading a list of words succeeds exactly on the phrases, with the tree that the phrase spells. -/

namespace WorkflowAudit.Expression

open Level

lemma Phrase.tighter {level : Level} {ts : List Token} {e : Expression}
    (h : Phrase level.tighter ts e) : Phrase level ts e := by
  cases level with
  | disjunction => exact .conjunction h
  | conjunction => exact .comparison h
  | comparison => exact .operand h
  | operand => exact h

lemma Phrase.binary {level : Level} {t : Token} {op : BinaryOp} (ht : level.operator? t = some op)
    {ts us : List Token} {a b : Expression} (ha : Phrase level ts a) (hb : Phrase level.tighter us b) :
    Phrase level (ts ++ t :: us) (.binary op a b) := by
  cases level <;> cases t <;> cases ht
  · exact .or ha hb
  · exact .and ha hb
  · exact .equal ha hb
  · exact .notEqual ha hb

lemma commaSeparated_cons (ts : List Token) {rest : List (List Token)} (h : rest ≠ []) :
    commaSeparated (ts :: rest) = ts ++ .comma :: commaSeparated rest := by
  cases rest with
  | nil => exact absurd rfl h
  | cons _ _ => rfl

/-! ### Whatever is read is a phrase -/

def LevelSound (fuel : Nat) : Prop :=
  ∀ {level ts e rest}, parseLevel fuel level ts = some (e, rest) →
    ∃ used, ts = used ++ rest ∧ Phrase level used e

def ChainSound (fuel : Nat) : Prop :=
  ∀ {level lhs ts e rest before}, parseChain fuel level lhs ts = some (e, rest) →
    Phrase level before lhs → ∃ used, ts = used ++ rest ∧ Phrase level (before ++ used) e

def ArgumentsSound (fuel : Nat) : Prop :=
  ∀ {ts es rest}, parseArguments fuel ts = some (es, rest) →
    ∃ args : List (List Token × Expression), args ≠ [] ∧ args.map (·.2) = es ∧
      ts = commaSeparated (args.map (·.1)) ++ .closing :: rest ∧
      ∀ a ∈ args, Phrase .disjunction a.1 a.2

lemma parseLevel_succ {level : Level} (h : level ≠ .operand) (fuel : Nat) (ts : List Token) :
    parseLevel (fuel + 1) level ts =
      (parseLevel fuel level.tighter ts).bind fun r => parseChain fuel level r.1 r.2 := by
  rw [parseLevel]
  · cases parseLevel fuel level.tighter ts <;> rfl
  · exact h

lemma chainSound_succ {fuel : Nat} (hl : LevelSound fuel) (hc : ChainSound fuel) :
    ChainSound (fuel + 1) := by
  intro level lhs ts e rest before h hb
  cases ts with
  | nil =>
    simp only [parseChain, Option.some.injEq, Prod.mk.injEq] at h
    obtain ⟨rfl, rfl⟩ := h
    exact ⟨[], rfl, by simpa using hb⟩
  | cons t ts =>
    rw [parseChain] at h
    cases ht : level.operator? t with
    | none =>
      simp only [ht, Option.some.injEq, Prod.mk.injEq] at h
      obtain ⟨rfl, rfl⟩ := h
      exact ⟨[], rfl, by simpa using hb⟩
    | some op =>
      cases hr : parseLevel fuel level.tighter ts with
      | none => simp [ht, hr] at h
      | some r =>
        obtain ⟨rhs, ts'⟩ := r
        simp only [ht, hr] at h
        obtain ⟨us, rfl, hu⟩ := hl hr
        obtain ⟨vs, rfl, hv⟩ := hc h (Phrase.binary ht hb hu)
        exact ⟨t :: (us ++ vs), by simp, by simpa using hv⟩

lemma argumentsSound_succ {fuel : Nat} (hl : LevelSound fuel) (ha : ArgumentsSound fuel) :
    ArgumentsSound (fuel + 1) := by
  intro ts es rest h
  rw [parseArguments] at h
  split at h
  · next e ts' hr =>
    obtain ⟨us, rfl, hu⟩ := hl hr
    cases hs : parseArguments fuel ts' with
    | none => simp [hs] at h
    | some r =>
      obtain ⟨es', ts''⟩ := r
      simp only [hs, Option.some.injEq, Prod.mk.injEq] at h
      obtain ⟨rfl, rfl⟩ := h
      obtain ⟨args, hne, rfl, rfl, hall⟩ := ha hs
      refine ⟨(us, e) :: args, by simp, rfl, ?_, List.forall_mem_cons.mpr ⟨hu, hall⟩⟩
      rw [List.map_cons, commaSeparated_cons us (by simpa using hne)]
      simp
  · next e ts' hr =>
    simp only [Option.some.injEq, Prod.mk.injEq] at h
    obtain ⟨rfl, rfl⟩ := h
    obtain ⟨us, rfl, hu⟩ := hl hr
    exact ⟨[(us, e)], by simp, rfl, rfl, by simpa using hu⟩
  · simp at h

lemma call_sound {fuel : Nat} (ha : ArgumentsSound fuel) {f : String} {ts rest : List Token}
    {e : Expression} (h : parseLevel (fuel + 1) .operand (.call f :: ts) = some (e, rest)) :
    ∃ used, .call f :: ts = used ++ rest ∧ Phrase .operand used e := by
  by_cases hclose : ∃ ts', ts = .closing :: ts'
  · obtain ⟨ts', rfl⟩ := hclose
    simp only [parseLevel, Option.some.injEq, Prod.mk.injEq] at h
    obtain ⟨rfl, rfl⟩ := h
    exact ⟨[.call f, .closing], rfl, .call f [] (by simp)⟩
  · rw [parseLevel] at h
    · cases hr : parseArguments fuel ts with
      | none => simp [hr] at h
      | some r =>
        obtain ⟨es, ts'⟩ := r
        simp only [hr, Option.some.injEq, Prod.mk.injEq] at h
        obtain ⟨rfl, rfl⟩ := h
        obtain ⟨args, -, rfl, rfl, hall⟩ := ha hr
        exact ⟨_, by simp, .call f args hall⟩
    · exact fun ts' hts => hclose ⟨ts', hts⟩

lemma operand_sound {fuel : Nat} (hl : LevelSound fuel) (ha : ArgumentsSound fuel)
    {ts rest : List Token} {e : Expression} (h : parseLevel (fuel + 1) .operand ts = some (e, rest)) :
    ∃ used, ts = used ++ rest ∧ Phrase .operand used e := by
  cases ts with
  | nil => simp [parseLevel] at h
  | cons t ts =>
    cases t with
    | not =>
      cases hr : parseLevel fuel .operand ts with
      | none => simp [parseLevel, hr] at h
      | some r =>
        obtain ⟨a, ts'⟩ := r
        simp only [parseLevel, hr, Option.some.injEq, Prod.mk.injEq] at h
        obtain ⟨rfl, rfl⟩ := h
        obtain ⟨us, rfl, hu⟩ := hl hr
        exact ⟨.not :: us, rfl, .not hu⟩
    | opening =>
      rw [parseLevel] at h
      split at h
      · next a ts' hr =>
        simp only [Option.some.injEq, Prod.mk.injEq] at h
        obtain ⟨rfl, rfl⟩ := h
        obtain ⟨us, rfl, hu⟩ := hl hr
        exact ⟨.opening :: (us ++ [.closing]), by simp, .group hu⟩
      · simp at h
    | number x =>
      simp only [parseLevel, Option.some.injEq, Prod.mk.injEq] at h
      obtain ⟨rfl, rfl⟩ := h
      exact ⟨[.number x], rfl, .number x⟩
    | text s =>
      simp only [parseLevel, Option.some.injEq, Prod.mk.injEq] at h
      obtain ⟨rfl, rfl⟩ := h
      exact ⟨[.text s], rfl, .text s⟩
    | name s =>
      simp only [parseLevel, Option.some.injEq, Prod.mk.injEq] at h
      obtain ⟨rfl, rfl⟩ := h
      exact ⟨[.name s], rfl, .name s⟩
    | call f => exact call_sound ha h
    | _ => simp [parseLevel] at h

lemma levelSound_succ {fuel : Nat} (hl : LevelSound fuel) (hc : ChainSound fuel)
    (ha : ArgumentsSound fuel) : LevelSound (fuel + 1) := by
  intro level ts e rest h
  by_cases hlevel : level = .operand
  · subst hlevel
    exact operand_sound hl ha h
  · rw [parseLevel_succ hlevel] at h
    obtain ⟨⟨a, ts'⟩, hr, hchain⟩ := Option.bind_eq_some_iff.mp h
    obtain ⟨us, rfl, hu⟩ := hl hr
    obtain ⟨vs, rfl, hv⟩ := hc hchain (Phrase.tighter hu)
    exact ⟨us ++ vs, by simp, hv⟩

lemma parse_sound (fuel : Nat) : LevelSound fuel ∧ ChainSound fuel ∧ ArgumentsSound fuel := by
  induction fuel with
  | zero => refine ⟨?_, ?_, ?_⟩ <;> intro <;> simp_all [parseLevel, parseChain, parseArguments]
  | succ fuel ih =>
    obtain ⟨hl, hc, ha⟩ := ih
    exact ⟨levelSound_succ hl hc ha, chainSound_succ hl hc, argumentsSound_succ hl ha⟩

/-! ### Words that may stand next to each other -/

namespace Token

def startsOperand : Token → Bool
  | .not | .opening | .number _ | .text _ | .name _ | .call _ => true
  | _ => false

def endsOperand : Token → Bool
  | .closing | .number _ | .text _ | .name _ => true
  | _ => false

/-- No operand follows another one, and an operand follows each negation. -/
def Apart (t u : Token) : Prop :=
  (t.endsOperand = true → u.startsOperand = false) ∧ (t = .not → u.startsOperand = true)

end Token

open Token

structure Regular (ts : List Token) : Prop where
  apart : ts.IsChain Apart
  starts : ∃ t ∈ ts.head?, t.startsOperand = true
  ends : ∃ t ∈ ts.getLast?, t.endsOperand = true

lemma Regular.ne_nil {ts : List Token} (h : Regular ts) : ts ≠ [] := by
  obtain ⟨t, ht, -⟩ := h.starts
  rintro rfl
  simp at ht

lemma Regular.singleton {t : Token} (hs : t.startsOperand = true) (he : t.endsOperand = true) :
    Regular [t] :=
  ⟨.singleton t, ⟨t, rfl, hs⟩, ⟨t, rfl, he⟩⟩

lemma Regular.joined {ts us : List Token} {t : Token} (ht : Regular ts) (hu : Regular us)
    (hs : t.startsOperand = false) (he : t.endsOperand = false) : Regular (ts ++ t :: us) := by
  obtain ⟨a, hta, has⟩ := ht.starts
  obtain ⟨b, htb, hbe⟩ := ht.ends
  obtain ⟨c, huc, hcs⟩ := hu.starts
  obtain ⟨d, hud, hde⟩ := hu.ends
  refine ⟨List.isChain_append.mpr ⟨ht.apart, List.isChain_cons.mpr ⟨?_, hu.apart⟩, ?_⟩, ?_, ?_⟩
  · intro y hy
    obtain rfl : y = c := Option.some.inj (hy.symm.trans huc)
    exact ⟨by simp [he], fun _ => hcs⟩
  · intro x hx y hy
    obtain rfl : x = b := Option.some.inj (hx.symm.trans htb)
    obtain rfl : t = y := by simpa using hy
    exact ⟨fun _ => hs, fun hx => by simp [hx, endsOperand] at hbe⟩
  · exact ⟨a, by simp [List.head?_append, Option.mem_def.mp hta], has⟩
  · refine ⟨d, ?_, hde⟩
    have hne : us ≠ [] := fun h => by simp [h] at huc
    simp [List.getLast?_append, List.getLast?_cons, Option.mem_def.mp hud]

lemma Regular.prefixed {ts : List Token} {t : Token} (hr : Regular ts)
    (hs : t.startsOperand = true) (he : t.endsOperand = false) : Regular (t :: ts) := by
  obtain ⟨c, htc, hcs⟩ := hr.starts
  obtain ⟨d, htd, hde⟩ := hr.ends
  refine ⟨List.isChain_cons.mpr ⟨?_, hr.apart⟩, ⟨t, rfl, hs⟩, ⟨d, ?_, hde⟩⟩
  · intro y hy
    obtain rfl : y = c := Option.some.inj (hy.symm.trans htc)
    exact ⟨by simp [he], fun _ => hcs⟩
  · simp [List.getLast?_cons, Option.mem_def.mp htd]

lemma Regular.enclosed {ts : List Token} {t : Token} (hr : Regular ts)
    (hs : t.startsOperand = true) (he : t.endsOperand = false) :
    Regular (t :: (ts ++ [.closing])) := by
  obtain ⟨c, htc, hcs⟩ := hr.starts
  obtain ⟨d, htd, hde⟩ := hr.ends
  refine ⟨List.isChain_cons.mpr ⟨?_, List.isChain_append.mpr ⟨hr.apart, .singleton _, ?_⟩⟩,
    ⟨t, rfl, hs⟩, ⟨.closing, by simp [List.getLast?_cons], rfl⟩⟩
  · intro y hy
    obtain rfl : c = y := by simpa [List.head?_append, Option.mem_def.mp htc] using hy
    exact ⟨by simp [he], fun _ => hcs⟩
  · intro x hx y hy
    obtain rfl : x = d := Option.some.inj (hx.symm.trans htd)
    obtain rfl : closing = y := by simpa using hy
    exact ⟨fun _ => rfl, fun hx => by simp [hx, endsOperand] at hde⟩

lemma regular_commaSeparated {parts : List (List Token)} (hne : parts ≠ [])
    (h : ∀ ts ∈ parts, Regular ts) : Regular (commaSeparated parts) := by
  induction parts with
  | nil => exact absurd rfl hne
  | cons ts rest ih =>
    have hts : Regular ts := h ts (by simp)
    by_cases hrest : rest = []
    · subst hrest
      exact hts
    · rw [commaSeparated_cons ts hrest]
      exact hts.joined (ih hrest fun us hu => h us (List.mem_cons_of_mem _ hu)) rfl rfl

lemma Phrase.regular {level : Level} {ts : List Token} {e : Expression} (h : Phrase level ts e) :
    Regular ts := by
  induction h with
  | or _ _ iha ihb => exact iha.joined ihb rfl rfl
  | and _ _ iha ihb => exact iha.joined ihb rfl rfl
  | equal _ _ iha ihb => exact iha.joined ihb rfl rfl
  | notEqual _ _ iha ihb => exact iha.joined ihb rfl rfl
  | conjunction _ ih => exact ih
  | comparison _ ih => exact ih
  | operand _ ih => exact ih
  | not _ ih => exact ih.prefixed rfl rfl
  | group _ ih => exact ih.enclosed rfl rfl
  | number x => exact .singleton rfl rfl
  | text s => exact .singleton rfl rfl
  | name s => exact .singleton rfl rfl
  | call f args _ ih =>
    by_cases hargs : args = []
    · subst hargs
      refine ⟨?_, ⟨.call f, rfl, rfl⟩, ⟨.closing, rfl, rfl⟩⟩
      exact List.isChain_cons.mpr ⟨fun y _ => ⟨by simp [endsOperand], by simp⟩, .singleton _⟩
    · refine (regular_commaSeparated (by simpa using hargs) ?_).enclosed rfl rfl
      intro ts hts
      obtain ⟨a, ha, rfl⟩ := List.mem_map.mp hts
      exact ih a ha

/-! ### Every phrase is read -/

/-- No operator of this level or a tighter one comes next. -/
def Stops (level : Level) (rest : List Token) : Prop :=
  ∀ t ∈ rest.head?, ∀ l : Level, l.looseness ≤ level.looseness → l.operator? t = none

lemma looseness_tighter {level : Level} (h : level ≠ .operand) :
    level.tighter.looseness + 1 = level.looseness := by
  cases level <;> simp_all [tighter, looseness]

lemma Stops.tighter {level : Level} {rest : List Token} (h : Stops level rest) :
    Stops level.tighter rest := by
  intro t ht l hl
  apply h t ht l
  cases level <;> simp_all [Level.tighter, looseness] <;> omega

lemma stops_of_operator {level : Level} {t : Token} {op : BinaryOp}
    (ht : level.operator? t = some op) (rest : List Token) : Stops level.tighter (t :: rest) := by
  intro u hu l hl
  obtain rfl : t = u := by simpa using hu
  cases level <;> cases t <;> simp [operator?] at ht <;> cases l <;>
    simp_all [Level.tighter, looseness, operator?]

lemma stops_nil (level : Level) : Stops level [] := by
  simp [Stops]

lemma stops_operand (rest : List Token) : Stops .operand rest := by
  intro t _ l hl
  cases l <;> simp_all [looseness, operator?]

lemma stops_closing (level : Level) (rest : List Token) : Stops level (.closing :: rest) := by
  intro t ht l _
  obtain rfl : Token.closing = t := by simpa using ht
  cases l <;> rfl

lemma stops_comma (level : Level) (rest : List Token) : Stops level (.comma :: rest) := by
  intro t ht l _
  obtain rfl : Token.comma = t := by simpa using ht
  cases l <;> rfl

lemma parseChain_of_stops {level : Level} {rest : List Token} (h : Stops level rest) (fuel : Nat)
    (e : Expression) : parseChain (fuel + 1) level e rest = some (e, rest) := by
  cases rest with
  | nil => rfl
  | cons t rest =>
    have ht : level.operator? t = none := h t rfl level le_rfl
    simp [parseChain, ht]

/-- Enough fuel for the words reads them off any list, and leaves the rest to the chain of operators
of their level. -/
def Reads (level : Level) (ts : List Token) (e : Expression) : Prop :=
  ∀ fuel rest, 4 * ts.length + level.looseness ≤ fuel → Stops level.tighter rest →
    ∃ left, fuel ≤ left + ts.length ∧
      parseLevel fuel level (ts ++ rest) = parseChain left level e rest

lemma Reads.parseLevel_eq {level : Level} {ts : List Token} {e : Expression}
    (h : Reads level ts e) (hne : ts ≠ []) {fuel : Nat} {rest : List Token}
    (hf : 4 * ts.length + level.looseness ≤ fuel) (hs : Stops level rest) :
    parseLevel fuel level (ts ++ rest) = some (e, rest) := by
  have hpos := List.length_pos_iff.mpr hne
  obtain ⟨left, hleft, hr⟩ := h fuel rest hf hs.tighter
  obtain ⟨left, rfl⟩ : ∃ n, left = n + 1 := ⟨left - 1, by omega⟩
  rw [hr, parseChain_of_stops hs]

lemma reads_operand {ts : List Token} {e : Expression} (hne : ts ≠ [])
    (h : ∀ fuel rest, 4 * ts.length ≤ fuel → parseLevel fuel .operand (ts ++ rest) = some (e, rest)) :
    Reads .operand ts e := by
  intro fuel rest hf _
  have hpos := List.length_pos_iff.mpr hne
  obtain ⟨fuel, rfl⟩ : ∃ n, fuel = n + 1 := ⟨fuel - 1, by omega⟩
  exact ⟨fuel + 1, by omega, by rw [h _ rest (by omega), parseChain_of_stops (stops_operand rest)]⟩

lemma Reads.looser (level : Level) {ts : List Token} {e : Expression} (hlevel : level ≠ .operand)
    (hne : ts ≠ []) (h : Reads level.tighter ts e) : Reads level ts e := by
  intro fuel rest hf hs
  have hpos := List.length_pos_iff.mpr hne
  have hl := looseness_tighter hlevel
  obtain ⟨fuel, rfl⟩ : ∃ n, fuel = n + 1 := ⟨fuel - 1, by omega⟩
  refine ⟨fuel, by omega, ?_⟩
  rw [parseLevel_succ hlevel, h.parseLevel_eq hne (by omega) hs]
  rfl

lemma Reads.binary (level : Level) {t : Token} {op : BinaryOp} (ht : level.operator? t = some op)
    {ts us : List Token} {a b : Expression} (hne : us ≠ []) (ha : Reads level ts a)
    (hb : Reads level.tighter us b) : Reads level (ts ++ t :: us) (.binary op a b) := by
  intro fuel rest hf hs
  have hlevel : level ≠ .operand := by
    rintro rfl
    simp [operator?] at ht
  have hl := looseness_tighter hlevel
  simp only [List.length_append, List.length_cons] at hf ⊢
  obtain ⟨left, hleft, hr⟩ := ha fuel (t :: (us ++ rest)) (by omega) (stops_of_operator ht _)
  obtain ⟨left, rfl⟩ : ∃ n, left = n + 1 := ⟨left - 1, by omega⟩
  have hus : parseLevel left level.tighter (us ++ rest) = some (b, rest) :=
    hb.parseLevel_eq hne (by omega) hs
  refine ⟨left, by omega, ?_⟩
  rw [List.append_assoc, List.cons_append, hr, parseChain]
  simp only [ht, hus]

lemma parseArguments_eq {args : List (List Token × Expression)} (hne : args ≠ [])
    (hreg : ∀ a ∈ args, Regular a.1) (h : ∀ a ∈ args, Reads .disjunction a.1 a.2) {fuel : Nat}
    (rest : List Token) (hf : 4 * (commaSeparated (args.map (·.1))).length + 4 ≤ fuel) :
    parseArguments fuel (commaSeparated (args.map (·.1)) ++ .closing :: rest) =
      some (args.map (·.2), rest) := by
  induction args generalizing fuel with
  | nil => exact absurd rfl hne
  | cons a args ih =>
    obtain ⟨fuel, rfl⟩ : ∃ n, fuel = n + 1 := ⟨fuel - 1, by omega⟩
    have hread := h a (by simp)
    have hane := (hreg a (by simp)).ne_nil
    by_cases hargs : args = []
    · subst hargs
      have hf' : 4 * a.1.length + looseness .disjunction ≤ fuel := by
        simp [commaSeparated] at hf
        simp [looseness]
        omega
      rw [parseArguments]
      simp [commaSeparated, hread.parseLevel_eq hane hf' (stops_closing _ rest)]
    · rw [List.map_cons, commaSeparated_cons a.1 (by simpa using hargs)] at hf ⊢
      simp only [List.length_append, List.length_cons] at hf
      have hf' : 4 * a.1.length + looseness .disjunction ≤ fuel := by
        simp [looseness]
        omega
      have hrestFuel : 4 * (commaSeparated (args.map (·.1))).length + 4 ≤ fuel := by omega
      have hrest := ih hargs (fun b hb => hreg b (List.mem_cons_of_mem _ hb))
        (fun b hb => h b (List.mem_cons_of_mem _ hb)) hrestFuel
      rw [parseArguments, List.append_assoc, List.cons_append,
        hread.parseLevel_eq hane hf' (stops_comma _ _)]
      simp [hrest]

lemma Phrase.ne_nil {level : Level} {ts : List Token} {e : Expression} (h : Phrase level ts e) :
    ts ≠ [] :=
  h.regular.ne_nil

lemma reads_single {t : Token} {e : Expression}
    (h : ∀ fuel rest, parseLevel (fuel + 1) .operand (t :: rest) = some (e, rest)) :
    Reads .operand [t] e := by
  apply reads_operand (by simp)
  intro fuel rest hf
  obtain ⟨fuel, rfl⟩ : ∃ n, fuel = n + 1 := ⟨fuel - 1, by simp at hf; omega⟩
  exact h fuel rest

lemma reads_call (f : String) {args : List (List Token × Expression)}
    (hreg : ∀ a ∈ args, Regular a.1) (h : ∀ a ∈ args, Reads .disjunction a.1 a.2) :
    Reads .operand (.call f :: (commaSeparated (args.map (·.1)) ++ [.closing]))
      (.call f (args.map (·.2))) := by
  apply reads_operand (by simp)
  intro fuel rest hf
  simp only [List.length_cons, List.length_append] at hf
  obtain ⟨fuel, rfl⟩ : ∃ n, fuel = n + 1 := ⟨fuel - 1, by omega⟩
  by_cases hargs : args = []
  · subst hargs
    rfl
  · have hfuel : 4 * (commaSeparated (args.map (·.1))).length + 4 ≤ fuel := by omega
    have hr := parseArguments_eq hargs hreg h rest hfuel
    have hparts : args.map (·.1) ≠ [] := by simpa using hargs
    -- The first word of the arguments is no closing parenthesis.
    obtain ⟨t, ht, hts⟩ := (regular_commaSeparated hparts
      (by simpa using fun ts e hts => hreg (ts, e) hts)).starts
    rw [List.cons_append, List.append_assoc, List.singleton_append, parseLevel, hr]
    intro rest' hclose
    have hhead := congrArg List.head? hclose
    rw [List.head?_append, Option.mem_def.mp ht] at hhead
    obtain rfl : t = .closing := by simpa using hhead
    simp [startsOperand] at hts

lemma Phrase.reads {level : Level} {ts : List Token} {e : Expression} (h : Phrase level ts e) :
    Reads level ts e := by
  induction h with
  | or _ hb iha ihb => exact iha.binary .disjunction rfl hb.ne_nil ihb
  | and _ hb iha ihb => exact iha.binary .conjunction rfl hb.ne_nil ihb
  | equal _ hb iha ihb => exact iha.binary .comparison rfl hb.ne_nil ihb
  | notEqual _ hb iha ihb => exact iha.binary .comparison rfl hb.ne_nil ihb
  | conjunction h ih => exact Reads.looser .disjunction (by decide) h.ne_nil ih
  | comparison h ih => exact Reads.looser .conjunction (by decide) h.ne_nil ih
  | operand h ih => exact Reads.looser .comparison (by decide) h.ne_nil ih
  | @not ts e h ih =>
    apply reads_operand (by simp)
    intro fuel rest hf
    simp only [List.length_cons] at hf
    obtain ⟨fuel, rfl⟩ : ∃ n, fuel = n + 1 := ⟨fuel - 1, by omega⟩
    have hts : parseLevel fuel .operand (ts ++ rest) = some (e, rest) :=
      ih.parseLevel_eq h.ne_nil (by simp [looseness]; omega) (stops_operand rest)
    simp [parseLevel, hts]
  | @group ts e h ih =>
    apply reads_operand (by simp)
    intro fuel rest hf
    simp only [List.length_cons, List.length_append] at hf
    obtain ⟨fuel, rfl⟩ : ∃ n, fuel = n + 1 := ⟨fuel - 1, by omega⟩
    have hts : parseLevel fuel .disjunction (ts ++ .closing :: rest) = some (e, .closing :: rest) :=
      ih.parseLevel_eq h.ne_nil (by simp [looseness]; omega) (stops_closing _ rest)
    simp [parseLevel, hts]
  | number x => exact reads_single (fun _ _ => rfl)
  | text s => exact reads_single (fun _ _ => rfl)
  | name s => exact reads_single (fun _ _ => rfl)
  | call f args h ih => exact reads_call f (fun a ha => (h a ha).regular) ih

theorem ofTokens?_eq_some_iff (ts : List Token) (e : Expression) :
    ofTokens? ts = some e ↔ Phrase .disjunction ts e := by
  constructor
  · intro h
    rw [ofTokens?] at h
    split at h
    · next e' hr =>
      obtain rfl := Option.some.inj h
      obtain ⟨used, rfl, hu⟩ := (parse_sound _).1 hr
      simpa using hu
    · simp at h
  · intro h
    have hr : parseLevel (5 * ts.length + 5) .disjunction (ts ++ []) = some (e, []) :=
      h.reads.parseLevel_eq h.ne_nil (by simp [looseness]; omega) (stops_nil _)
    rw [List.append_nil] at hr
    simp [ofTokens?, hr]

end WorkflowAudit.Expression
