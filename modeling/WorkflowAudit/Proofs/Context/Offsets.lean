import Mathlib.Data.List.Forall2
import WorkflowAudit.Proofs.Context.Interpolation
import WorkflowAudit.Proofs.Text.Encoding

/-! The scan for fences over the bytes of a text. An offset that it finds by looking at single bytes
is always a boundary between characters: the bytes of the marks stand for nothing else in UTF-8. -/

namespace WorkflowAudit.Context

open Text (Cut encoded encoded_append encoded_cons drop_encoded exists_cut eq_of_mem_utf8EncodeChar
  utf8EncodeChar_of_lt)

def openingBytes : List UInt8 := [0x24, 0x7b, 0x7b]

def bytesBeforeOpening : List UInt8 → Option Nat
  | [] => none
  | b :: bs =>
    if openingBytes.isPrefixOf (b :: bs) then some 0 else (bytesBeforeOpening bs).map (· + 1)

/-- The offset behind the first two braces in a row that close a fence. -/
def closingEnd (bytes : List UInt8) (quoted : Bool) (i : Nat) : Option Nat :=
  if h : i < bytes.length then
    if bytes[i] = 0x27 then closingEnd bytes (!quoted) (i + 1)
    else if bytes[i] = 0x7d ∧ quoted = false ∧ 0 < i ∧ bytes[i - 1] = 0x7d then some (i + 1)
    else closingEnd bytes quoted (i + 1)
  else none
termination_by bytes.length - i

lemma closingEnd_bounds {bytes : List UInt8} {quoted : Bool} {i stop : Nat}
    (h : closingEnd bytes quoted i = some stop) : i < stop ∧ stop ≤ bytes.length := by
  fun_induction closingEnd bytes quoted i with
  | case1 quoted i hi hquote ih => exact ⟨Nat.lt_of_succ_lt (ih h).1, (ih h).2⟩
  | case2 quoted i hi hquote hclose =>
    obtain rfl := Option.some.inj h
    exact ⟨Nat.lt_succ_self i, hi⟩
  | case3 quoted i hi hquote hclose ih => exact ⟨Nat.lt_of_succ_lt (ih h).1, (ih h).2⟩
  | case4 => cases h

/-- The offsets at which the bodies of the fences start and stop. -/
def fenceOffsets (bytes : List UInt8) (offset : Nat) : List (Nat × Nat) :=
  match bytesBeforeOpening (bytes.drop offset) with
  | none => []
  | some before =>
    let start := offset + before + 3
    match h : closingEnd bytes false start with
    | none => []
    | some stop => (start, stop - 2) :: fenceOffsets bytes stop
termination_by bytes.length - offset
decreasing_by
  have hbounds := closingEnd_bounds h
  omega

variable {c : Char} {cs rest pre : List Char} {b : UInt8} {bytes bs back : List UInt8} {i fuel : Nat}
  {q : Bool} {s : String}

lemma drop_add_length (h : bytes.drop i = bs ++ back) :
    bytes.drop (i + bs.length) = back := by
  rw [← List.drop_drop, h, List.drop_left]

lemma getElem?_of_drop (h : bytes.drop i = bs ++ back)
    (hbs : bs ≠ []) : bytes[i + bs.length - 1]? = bs.getLast? := by
  have hpos : 0 < bs.length := List.length_pos_iff.mpr hbs
  have hlast : (bytes.drop i)[bs.length - 1]? = bytes[i + (bs.length - 1)]? := List.getElem?_drop
  rw [h, List.getElem?_append_left (by omega), ← Nat.add_sub_assoc hpos] at hlast
  rw [← hlast, List.getLast?_eq_getElem?]

/-! ### The closing fence -/

lemma closingEnd_of_drop (h : bytes.drop i = b :: back) (q : Bool) :
    closingEnd bytes q i =
      if b = 0x27 then closingEnd bytes (!q) (i + 1)
      else if b = 0x7d ∧ q = false ∧ 0 < i ∧ bytes[i - 1]? = some 0x7d then some (i + 1)
      else closingEnd bytes q (i + 1) := by
  have hi : i < bytes.length := by
    rw [← Nat.not_le, ← List.drop_eq_nil_iff, h]
    exact List.cons_ne_nil b back
  have hb : bytes[i] = b := (List.cons.inj ((List.drop_eq_getElem_cons hi).symm.trans h)).1
  rw [closingEnd, dif_pos hi]
  simp only [hb, List.getElem?_eq_getElem (Nat.lt_of_le_of_lt (Nat.sub_le i 1) hi),
    Option.some.injEq]

lemma closingEnd_skip (h : bytes.drop i = bs ++ back)
    (hbs : ∀ b ∈ bs, b ≠ 0x27 ∧ b ≠ 0x7d) (q : Bool) :
    closingEnd bytes q i = closingEnd bytes q (i + bs.length) := by
  induction bs generalizing i with
  | nil => rfl
  | cons b bs ih =>
    obtain ⟨⟨hquote, hbrace⟩, hbs⟩ := List.forall_mem_cons.mp hbs
    have hdrop : bytes.drop (i + 1) = bs ++ back := drop_add_length (show _ = [b] ++ _ from h)
    rw [closingEnd_of_drop h, if_neg hquote, if_neg fun h => hbrace h.1, ih hdrop hbs,
      List.length_cons, Nat.add_assoc, Nat.add_comm 1]

/-- Both scans go on behind a character of the body, or stop at the first of two braces. -/
lemma closingEnd_step (h : bytes.drop i = encoded (c :: cs))
    (hprev : q = false → bytes[i - 1]? = some 0x7d → c ≠ '\x7d') :
    (∃ q', fencedBody q (c :: cs) = (fencedBody q' cs).map (fun r => (c :: r.1, r.2)) ∧
      closingEnd bytes q i = closingEnd bytes q' (i + (String.utf8EncodeChar c).length) ∧
      (q' = false → c = '\x7d' → cs.head? ≠ some '\x7d')) ∨
    fencedBody q (c :: cs) = some ([], cs.tail) ∧ closingEnd bytes q i = some (i + 2) := by
  by_cases hquote : c = '\''
  · subst hquote
    refine .inl ⟨!q, by simp [fencedBody], ?_, fun _ h => absurd h (by decide)⟩
    rw [closingEnd_of_drop (b := 0x27) h, if_pos rfl]
    rfl
  by_cases hbrace : c = '\x7d'
  · subst hbrace
    have hfirst : ¬ (q = false ∧ 0 < i ∧ bytes[i - 1]? = some 0x7d) := fun hbefore =>
      hprev hbefore.1 hbefore.2.2 rfl
    have hstep : closingEnd bytes q i = closingEnd bytes q (i + 1) := by
      rw [closingEnd_of_drop (b := 0x7d) h, if_neg (by decide), if_neg fun hb => hfirst hb.2]
    by_cases hclose : q = false ∧ cs.head? = some '\x7d'
    · obtain ⟨rfl, hhead⟩ := hclose
      obtain ⟨rest, rfl⟩ := List.head?_eq_some_iff.mp hhead
      have hlast : bytes[i + 1 - 1]? = some 0x7d :=
        getElem?_of_drop (show _ = [0x7d] ++ _ from h) (by decide)
      have hsecond : bytes.drop (i + 1) = 0x7d :: encoded rest :=
        drop_add_length (show _ = [0x7d] ++ _ from h)
      refine .inr ⟨rfl, ?_⟩
      rw [hstep, closingEnd_of_drop hsecond, if_neg (by decide),
        if_pos ⟨rfl, rfl, Nat.succ_pos i, hlast⟩]
    · refine .inl ⟨q, ?_, hstep, fun hq _ hhead => hclose ⟨hq, hhead⟩⟩
      have hgo : ¬ (!q && decide (cs.head? = some '\x7d')) = true := by simpa using hclose
      simp [fencedBody, hgo]
  · refine .inl ⟨q, by simp [fencedBody, hquote, hbrace], closingEnd_skip h ?_ q,
      fun _ h => absurd h hbrace⟩
    rintro b hb
    constructor <;> rintro rfl
    · exact hquote (eq_of_mem_utf8EncodeChar (by decide) hb)
    · exact hbrace (eq_of_mem_utf8EncodeChar (by decide) hb)

lemma closingEnd_encoded (h : bytes.drop i = encoded cs)
    (hprev : q = false → bytes[i - 1]? = some 0x7d → cs.head? ≠ some '\x7d') :
    closingEnd bytes q i = (fencedBody q cs).map fun r => i + (encoded r.1).length + 2 := by
  -- The scan looks one byte back. By `hprev` a brace there does not pair with the first character.
  induction cs generalizing i q with
  | nil =>
    rw [closingEnd, dif_neg (by simpa [encoded] using h)]
    rfl
  | cons c cs ih =>
    have hfirst : q = false → bytes[i - 1]? = some 0x7d → c ≠ '\x7d' := by simpa using hprev
    obtain ⟨q', hbody, hend, hafter⟩ | ⟨hbody, hend⟩ := closingEnd_step h hfirst
    · have hlast := getElem?_of_drop h String.utf8EncodeChar_ne_nil
      have hnext : q' = false → bytes[i + (String.utf8EncodeChar c).length - 1]? = some 0x7d →
          cs.head? ≠ some '\x7d' := fun hq hbrace => by
        rw [hlast] at hbrace
        exact hafter hq (eq_of_mem_utf8EncodeChar (by decide) (List.mem_of_getLast? hbrace))
      rw [hend, ih (drop_add_length h) hnext, hbody, Option.map_map]
      refine congrArg (Option.map · _) (funext fun r => ?_)
      simp only [Function.comp_apply, encoded_cons, List.length_append]
      omega
    · rw [hend, hbody]
      rfl

/-! ### The opening fence -/

lemma bytesBeforeOpening_skip (hbs : ∀ b ∈ bs, b ≠ 0x24) (back : List UInt8) :
    bytesBeforeOpening (bs ++ back) = (bytesBeforeOpening back).map (· + bs.length) := by
  induction bs with
  | nil => simp
  | cons b bs ih =>
    obtain ⟨hb, hbs⟩ := List.forall_mem_cons.mp hbs
    rw [List.cons_append, bytesBeforeOpening, if_neg (by simp [openingBytes, Ne.symm hb]), ih hbs,
      Option.map_map]
    rfl

lemma bytesBeforeOpening_cons (h : ¬ opening <+: c :: cs) :
    bytesBeforeOpening (encoded (c :: cs)) =
      (bytesBeforeOpening (encoded cs)).map (· + (String.utf8EncodeChar c).length) := by
  by_cases hc : c = '$'
  · subst hc
    have hno : ¬ openingBytes.isPrefixOf (encoded ('$' :: cs)) = true := fun hprefix =>
      h (Text.prefix_of_encoded (by simp [opening]) (List.isPrefixOf_iff_prefix.mp hprefix))
    rw [encoded_cons, utf8EncodeChar_of_lt (by decide), List.singleton_append] at hno ⊢
    rw [bytesBeforeOpening, if_neg hno]
    rfl
  · refine bytesBeforeOpening_skip ?_ _
    rintro b hb rfl
    exact hc (eq_of_mem_utf8EncodeChar (by decide) hb)

lemma bytesBeforeOpening_opening (cs : List Char) :
    bytesBeforeOpening (encoded (opening ++ cs)) = some 0 := rfl

/-! ### All fences -/

lemma fenceOffsets_eq (bytes : List UInt8) (offset : Nat) :
    fenceOffsets bytes offset =
      ((bytesBeforeOpening (bytes.drop offset)).bind fun before =>
        (closingEnd bytes false (offset + before + 3)).map fun stop =>
          (offset + before + 3, stop - 2) :: fenceOffsets bytes stop).getD [] := by
  rw [fenceOffsets]
  cases bytesBeforeOpening (bytes.drop offset) with
  | none => rfl
  | some before =>
    dsimp only [Option.bind_some]
    split <;> rename_i hclose <;> rw [hclose] <;> rfl

lemma fenceOffsets_of_noOpening (h : ¬ opening <+: c :: cs) :
    fenceOffsets (encoded (pre ++ c :: cs)) (encoded pre).length =
      fenceOffsets (encoded (pre ++ [c] ++ cs)) (encoded (pre ++ [c])).length := by
  have hlen : (encoded (pre ++ [c])).length =
      (encoded pre).length + (String.utf8EncodeChar c).length := by
    simp [encoded]
  have hnext := drop_encoded (pre ++ [c]) cs
  rw [List.append_assoc, List.singleton_append, hlen] at hnext ⊢
  rw [fenceOffsets_eq, fenceOffsets_eq, drop_encoded, hnext, bytesBeforeOpening_cons h,
    Option.bind_map]
  refine congrArg (fun f => (Option.bind _ f).getD []) (funext fun n => ?_)
  rw [Function.comp_apply, Nat.add_comm n, ← Nat.add_assoc (encoded pre).length]

lemma fenceOffsets_opening (pre cs : List Char) :
    fenceOffsets (encoded (pre ++ (opening ++ cs))) (encoded pre).length =
      ((fencedBody false cs).map fun r =>
        let start := (encoded (pre ++ opening)).length
        (start, start + (encoded r.1).length) ::
          fenceOffsets (encoded (pre ++ (opening ++ cs)))
            (start + (encoded r.1).length + 2)).getD [] := by
  have hlen : (encoded pre).length + 0 + 3 = (encoded (pre ++ opening)).length := by
    rw [encoded_append, List.length_append]
    rfl
  have hbody : (encoded (pre ++ (opening ++ cs))).drop (encoded (pre ++ opening)).length =
      encoded cs := by
    rw [← List.append_assoc, drop_encoded]
  have hprev : (encoded (pre ++ (opening ++ cs)))[(encoded (pre ++ opening)).length - 1]? =
      some 0x7b := by
    rw [← hlen]
    exact getElem?_of_drop (show _ = openingBytes ++ encoded cs from
      drop_encoded pre (opening ++ cs)) (by decide)
  have hclose := closingEnd_encoded (q := false) hbody fun _ h => by
    rw [hprev] at h
    exact absurd h (by decide)
  rw [fenceOffsets_eq, drop_encoded, bytesBeforeOpening_opening, Option.bind_some, hlen, hclose,
    Option.map_map]
  rfl

/-- The offsets cut a body out of a text, at whole characters and between a pair of fences. -/
def CutsOut (text : List Char) (r : Nat × Nat) (body : List Char) : Prop :=
  ∃ pre mid post, text = pre ++ (opening ++ (mid ++ '\x7d' :: '\x7d' :: post)) ∧
    r.1 = (encoded (pre ++ opening)).length ∧ r.2 = r.1 + (encoded mid).length ∧
    body = Text.trimChars mid

lemma fencedBody_sound {body : List Char} (h : fencedBody q cs = some (body, rest)) :
    cs = body ++ '\x7d' :: '\x7d' :: rest := by
  induction cs generalizing q body with
  | nil => cases h
  | cons c cs ih =>
    rw [fencedBody] at h
    split at h
    · next hclose =>
      simp only [Bool.and_eq_true, decide_eq_true_eq] at hclose
      obtain ⟨⟨-, rfl⟩, hhead⟩ := hclose
      obtain ⟨after, rfl⟩ := List.head?_eq_some_iff.mp hhead
      cases h
      rfl
    · obtain ⟨⟨front, after⟩, hrest, heq⟩ := Option.map_eq_some_iff.mp h
      cases heq
      rw [ih hrest, List.cons_append]

/-- The scan over bytes and the scan over characters find the same bodies. -/
lemma forall₂_cutsOut (pre : List Char) (h : cs.length < fuel) :
    List.Forall₂ (CutsOut (pre ++ cs)) (fenceOffsets (encoded (pre ++ cs)) (encoded pre).length)
      (bodiesFrom fuel cs) := by
  -- `pre` is the text behind the scan: the offset is always its length in bytes.
  induction fuel generalizing pre cs with
  | zero => cases h
  | succ n ih =>
    by_cases hopen : opening <+: cs
    · obtain ⟨cs, rfl⟩ := hopen
      rw [fenceOffsets_opening, bodiesFrom_opening]
      cases hbody : fencedBody false cs with
      | none => exact .nil
      | some r =>
        obtain ⟨body, rest⟩ := r
        obtain rfl := fencedBody_sound hbody
        refine .cons ⟨pre, body, rest, rfl, rfl, rfl, rfl⟩ ?_
        have hpast : pre ++ opening ++ body ++ ['\x7d', '\x7d'] ++ rest =
            pre ++ (opening ++ (body ++ '\x7d' :: '\x7d' :: rest)) := by
          simp
        have hnext : (encoded (pre ++ opening ++ body ++ ['\x7d', '\x7d'])).length =
            (encoded (pre ++ opening)).length + (encoded body).length + 2 := by
          rw [encoded_append, encoded_append (pre ++ opening), List.length_append,
            List.length_append]
          rfl
        rw [List.length_append, List.length_append] at h
        rw [← hpast, ← hnext]
        exact ih _ (by simp only [List.length_cons] at h; omega)
    · cases cs with
      | nil =>
        rw [fenceOffsets_eq, drop_encoded]
        exact .nil
      | cons c cs =>
        rw [fenceOffsets_of_noOpening hopen, bodiesFrom_of_noOpening hopen]
        have hnext := ih (pre ++ [c]) (Nat.lt_of_succ_lt_succ h)
        rwa [List.append_assoc, List.singleton_append] at hnext ⊢

lemma fenceOffsets_ordered (bytes : List UInt8) (offset : Nat) :
    (∀ r ∈ fenceOffsets bytes offset, offset ≤ r.1) ∧
      (fenceOffsets bytes offset).Pairwise fun r r' => r.2 ≤ r'.1 := by
  fun_induction fenceOffsets bytes offset with
  | case1 => exact ⟨by simp, .nil⟩
  | case2 => exact ⟨by simp, .nil⟩
  | case3 offset before hbefore start stop hclose ih =>
    have hstop := (closingEnd_bounds hclose).1
    obtain ⟨hlater, hpairs⟩ := ih
    constructor
    · rintro r (_ | ⟨_, hr⟩)
      · omega
      · have hr := hlater r hr
        omega
    · refine List.pairwise_cons.mpr ⟨fun r hr => ?_, hpairs⟩
      have hr := hlater r hr
      omega

/-! ### Cuts at boundaries of characters -/

/-- What stands between a pair of fences, and in it the body without the blanks around it. -/
structure FencedCut (s : String) where
  inner : Cut s
  body : Cut s
  start_le : inner.start ≤ body.start
  stop_le : body.stop ≤ inner.stop
  text_body : body.text = Text.trim inner.text
  /-- The scan goes on behind the closing braces. -/
  isValid_next : (String.Pos.Raw.mk (inner.stop.offset.byteIdx + 2)).IsValid s

variable {s : String}

lemma exists_fencedCut {r : Nat × Nat} {body : List Char} (h : CutsOut s.toList r body) :
    ∃ c : FencedCut s, c.inner.offsets = r ∧ c.body.text = String.ofList body := by
  obtain ⟨pre, mid, post, htext, hstart, hstop, rfl⟩ := h
  obtain ⟨front, back, hmid, -, -⟩ := Text.exists_between Text.isBlank mid
  rw [← Text.trimChars_eq_between] at hmid
  obtain ⟨inner, hinner, hoffsets⟩ := exists_cut (s := s) (pre ++ opening) mid
    ('\x7d' :: '\x7d' :: post) (by rw [htext, List.append_assoc])
  obtain ⟨cut, hcut, hwithin⟩ := exists_cut (s := s) (pre ++ opening ++ front) (Text.trimChars mid)
    (back ++ '\x7d' :: '\x7d' :: post) (by
      rw [htext]
      conv_lhs => rw [hmid]
      simp)
  obtain ⟨closing, -, hpast⟩ := exists_cut (s := s) (pre ++ opening ++ mid)
    ['\x7d', '\x7d'] post (by rw [htext]; simp)
  have hlen : (encoded mid).length =
      (encoded front).length + ((encoded (Text.trimChars mid)).length + (encoded back).length) := by
    conv_lhs => rw [hmid]
    simp [encoded_append]
  obtain ⟨hstart', hstop'⟩ := Prod.mk.inj hoffsets
  obtain ⟨hbody, hbody'⟩ := Prod.mk.inj hwithin
  obtain ⟨-, hclosing'⟩ := Prod.mk.inj hpast
  rw [encoded_append (pre ++ opening), List.length_append] at hbody hbody'
  refine ⟨⟨inner, cut, ?_, ?_, ?_, ?_⟩, ?_, hcut⟩
  · rw [String.Pos.le_iff, String.Pos.Raw.le_iff]
    omega
  · rw [String.Pos.le_iff, String.Pos.Raw.le_iff]
    omega
  · rw [hcut, hinner, Text.trim, String.toList_ofList]
  · have hnext : String.Pos.Raw.mk (inner.stop.offset.byteIdx + 2) = closing.stop.offset :=
      String.Pos.Raw.ext (by rw [hclosing', hstop', encoded_append _ mid, List.length_append]; rfl)
    rw [hnext]
    exact closing.stop.isValid
  · rw [hoffsets]
    exact Prod.ext hstart.symm (by rw [hstop, hstart])

lemma exists_fencedCuts {rs : List (Nat × Nat)} {found : List (List Char)}
    (h : List.Forall₂ (CutsOut s.toList) rs found) :
    ∃ cuts : List (FencedCut s), cuts.map (·.inner.offsets) = rs ∧
      cuts.map (·.body.text) = found.map String.ofList := by
  induction h with
  | nil => exact ⟨[], rfl, rfl⟩
  | cons hcut _ ih =>
    obtain ⟨c, hoffsets, htext⟩ := exists_fencedCut hcut
    obtain ⟨cuts, hrs, hfound⟩ := ih
    exact ⟨c :: cuts, by rw [List.map_cons, hoffsets, hrs],
      by rw [List.map_cons, List.map_cons, htext, hfound]⟩

lemma bodiesFrom_eq {n m : Nat} (hn : cs.length < n) (hm : cs.length < m) :
    bodiesFrom n cs = bodiesFrom m cs := by
  induction n generalizing m cs with
  | zero => cases hn
  | succ n ih =>
    obtain ⟨m, rfl⟩ : ∃ k, m = k + 1 := Nat.exists_eq_succ_of_ne_zero (by omega)
    by_cases hopen : opening <+: cs
    · obtain ⟨cs, rfl⟩ := hopen
      rw [bodiesFrom_opening, bodiesFrom_opening]
      cases hbody : fencedBody false cs with
      | none => rfl
      | some r =>
        have hlen := congrArg List.length (fencedBody_sound hbody)
        simp only [List.length_append, List.length_cons] at hn hm hlen
        have hrest : bodiesFrom n r.2 = bodiesFrom m r.2 := ih (by omega) (by omega)
        rw [Option.map_some, Option.map_some, hrest]
    · cases cs with
      | nil => rfl
      | cons c cs =>
        rw [bodiesFrom_of_noOpening hopen, bodiesFrom_of_noOpening hopen,
          ih (Nat.lt_of_succ_lt_succ hn) (Nat.lt_of_succ_lt_succ hm)]

/-- The bodies of a text that is put together from literal text and fenced bodies are those bodies,
and each gives the contexts of its tree. Of any text whatever the bodies are found after finitely
many steps, and the scan of its bytes finds the same: each body is cut out between two boundaries of
characters, has no blanks at its ends and stands behind the one before it. -/
theorem bodies_exact :
    (∀ i : Interpolation,
      bodies (String.ofList i.text) =
          i.passages.map (fun p => String.ofList (Text.trimChars p.2.chars)) ∧
        ∀ p ∈ i.passages,
          tokens (String.ofList (Text.trimChars p.2.chars)) = p.2.tree.contexts) ∧
      ∀ s : String,
        (∀ fuel, s.toList.length < fuel → bodies s = (bodiesFrom fuel s.toList).map String.ofList) ∧
          ∃ cuts : List (FencedCut s),
            cuts.map (·.inner.offsets) = fenceOffsets s.toByteArray.data.toList 0 ∧
              bodies s = cuts.map (·.body.text) ∧ (∀ b ∈ bodies s, Text.trim b = b) ∧
              cuts.Pairwise fun c d => c.body.stop ≤ d.body.start := by
  refine ⟨fun i => ⟨i.bodies_text, fun p _ => p.2.tokens_eq⟩, fun s => ⟨fun fuel h => ?_, ?_⟩⟩
  · rw [bodies, bodiesFrom_eq (Nat.lt_succ_self _) h]
  have hbytes : s.toByteArray.data.toList = encoded s.toList := by
    rw [← String.utf8Encode_toList, List.utf8Encode, List.toList_data_toByteArray]
    rfl
  have hsame := forall₂_cutsOut [] (Nat.lt_succ_self s.toList.length)
  obtain ⟨cuts, hoffsets, htexts⟩ := exists_fencedCuts hsame
  have hbodies : bodies s = cuts.map (·.body.text) := htexts.symm
  refine ⟨cuts, by rw [hoffsets, hbytes]; rfl, hbodies, ?_, ?_⟩
  · intro b hb
    rw [hbodies] at hb
    obtain ⟨c, -, rfl⟩ := List.mem_map.mp hb
    rw [c.text_body, Text.trim_trim]
  · -- Bodies lie within what is between the fences, so the order of the fences is theirs.
    have hpairs := (fenceOffsets_ordered (encoded s.toList) 0).2
    rw [show fenceOffsets (encoded s.toList) 0 = cuts.map (·.inner.offsets) from hoffsets.symm,
      List.pairwise_map] at hpairs
    refine hpairs.imp fun {c d} hcd => ?_
    have hle : c.inner.stop ≤ d.inner.start := hcd
    exact String.Pos.le_trans (String.Pos.le_trans c.stop_le hle) d.start_le

example : bodies "'\x7d\x7d $\x7b\x7b f('\x7b\x7d\x7d', 'é') \x7d\x7d\x7d" =
    ["f('\x7b\x7d\x7d', 'é')"] := by decide +kernel

end WorkflowAudit.Context
