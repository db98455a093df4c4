import Mathlib.Data.List.Basic
import WorkflowAudit.Text.Basic

/-! The bytes of a text in UTF-8, and cuts of a text between characters. The byte of an ASCII
character stands for that character alone, so a search for it among bytes finds whole characters. -/

namespace WorkflowAudit.Text

/-- The bytes of a text. -/
def encoded (cs : List Char) : List UInt8 := cs.flatMap String.utf8EncodeChar

variable {c d : Char} {cs : List Char}

/-! ### Bytes of characters -/

lemma encoded_append (cs rest : List Char) : encoded (cs ++ rest) = encoded cs ++ encoded rest :=
  List.flatMap_append

lemma encoded_cons (c : Char) (cs : List Char) :
    encoded (c :: cs) = String.utf8EncodeChar c ++ encoded cs := rfl

lemma utf8EncodeChar_of_lt (hd : d.toNat < 128) :
    String.utf8EncodeChar d = [UInt8.ofNat d.toNat] := by
  have hsmall : d.val.toNat ≤ 0x7f := Nat.le_of_lt_succ hd
  rw [String.utf8EncodeChar, if_pos hsmall]
  rfl

/-- The byte of an ASCII character stands in the encoding of no other character. -/
lemma eq_of_mem_utf8EncodeChar (hd : d.toNat < 128)
    (h : UInt8.ofNat d.toNat ∈ String.utf8EncodeChar c) : c = d := by
  have hnat : d.toNat ∈ (String.utf8EncodeChar c).map UInt8.toNat := by
    have hmap := List.mem_map_of_mem (f := UInt8.toNat) h
    rwa [UInt8.toNat_ofNat', Nat.mod_eq_of_lt (by omega)] at hmap
  have hval : d.toNat = d.val.toNat := rfl
  rw [String.utf8EncodeChar] at hnat
  split_ifs at hnat with h1 h2 h3 <;>
    simp only [List.map_cons, List.map_nil, UInt8.toNat_ofNat', List.mem_cons, List.not_mem_nil,
      or_false] at hnat
  · exact Char.ext (UInt32.toNat_inj.mp (by omega))
  all_goals omega

lemma prefix_of_encoded {front : List Char} (hfront : ∀ d ∈ front, d.toNat < 128)
    (h : encoded front <+: encoded cs) : front <+: cs := by
  induction front generalizing cs with
  | nil => exact List.nil_prefix
  | cons d front ih =>
    obtain ⟨hd, hrest⟩ := List.forall_mem_cons.mp hfront
    rw [encoded_cons, utf8EncodeChar_of_lt hd, List.singleton_append] at h
    cases cs with
    | nil => exact absurd (List.prefix_nil.mp h) (List.cons_ne_nil _ _)
    | cons c cs =>
      obtain ⟨e, es, hc⟩ := List.exists_cons_of_ne_nil (String.utf8EncodeChar_ne_nil (c := c))
      have hhead : UInt8.ofNat d.toNat = e := by
        rw [encoded_cons, hc, List.cons_append, List.cons_prefix_cons] at h
        exact h.1
      obtain rfl : c = d := eq_of_mem_utf8EncodeChar hd (by rw [hc, hhead]; exact List.mem_cons_self)
      rw [encoded_cons, utf8EncodeChar_of_lt hd, List.singleton_append, List.cons_prefix_cons] at h
      exact (List.prefix_cons_inj c).mpr (ih hrest h.2)

lemma drop_encoded (pre cs : List Char) :
    (encoded (pre ++ cs)).drop (encoded pre).length = encoded cs := by
  rw [encoded_append, List.drop_left]

/-! ### Cuts between characters -/

/-- A part of a text from one boundary between characters to another. -/
structure Cut (s : String) where
  start : s.Pos
  stop : s.Pos
  le : start ≤ stop

def Cut.text {s : String} (c : Cut s) : String := (s.slice c.start c.stop c.le).copy

def Cut.offsets {s : String} (c : Cut s) : Nat × Nat :=
  (c.start.offset.byteIdx, c.stop.offset.byteIdx)

lemma length_encoded (cs : List Char) :
    (encoded cs).length = (String.ofList cs).utf8ByteSize := by
  rw [← String.size_toByteArray, String.toByteArray_ofList, List.utf8Encode, List.size_toByteArray]
  rfl

lemma exists_cut {s : String} (front mid back : List Char)
    (h : s.toList = front ++ (mid ++ back)) :
    ∃ c : Cut s, c.text = String.ofList mid ∧
      c.offsets = ((encoded front).length, (encoded front).length + (encoded mid).length) := by
  have hstart : s = String.ofList front ++ (String.ofList mid ++ String.ofList back) := by
    rw [← String.ofList_toList (s := s), h, String.ofList_append, String.ofList_append]
  have hstop : s = String.ofList front ++ String.ofList mid ++ String.ofList back := by
    rw [hstart, String.append_assoc]
  obtain ⟨hle, htext⟩ := String.copy_slice_eq_iff_splits.mpr
    ⟨_, _, String.Pos.splits_ofEqAppend hstart, String.Pos.splits_ofEqAppend hstop⟩
  refine ⟨⟨_, _, hle⟩, htext, ?_⟩
  rw [Cut.offsets, (String.Pos.splits_ofEqAppend hstart).offset_eq_rawEndPos,
    (String.Pos.splits_ofEqAppend hstop).offset_eq_rawEndPos, length_encoded, length_encoded]
  simp only [String.byteIdx_rawEndPos, String.utf8ByteSize_append]

end WorkflowAudit.Text
