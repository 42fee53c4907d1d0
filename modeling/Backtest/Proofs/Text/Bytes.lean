import Mathlib.Data.String.Basic

/-!
# Characters and bytes

Every character takes at least one byte, and those of ASCII take no more. So a text has as many bytes as
characters exactly when it is of ASCII.

A reader may also go through a text byte by byte and take each byte for the character that has it for its
code. It then sees the characters of ASCII as they are, and others as characters that are not of ASCII
either. What it may cut out of the text begins and ends between two characters.
-/

namespace Backtest.Text

theorem utf8Size_eq_one_iff {c : Char} : c.utf8Size = 1 ↔ c.toNat ≤ 127 :=
  Char.utf8Size_eq_one_iff.trans UInt32.le_iff_toNat_le

variable {text : List Char}

theorem length_le_utf8Len (text : List Char) : text.length ≤ String.utf8Len text := by
  induction text with
  | nil => exact Nat.le_refl 0
  | cons c rest ih =>
      have hsize := c.utf8Size_pos
      rw [List.length_cons, String.utf8Len_cons]
      omega

theorem utf8Len_eq_length_iff : String.utf8Len text = text.length ↔ ∀ c ∈ text, c.toNat ≤ 127 := by
  induction text with
  | nil => simp
  | cons c rest ih =>
      have hsize := c.utf8Size_pos
      have hlength := length_le_utf8Len rest
      rw [List.forall_mem_cons, ← ih, ← utf8Size_eq_one_iff, String.utf8Len_cons, List.length_cons]
      omega

/-! ### Bytes taken for characters -/

/-- What is seen of a character when each of its bytes is taken for a character. -/
def bytewiseOf (c : Char) : List Char := (String.utf8EncodeChar c).map Char.ofUInt8

/-- What is seen of a text when each of its bytes is taken for a character. -/
def bytewise (text : String) : List Char := text.toByteArray.data.toList.map Char.ofUInt8

theorem bytewise_eq (text : String) : bytewise text = text.toList.flatMap bytewiseOf := by
  rw [bytewise, ← String.utf8Encode_toList, List.utf8Encode, List.toList_data_toByteArray, List.map_flatMap]
  rfl

theorem length_flatMap_bytewiseOf (text : List Char) :
    (text.flatMap bytewiseOf).length = String.utf8Len text := by
  induction text with
  | nil => rfl
  | cons c rest ih =>
      rw [List.flatMap_cons, List.length_append, ih, bytewiseOf, List.length_map,
        String.length_utf8EncodeChar, String.utf8Len_cons, Nat.add_comm]

theorem toNat_ofUInt8 (byte : UInt8) : (Char.ofUInt8 byte).toNat = byte.toNat :=
  UInt8.toNat_toUInt32 byte

section Characters

variable {c : Char}

theorem bytewiseOf_of_le (hc : c.toNat ≤ 127) : bytewiseOf c = [c] := by
  rw [bytewiseOf, String.utf8EncodeChar_eq_singleton (utf8Size_eq_one_iff.mpr hc), List.map_singleton,
    List.singleton_inj, ← Char.toNat_inj, toNat_ofUInt8, UInt32.toNat_toUInt8]
  exact Nat.mod_eq_of_lt (by rw [Char.toNat_val]; omega)

/-- The first byte of a longer character says how long it is, and for that it has its highest bit set. -/
theorem bytewiseOf_of_lt (hc : 127 < c.toNat) :
    ∃ seen others, bytewiseOf c = seen :: others ∧ 127 < seen.toNat := by
  simp only [bytewiseOf, String.utf8EncodeChar, Char.toNat_val]
  split_ifs with hone htwo hthree
  · omega
  · refine ⟨_, _, rfl, ?_⟩
    rw [toNat_ofUInt8, UInt8.toNat_ofNat']
    omega
  · refine ⟨_, _, rfl, ?_⟩
    rw [toNat_ofUInt8, UInt8.toNat_ofNat']
    omega
  · refine ⟨_, _, rfl, ?_⟩
    rw [toNat_ofUInt8, UInt8.toNat_ofNat']
    omega

end Characters

/-- A run of characters of ASCII ends at the same place whether characters are read or bytes. -/
theorem length_takeWhile_bytewise {accepts : Char → Bool} (haccepts : ∀ c, accepts c = true → c.toNat ≤ 127)
    (text : List Char) :
    ((text.flatMap bytewiseOf).takeWhile accepts).length = (text.takeWhile accepts).length := by
  have hstops {c : Char} (hwide : 127 < c.toNat) : ¬accepts c = true := fun hc =>
    absurd (haccepts c hc) (Nat.not_le.mpr hwide)
  induction text with
  | nil => rfl
  | cons c rest ih =>
      rw [List.flatMap_cons]
      rcases Nat.lt_or_ge 127 c.toNat with hwide | hplain
      · obtain ⟨seen, others, hbytes, hseen⟩ := bytewiseOf_of_lt hwide
        rw [hbytes, List.cons_append, List.takeWhile_cons_of_neg (hstops hseen),
          List.takeWhile_cons_of_neg (hstops hwide)]
      · rw [bytewiseOf_of_le hplain, List.singleton_append]
        by_cases hc : accepts c = true
        · rw [List.takeWhile_cons_of_pos hc, List.takeWhile_cons_of_pos hc, List.length_cons,
            List.length_cons, ih]
        · rw [List.takeWhile_cons_of_neg hc, List.takeWhile_cons_of_neg hc]

/-! ### Slices -/

/-- The part of a text from one byte up to another. There is none if the text does not go that far, or if one
of the two bytes stands inside of a character. -/
def slice? (text : String) (start stop : Nat) : Option String :=
  if h : start ≤ stop ∧ String.Pos.Raw.IsValid text ⟨start⟩ ∧ String.Pos.Raw.IsValid text ⟨stop⟩ then
    some (text.extract (text.pos ⟨start⟩ h.2.1) (text.pos ⟨stop⟩ h.2.2))
  else none

section Slices

variable {text : String} {front piece back : List Char}

theorem isValid_utf8Len (htext : text.toList = front ++ back) :
    String.Pos.Raw.IsValid text ⟨String.utf8Len front⟩ := by
  refine String.Pos.Raw.isValid_iff_exists_append.mpr ⟨String.ofList front, String.ofList back, ?_, ?_⟩
  · rw [← String.ofList_append, ← htext, String.ofList_toList]
  · rw [String.Pos.Raw.ext_iff, String.byteIdx_rawEndPos, String.utf8ByteSize_ofList]

theorem size_utf8Encode (text : List Char) : text.utf8Encode.size = String.utf8Len text := by
  rw [← String.toByteArray_ofList, String.size_toByteArray, String.utf8ByteSize_ofList]

theorem slice?_of_append (htext : text.toList = front ++ piece ++ back) :
    slice? text (String.utf8Len front) (String.utf8Len (front ++ piece)) = some (String.ofList piece) := by
  have hstart := isValid_utf8Len (htext.trans (List.append_assoc ..))
  have hle : String.utf8Len front ≤ String.utf8Len (front ++ piece) := by
    rw [String.utf8Len_append]
    exact Nat.le_add_right _ _
  rw [slice?, dif_pos ⟨hle, hstart, isValid_utf8Len htext⟩, Option.some_inj, ← String.toByteArray_inj,
    String.toByteArray_extract, String.offset_pos, String.offset_pos, String.toByteArray_ofList,
    ← String.utf8Encode_toList, htext, ← size_utf8Encode, ← size_utf8Encode, List.utf8Encode_append,
    ByteArray.extract_append_size_left, List.utf8Encode_append]
  exact ByteArray.extract_append_eq_right rfl ByteArray.size_append

end Slices

/-! ### What remains from a byte on -/

/-- The text from the byte `index` on consists of the characters. So that byte does not stand inside of a
character. -/
def Remains (text : String) (index : Nat) (rest : List Char) : Prop :=
  ∃ front, text.toList = front ++ rest ∧ String.utf8Len front = index

namespace Remains

variable {text : String} {index : Nat} {piece rest : List Char} {c : Char}

theorem start (text : String) : Remains text 0 text.toList := ⟨[], rfl, rfl⟩

theorem behind (hremains : Remains text index (piece ++ rest)) (hpiece : ∀ c ∈ piece, c.toNat ≤ 127) :
    Remains text (index + piece.length) rest := by
  obtain ⟨front, htext, rfl⟩ := hremains
  refine ⟨front ++ piece, htext.trans (List.append_assoc ..).symm, ?_⟩
  rw [String.utf8Len_append, utf8Len_eq_length_iff.mpr hpiece]

theorem tail (hremains : Remains text index (c :: rest)) (hc : c.toNat ≤ 127) :
    Remains text (index + 1) rest := by
  rw [← List.singleton_append] at hremains
  exact hremains.behind (List.forall_mem_singleton.mpr hc)

theorem slice? (hremains : Remains text index (piece ++ rest)) (hpiece : ∀ c ∈ piece, c.toNat ≤ 127) :
    Text.slice? text index (index + piece.length) = some (String.ofList piece) := by
  obtain ⟨front, htext, rfl⟩ := hremains
  rw [← utf8Len_eq_length_iff.mpr hpiece, ← String.utf8Len_append]
  exact slice?_of_append (htext.trans (List.append_assoc ..).symm)

theorem slice?_end (hremains : Remains text index rest) :
    Text.slice? text index text.utf8ByteSize = some (String.ofList rest) := by
  obtain ⟨front, htext, rfl⟩ := hremains
  rw [← String.ofList_toList (s := text), String.utf8ByteSize_ofList, String.ofList_toList, htext]
  exact slice?_of_append (by rw [htext, List.append_nil])

/-! ### The byte that is looked at -/

theorem drop_bytewise (hremains : Remains text index rest) :
    (bytewise text).drop index = rest.flatMap bytewiseOf := by
  obtain ⟨front, htext, rfl⟩ := hremains
  rw [bytewise_eq, htext, List.flatMap_append]
  exact List.drop_left' (length_flatMap_bytewiseOf front)

theorem getElem?_bytewise (hremains : Remains text index rest) :
    (bytewise text)[index]? = (rest.flatMap bytewiseOf).head? := by
  rw [← hremains.drop_bytewise, List.head?_drop]

theorem bytewise_iff (hremains : Remains text index rest) (hc : c.toNat ≤ 127) :
    (bytewise text)[index]? = some c ↔ rest.head? = some c := by
  rw [hremains.getElem?_bytewise]
  cases rest with
  | nil => rfl
  | cons other rest =>
      rw [List.flatMap_cons]
      rcases Nat.lt_or_ge 127 other.toNat with hwide | hplain
      · obtain ⟨seen, others, hbytes, hseen⟩ := bytewiseOf_of_lt hwide
        rw [hbytes, List.cons_append, List.head?_cons, List.head?_cons, Option.some_inj, Option.some_inj]
        refine iff_of_false ?_ ?_
        · rintro rfl
          omega
        · rintro rfl
          omega
      · rw [bytewiseOf_of_le hplain, List.singleton_append, List.head?_cons, List.head?_cons]

theorem bytewise_of_le (hremains : Remains text index (c :: rest)) (hc : c.toNat ≤ 127) :
    (bytewise text)[index]? = some c :=
  (hremains.bytewise_iff hc).mpr rfl

theorem bytewise_of_lt (hremains : Remains text index (c :: rest)) (hc : 127 < c.toNat) :
    ∃ seen, (bytewise text)[index]? = some seen ∧ 127 < seen.toNat := by
  obtain ⟨seen, others, hbytes, hseen⟩ := bytewiseOf_of_lt hc
  refine ⟨seen, ?_, hseen⟩
  rw [hremains.getElem?_bytewise, List.flatMap_cons, hbytes, List.cons_append, List.head?_cons]

end Remains

end Backtest.Text
