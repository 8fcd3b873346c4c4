import DiceScript.Text.Bytes
import Mathlib

/-!
Texts as bytes. A part of a text can be cut out by the sizes of what stands in front of its ends,
the first byte of a character tells whether there are more, and bytes that are read leniently give
back the text they were written from: UTF-8 that is well formed loses nothing, whatever follows it.
-/

namespace DiceScript.Text

/-! ## Parts of a text -/

@[simp]
theorem size_nil : size [] = 0 := rfl

@[simp]
theorem size_cons (c : Char) (cs : List Char) : size (c :: cs) = c.utf8Size + size cs := rfl

@[simp]
theorem size_append (xs ys : List Char) : size (xs ++ ys) = size xs + size ys := by
  induction xs with
  | nil => rw [List.nil_append, size_nil, Nat.zero_add]
  | cons c xs ih => rw [List.cons_append, size_cons, size_cons, ih, Nat.add_assoc]

theorem length_le_size (cs : List Char) : cs.length ≤ size cs := by
  induction cs with
  | nil => exact Nat.le_refl 0
  | cons c cs ih =>
    have hpos := c.utf8Size_pos
    rw [List.length_cons, size_cons]
    omega

theorem size_pos {cs : List Char} (h : cs ≠ []) : 0 < size cs :=
  Nat.lt_of_lt_of_le (List.length_pos_iff.2 h) (length_le_size cs)

theorem utf8ByteSize_eq_size (text : String) : text.utf8ByteSize = size text.toList := by
  have hchars : ∀ cs : List Char, (String.ofList cs).utf8ByteSize = size cs := by
    intro cs
    induction cs with
    | nil => rfl
    | cons c cs ih =>
      rw [String.ofList_cons, String.utf8ByteSize_append, String.utf8ByteSize_singleton, ih,
        size_cons]
  rw [← hchars, String.ofList_toList]

theorem dropBytes?_size (xs ys : List Char) : dropBytes? (size xs) (xs ++ ys) = some ys := by
  induction xs with
  | nil => cases ys <;> rfl
  | cons c xs ih =>
    obtain ⟨k, hk⟩ := Nat.exists_eq_add_of_lt c.utf8Size_pos
    have hsize : size (c :: xs) = k + size xs + 1 := by rw [size_cons]; omega
    have hle : c.utf8Size ≤ k + size xs + 1 := by omega
    have hsub : k + size xs + 1 - c.utf8Size = size xs := by omega
    rw [hsize, List.cons_append, dropBytes?, if_pos hle, hsub, ih]

theorem takeBytes?_size (xs ys : List Char) : takeBytes? (size xs) (xs ++ ys) = some xs := by
  induction xs with
  | nil => cases ys <;> rfl
  | cons c xs ih =>
    obtain ⟨k, hk⟩ := Nat.exists_eq_add_of_lt c.utf8Size_pos
    have hsize : size (c :: xs) = k + size xs + 1 := by rw [size_cons]; omega
    have hle : c.utf8Size ≤ k + size xs + 1 := by omega
    have hsub : k + size xs + 1 - c.utf8Size = size xs := by omega
    rw [hsize, List.cons_append, takeBytes?, if_pos hle, hsub, ih]
    rfl

/-- The part of a text between the sizes of two of its beginnings. -/
theorem slice_append (front middle back : List Char) :
    slice (front ++ middle ++ back) (size front) (size (front ++ middle)) = middle := by
  have hsub : size (front ++ middle) - size front = size middle := by rw [size_append]; omega
  rw [slice, hsub, List.append_assoc, dropBytes?_size, Option.bind_some, takeBytes?_size]
  rfl

theorem size_of_takeBytes? {n : Nat} {cs part : List Char} (h : takeBytes? n cs = some part) :
    size part = n := by
  fun_induction takeBytes? n cs generalizing part with
  | case1 => cases h; rfl
  | case2 => cases h
  | case3 n c cs hle ih =>
    obtain ⟨rest, hrest, rfl⟩ := Option.map_eq_some_iff.1 h
    rw [size_cons, ih hrest]
    omega
  | case4 => cases h

/-- What is cut out is no longer than the offsets tell. -/
theorem size_slice_le (cs : List Char) (first last : Nat) :
    size (slice cs first last) ≤ last - first := by
  unfold slice
  cases hrest : (dropBytes? first cs).bind (takeBytes? (last - first)) with
  | none => exact Nat.zero_le _
  | some part =>
    obtain ⟨rest, -, hpart⟩ := Option.bind_eq_some_iff.1 hrest
    exact Nat.le_of_eq (size_of_takeBytes? hpart)

/-! ## Single bytes -/

theorem bytes_append (xs ys : List Char) : bytes (xs ++ ys) = bytes xs ++ bytes ys :=
  List.flatMap_append

theorem length_bytes (cs : List Char) : (bytes cs).length = size cs := by
  induction cs with
  | nil => rfl
  | cons c cs ih =>
    rw [bytes, List.flatMap_cons, List.length_append, String.length_utf8EncodeChar, size_cons]
    exact congrArg _ ih

/-- A character beyond the first 128 has no byte below 128. -/
theorem high_of_mem_encoded {c : Char} (hc : 127 < c.val.toNat) {b : UInt8}
    (hb : b ∈ String.utf8EncodeChar c) : 128 ≤ b.toNat := by
  have hbyte : ∀ n, 128 ≤ n → n < 256 → b = UInt8.ofNat n → 128 ≤ b.toNat := by
    rintro n hlow hn rfl
    rwa [UInt8.toNat_ofNat_of_lt' hn]
  unfold String.utf8EncodeChar at hb
  dsimp only at hb
  rw [if_neg (by omega)] at hb
  -- two, three or four bytes
  split at hb
  · simp only [List.mem_cons, List.not_mem_nil, or_false] at hb
    rcases hb with hb | hb
    all_goals exact hbyte _ (by omega) (by omega) hb
  · split at hb
    · simp only [List.mem_cons, List.not_mem_nil, or_false] at hb
      rcases hb with hb | hb | hb
      all_goals exact hbyte _ (by omega) (by omega) hb
    · simp only [List.mem_cons, List.not_mem_nil, or_false] at hb
      rcases hb with hb | hb | hb | hb
      all_goals exact hbyte _ (by omega) (by omega) hb

/-- Of all characters only the newline has a newline byte. -/
theorem count_newline_encoded (c : Char) :
    (String.utf8EncodeChar c).count 10 = if c = '\n' then 1 else 0 := by
  have hval : c = '\n' ↔ c.val.toNat = 10 := by
    rw [← Char.toNat_inj]
    rfl
  have hten : (10 : UInt8).toNat = 10 := rfl
  by_cases hc : c.val.toNat ≤ 127
  · have hencoded : String.utf8EncodeChar c = [UInt8.ofNat c.val.toNat] := if_pos hc
    have hbyte : UInt8.ofNat c.val.toNat = 10 ↔ c.val.toNat = 10 := by
      rw [← UInt8.toNat_inj, UInt8.toNat_ofNat_of_lt' (show c.val.toNat < 256 by omega), hten]
    simp only [hencoded, List.count_singleton, beq_iff_eq, hbyte, hval]
  · have hne : c ≠ '\n' := by
      rw [ne_eq, hval]
      omega
    rw [if_neg hne, List.count_eq_zero]
    intro hmem
    have hhigh := high_of_mem_encoded (by omega) hmem
    omega

theorem count_newline_bytes (cs : List Char) : (bytes cs).count 10 = cs.count '\n' := by
  induction cs with
  | nil => rfl
  | cons c cs ih =>
    have hbytes : bytes (c :: cs) = String.utf8EncodeChar c ++ bytes cs := rfl
    rw [hbytes, List.count_append, ih, count_newline_encoded, List.count_cons, Nat.add_comm]
    simp only [beq_iff_eq]

/-- The first byte of a character is all of it if it is among the first 128, and lies beyond them
otherwise. -/
theorem encoded_first (c : Char) : ∃ b bs, String.utf8EncodeChar c = b :: bs ∧
    (c.toNat ≤ 127 ∧ bs = [] ∧ b.toNat = c.toNat ∨ 127 < c.toNat ∧ 128 ≤ b.toNat) := by
  by_cases hlow : c.toNat ≤ 127
  · have hencoded : String.utf8EncodeChar c = [UInt8.ofNat c.toNat] := if_pos hlow
    refine ⟨_, [], hencoded, .inl ⟨hlow, rfl, UInt8.toNat_ofNat_of_lt' ?_⟩⟩
    have hsize : UInt8.size = 256 := rfl
    omega
  · obtain ⟨b, bs, hencoded⟩ := List.exists_cons_of_length_pos
      (l := String.utf8EncodeChar c) (by rw [String.length_utf8EncodeChar]; exact c.utf8Size_pos)
    have hhigh : 127 < c.toNat := Nat.lt_of_not_le hlow
    refine ⟨b, bs, hencoded, .inr ⟨hhigh, high_of_mem_encoded hhigh ?_⟩⟩
    rw [hencoded]
    exact List.mem_cons_self

/-- Bytes ahead are the bytes of the text that is ahead. -/
theorem byteAt?_eq (cs : List Char) (n : Nat) : byteAt? cs n = (bytes cs)[n]? := by
  induction cs generalizing n with
  | nil => rfl
  | cons c cs ih =>
    have hlength := String.length_utf8EncodeChar c
    rw [byteAt?, bytes, List.flatMap_cons]
    split
    · rw [List.getElem?_append_left (by omega)]
    · rw [List.getElem?_append_right (by omega), hlength, ih, bytes]

/-! ## Reading bytes leniently -/

variable {b b₁ b₂ b₃ : UInt8}

theorem isContinuation_iff : isContinuation b = true ↔ 0x80 ≤ b.toNat ∧ b.toNat ≤ 0xBF := by
  simp [isContinuation, UInt8.le_iff_toNat_le]

theorem secondOfThree_iff {lead : UInt8} : secondOfThree lead b = true ↔
    (0x80 ≤ b.toNat ∧ b.toNat ≤ 0xBF) ∧ (lead.toNat = 0xE0 → 0xA0 ≤ b.toNat) ∧
      (lead.toNat = 0xED → b.toNat ≤ 0x9F) := by
  unfold secondOfThree
  simp only [← UInt8.toNat_inj, apply_ite (· = true), Bool.and_eq_true, decide_eq_true_iff,
    UInt8.le_iff_toNat_le, isContinuation_iff, UInt8.reduceToNat]
  split_ifs <;> omega

theorem secondOfFour_iff {lead : UInt8} : secondOfFour lead b = true ↔
    (0x80 ≤ b.toNat ∧ b.toNat ≤ 0xBF) ∧ (lead.toNat = 0xF0 → 0x90 ≤ b.toNat) ∧
      (lead.toNat = 0xF4 → b.toNat ≤ 0x8F) := by
  unfold secondOfFour
  simp only [← UInt8.toNat_inj, apply_ite (· = true), Bool.and_eq_true, decide_eq_true_iff,
    UInt8.le_iff_toNat_le, isContinuation_iff, UInt8.reduceToNat]
  split_ifs <;> omega

/-! ## Characters of one to four bytes -/

theorem decodeLossy_one (h : b.toNat < 0x80) (rest : List UInt8) :
    decodeLossy (b :: rest) = Char.ofNat b.toNat :: decodeLossy rest := by
  have hlow : b < 0x80 := by simpa [UInt8.lt_iff_toNat_lt] using h
  rw [decodeLossy.eq_def]
  simp only [hlow, if_true]

theorem decodeLossy_two (hb : 0xC2 ≤ b.toNat ∧ b.toNat ≤ 0xDF) (h₁ : isContinuation b₁ = true)
    (rest : List UInt8) :
    decodeLossy (b :: b₁ :: rest) = joinBits (b.toNat % 32) [b₁] :: decodeLossy rest := by
  have hlow : ¬ b < 0x80 := by
    simp [UInt8.lt_iff_toNat_lt]
    omega
  have hlead : (0xC2 ≤ b && b ≤ 0xDF) = true := by simp [UInt8.le_iff_toNat_le, hb]
  rw [decodeLossy.eq_def]
  simp only [hlow, hlead, h₁, if_true, if_false]

theorem decodeLossy_three (hb : 0xE0 ≤ b.toNat ∧ b.toNat ≤ 0xEF)
    (h₁ : secondOfThree b b₁ = true) (h₂ : isContinuation b₂ = true) (rest : List UInt8) :
    decodeLossy (b :: b₁ :: b₂ :: rest) =
      joinBits (b.toNat % 16) [b₁, b₂] :: decodeLossy rest := by
  have hlow : ¬ b < 0x80 := by
    simp [UInt8.lt_iff_toNat_lt]
    omega
  have htwo : (0xC2 ≤ b && b ≤ 0xDF) = false := by
    simp [UInt8.le_iff_toNat_le]
    omega
  have hlead : (0xE0 ≤ b && b ≤ 0xEF) = true := by simp [UInt8.le_iff_toNat_le, hb]
  rw [decodeLossy.eq_def]
  simp only [hlow, htwo, hlead, h₁, h₂, if_true, if_false, Bool.false_eq_true]

theorem decodeLossy_four (hb : 0xF0 ≤ b.toNat ∧ b.toNat ≤ 0xF4)
    (h₁ : secondOfFour b b₁ = true) (h₂ : isContinuation b₂ = true) (h₃ : isContinuation b₃ = true)
    (rest : List UInt8) :
    decodeLossy (b :: b₁ :: b₂ :: b₃ :: rest) =
      joinBits (b.toNat % 8) [b₁, b₂, b₃] :: decodeLossy rest := by
  have hlow : ¬ b < 0x80 := by
    simp [UInt8.lt_iff_toNat_lt]
    omega
  have htwo : (0xC2 ≤ b && b ≤ 0xDF) = false := by
    simp [UInt8.le_iff_toNat_le]
    omega
  have hthree : (0xE0 ≤ b && b ≤ 0xEF) = false := by
    simp [UInt8.le_iff_toNat_le]
    omega
  have hlead : (0xF0 ≤ b && b ≤ 0xF4) = true := by simp [UInt8.le_iff_toNat_le, hb]
  rw [decodeLossy.eq_def]
  simp only [hlow, htwo, hthree, hlead, h₁, h₂, h₃, if_true, if_false, Bool.false_eq_true]

/-! ## Texts -/

theorem joinBits_eq {c : Char} {lead : Nat} {continuation : List UInt8}
    (h : continuation.foldl (fun code b => code * 64 + b.toNat % 64) lead = c.toNat) :
    joinBits lead continuation = c := by
  rw [joinBits, h, Char.ofNat_toNat]

/-- The bytes of a character read as that character. -/
theorem decodeLossy_utf8EncodeChar (c : Char) (rest : List UInt8) :
    decodeLossy (String.utf8EncodeChar c ++ rest) = c :: decodeLossy rest := by
  have hvalid : c.toNat < 0xD800 ∨ 0xDFFF < c.toNat ∧ c.toNat < 0x110000 := c.valid
  unfold String.utf8EncodeChar
  simp only [Char.toNat_val]
  split_ifs with hone htwo hthree
  · rw [List.singleton_append, decodeLossy_one, UInt8.toNat_ofNat']
    · rw [Nat.mod_eq_of_lt (by omega), Char.ofNat_toNat]
    · rw [UInt8.toNat_ofNat']
      omega
  · rw [List.cons_append, List.singleton_append, decodeLossy_two]
    · rw [joinBits_eq]
      simp only [List.foldl_cons, List.foldl_nil, UInt8.toNat_ofNat']
      omega
    · simp only [UInt8.toNat_ofNat']
      omega
    · simp only [isContinuation_iff, UInt8.toNat_ofNat']
      omega
  · rw [List.cons_append, List.cons_append, List.singleton_append, decodeLossy_three]
    · rw [joinBits_eq]
      simp only [List.foldl_cons, List.foldl_nil, UInt8.toNat_ofNat']
      omega
    · simp only [UInt8.toNat_ofNat']
      omega
    · simp only [secondOfThree_iff, UInt8.toNat_ofNat']
      omega
    · simp only [isContinuation_iff, UInt8.toNat_ofNat']
      omega
  · rw [List.cons_append, List.cons_append, List.cons_append, List.singleton_append,
      decodeLossy_four]
    · rw [joinBits_eq]
      simp only [List.foldl_cons, List.foldl_nil, UInt8.toNat_ofNat']
      omega
    · simp only [UInt8.toNat_ofNat']
      omega
    · simp only [secondOfFour_iff, UInt8.toNat_ofNat']
      omega
    · simp only [isContinuation_iff, UInt8.toNat_ofNat']
      omega
    · simp only [isContinuation_iff, UInt8.toNat_ofNat']
      omega

/-- The bytes of a text read as that text. -/
theorem decodeLossy_bytes (cs : List Char) (rest : List UInt8) :
    decodeLossy (bytes cs ++ rest) = cs ++ decodeLossy rest := by
  unfold bytes
  induction cs with
  | nil => rfl
  | cons c cs ih =>
    rw [List.flatMap_cons, List.append_assoc, decodeLossy_utf8EncodeChar, ih, List.cons_append]

end DiceScript.Text
