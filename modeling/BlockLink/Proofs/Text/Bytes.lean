import BlockLink.Frame

/-!
# `BlockLink/Proofs/Text/Bytes.lean` — the bytes of a text

What goes over the wire, and what a string of Lua holds, are bytes. The bytes of a text are those of
its characters in order, and the only thing that has to be known about the encoding is how it treats
ASCII: a character of ASCII is one byte, its own number, and no other character has a byte of that
kind.
-/

set_option autoImplicit false

namespace BlockLink

theorem textBytes_eq_flatMap (s : String) :
    textBytes s = s.toList.flatMap String.utf8EncodeChar := by
  unfold textBytes
  rw [String.toUTF8_eq_toByteArray, ← String.utf8Encode_toList, List.utf8Encode,
    List.data_toByteArray]

theorem textBytes_append (s t : String) : textBytes (s ++ t) = textBytes s ++ textBytes t := by
  simp only [textBytes_eq_flatMap, String.toList_append, List.flatMap_append]

namespace Text

/-- A character of ASCII is one byte. -/
theorem utf8EncodeChar_of_ascii {c : Char} (h : c.toNat ≤ 0x7f) :
    String.utf8EncodeChar c = [UInt8.ofNat c.toNat] := by
  have hval : c.val.toNat ≤ 0x7f := h
  simp only [String.utf8EncodeChar, hval, if_true]
  rfl

/-- The bytes of a character beyond ASCII are all beyond ASCII. -/
theorem le_of_mem_utf8EncodeChar {c : Char} (h : 0x7f < c.toNat) {b : UInt8}
    (hb : b ∈ String.utf8EncodeChar c) : 0x80 ≤ b.toNat := by
  have hval : ¬ c.val.toNat ≤ 0x7f := Nat.not_le.mpr h
  have hbyte : ∀ n, 0x80 ≤ n % 256 → b = UInt8.ofNat n → 0x80 ≤ b.toNat := by
    intro n hn heq
    rw [heq, UInt8.toNat_ofNat']
    exact hn
  simp only [String.utf8EncodeChar, hval, if_false] at hb
  split at hb
  · simp only [List.mem_cons, List.not_mem_nil, or_false] at hb
    rcases hb with hb | hb <;> exact hbyte _ (by omega) hb
  · split at hb
    · simp only [List.mem_cons, List.not_mem_nil, or_false] at hb
      rcases hb with hb | hb | hb <;> exact hbyte _ (by omega) hb
    · simp only [List.mem_cons, List.not_mem_nil, or_false] at hb
      rcases hb with hb | hb | hb | hb <;> exact hbyte _ (by omega) hb

/-- A byte of ASCII in a text is a character of it. -/
theorem mem_textBytes_iff {c : Char} (h : c.toNat ≤ 0x7f) {s : String} :
    UInt8.ofNat c.toNat ∈ textBytes s ↔ c ∈ s.toList := by
  rw [textBytes_eq_flatMap, List.mem_flatMap]
  have hnat : (UInt8.ofNat c.toNat).toNat = c.toNat := by
    rw [UInt8.toNat_ofNat']
    omega
  constructor
  · intro hb
    obtain ⟨d, hd, hb⟩ := hb
    -- A byte of ASCII is not one of those that a larger character is made of.
    by_cases hascii : d.toNat ≤ 0x7f
    · rw [utf8EncodeChar_of_ascii hascii, List.mem_singleton] at hb
      have heq : c.toNat = d.toNat := by
        have hbyte := congrArg UInt8.toNat hb
        rw [hnat, UInt8.toNat_ofNat'] at hbyte
        omega
      rw [Char.toNat_inj.mp heq]
      exact hd
    · have hle := le_of_mem_utf8EncodeChar (Nat.not_le.mp hascii) hb
      omega
  · intro hc
    exact ⟨c, hc, by rw [utf8EncodeChar_of_ascii h]; exact List.mem_singleton.mpr rfl⟩

end Text

end BlockLink
