import SmartTunnel.Base.Jvm

/-!
# UTF-8

The bytes of a text. A character below 128 is the byte of its number, and of any other character all the bytes are
at least 128, so what looks at ASCII characters only can look at the bytes.
-/

namespace Utf8

open Jvm

def encodeChar (c : Char) : Bytes := (String.utf8EncodeChar c).map UInt8.toBitVec

/-- `getBytes`. -/
def encode (s : List Char) : Bytes := s.flatMap encodeChar

variable {c d : Char} {s t : List Char} {b : Byte}

@[simp] theorem encode_nil : encode [] = [] := rfl

@[simp] theorem encode_cons (c : Char) (s : List Char) : encode (c :: s) = encodeChar c ++ encode s := rfl

@[simp] theorem encode_append (s t : List Char) : encode (s ++ t) = encode s ++ encode t := List.flatMap_append

theorem encodeChar_ascii (h : c.toNat < 128) : encodeChar c = [BitVec.ofNat 8 c.toNat] := by
  unfold encodeChar String.utf8EncodeChar
  have hle : c.val.toNat ≤ 0x7f := Nat.lt_succ_iff.1 h
  rw [if_pos hle]
  rfl

/-- The bytes of a character that is not ASCII. -/
theorem encodeChar_high (h : 128 ≤ c.toNat) : encodeChar c ≠ [] ∧ ∀ b ∈ encodeChar c, 128 ≤ b.toNat := by
  have hgt : ¬ c.val.toNat ≤ 0x7f := not_le.2 h
  unfold encodeChar String.utf8EncodeChar
  rw [if_neg hgt]
  split_ifs
  · simp
    omega
  · simp
    omega
  · simp
    omega

theorem encodeChar_ne_nil (c : Char) : encodeChar c ≠ [] := by
  by_cases h : c.toNat < 128
  · rw [encodeChar_ascii h]
    exact List.cons_ne_nil _ _
  · exact (encodeChar_high (not_lt.1 h)).1

theorem encode_eq_nil : encode s = [] ↔ s = [] := by
  cases s with
  | nil => simp
  | cons c s => simp [encodeChar_ne_nil]

/-- **An ASCII byte is in a text iff its character is.** -/
theorem mem_encode (hd : d.toNat < 128) : BitVec.ofNat 8 d.toNat ∈ encode s ↔ d ∈ s := by
  unfold encode
  rw [List.mem_flatMap]
  constructor
  · rintro ⟨c, hc, hb⟩
    by_cases h : c.toNat < 128
    · rw [encodeChar_ascii h, List.mem_singleton] at hb
      have hnat := congrArg BitVec.toNat hb
      simp only [BitVec.toNat_ofNat] at hnat
      have hcd : c.toNat = d.toNat := by omega
      rwa [← Char.toNat_inj.1 hcd]
    · have := (encodeChar_high (not_lt.1 h)).2 _ hb
      rw [BitVec.toNat_ofNat] at this
      omega
  · intro h
    exact ⟨d, h, by rw [encodeChar_ascii hd]; exact List.mem_singleton_self _⟩

end Utf8
