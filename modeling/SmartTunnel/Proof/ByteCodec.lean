import SmartTunnel.Model.ByteUtil

/-!
# Integers as bytes, and sums of bytes

What the header classes rest on.

* `intCodec`: `getByteFromInt` and `getIntValue` undo each other over all of `int`, at every width
  from 0 to 4.
* `onesComplementSum16bit_spec`: the sum of an array is the ones' complement sum of its words, whatever
  their order, and no round of the loop overflows.
-/

namespace SmartTunnel

open Jvm BigEndian OnesComplement

namespace ByteUtil

/-! ## Integers -/

/-- The least number of bytes that holds `v` as an unsigned number. -/
def unsignedBytes (v : BitVec 32) : ℕ := Nat.find (⟨4, by have := v.isLt; omega⟩ : ∃ k, v.toNat < 256 ^ k)

theorem unsignedBytes_le_iff (v : BitVec 32) (k : ℕ) : unsignedBytes v ≤ k ↔ v.toNat < 256 ^ k := by
  unfold unsignedBytes
  constructor
  · intro h
    have hfind := Nat.find_spec (⟨4, by have := v.isLt; omega⟩ : ∃ k, v.toNat < 256 ^ k)
    exact lt_of_lt_of_le hfind (Nat.pow_le_pow_right (by omega) h)
  · intro h
    exact Nat.find_le h

theorem unsignedBytes_eq (v : BitVec 32) : unsignedBytes v = 4 - numberOfLeadingZeros v / 8 := by
  have hpow : ∀ k, (256 : ℕ) ^ k = 2 ^ (8 * k) := fun k => by rw [pow_mul]; norm_num
  apply le_antisymm
  · rw [unsignedBytes_le_iff, hpow]
    exact (leadingZeros_le_iff v (by omega)).1 le_rfl
  · have hle : unsignedBytes v ≤ 4 := (unsignedBytes_le_iff v 4).2 (by have := v.isLt; omega)
    rw [leadingZeros_le_iff v hle, ← hpow]
    exact (unsignedBytes_le_iff v _).1 le_rfl

theorem getByteFromInt_length_eq (v : BitVec 32) (n : ℕ) : (getByteFromInt v n).length = max n (unsignedBytes v) := by
  rw [getByteFromInt_length, unsignedBytes_eq, max_comm]

theorem unsignedBytes_zero : unsignedBytes 0 = 0 := by
  have h := (unsignedBytes_le_iff 0 0).2 (by decide)
  omega

theorem unsignedBytes_of_neg {v : BitVec 32} (h : v.toInt < 0) : unsignedBytes v = 4 := by
  have hv := v.isLt
  -- the sign is in the fourth byte
  have hbig : 2 ^ 31 ≤ v.toNat := by
    have := BitVec.toInt_eq_toNat_cond v
    split at this <;> omega
  have hle : unsignedBytes v ≤ 4 := (unsignedBytes_le_iff v 4).2 (by omega)
  have hgt : ¬ unsignedBytes v ≤ 3 := by
    rw [unsignedBytes_le_iff]
    omega
  omega

theorem getIntValue_getByteFromInt_le (v : BitVec 32) {n : ℕ} (hn : n ≤ 4) :
    getIntValue (getByteFromInt v n) = .ok v := by
  have hle : unsignedBytes v ≤ 4 := (unsignedBytes_le_iff v 4).2 (by have := v.isLt; omega)
  rw [getIntValue_eq (by rw [getByteFromInt_length_eq]; omega), beNat_getByteFromInt]
  simp

theorem getByteFromInt_beNat {b : Bytes} (h : b.length ≤ 4) : getByteFromInt (BitVec.ofNat 32 (beNat b)) b.length = b := by
  have hlt := beNat_lt b
  have hpow : (256 : ℕ) ^ b.length = 2 ^ (8 * b.length) := by rw [pow_mul]; norm_num
  have hword : beNat b < 2 ^ 32 := by
    calc beNat b < 256 ^ b.length := hlt
      _ ≤ 256 ^ 4 := Nat.pow_le_pow_right (by omega) h
      _ = 2 ^ 32 := by norm_num
  have hv : (BitVec.ofNat 32 (beNat b)).toNat = beNat b := by
    rw [BitVec.toNat_ofNat, Nat.mod_eq_of_lt hword]
  -- arrays of one length and one number are the same
  apply beNat_inj
  · rw [getByteFromInt_of_lt _ h (by rw [hv, ← hpow]; exact hlt), fillFromEnd_length]
  · rw [beNat_getByteFromInt, hv]

/-- **The codec of integers.** At every width an `int` is read back, in as many bytes as it takes unsigned and
at least the width; and an array is written again. -/
theorem intCodec :
    (∀ (v : BitVec 32) (n : Fin 5), getIntValue (getByteFromInt v n) = .ok v ∧
      (getByteFromInt v n).length = max n.val (unsignedBytes v)) ∧
    unsignedBytes 0 = 0 ∧ (∀ v : BitVec 32, v.toInt < 0 → unsignedBytes v = 4) ∧
    ∀ b : Bytes, b.length ≤ 4 → ∃ v, getIntValue b = .ok v ∧ getByteFromInt v b.length = b := by
  refine ⟨?_, unsignedBytes_zero, fun v hv => unsignedBytes_of_neg hv, ?_⟩
  · intro v n
    exact ⟨getIntValue_getByteFromInt_le v (by omega), getByteFromInt_length_eq v n⟩
  · intro b hb
    exact ⟨_, getIntValue_eq hb, getByteFromInt_beNat hb⟩

/-! ## Sums -/

/-- The rounds of `sumWords`. -/
def sumRounds : BitVec 32 → Bytes → List SumRound
  | sum, a :: b :: rest => sumRound sum a b :: sumRounds (sumRound sum a b).next rest
  | _, _ => []

/-- The rounds of `onesComplementSum16bit`. -/
def roundsOf (data : Bytes) : List SumRound := sumRounds 0 (if data.length % 2 ≠ 0 then data ++ [0] else data)

/-- No `int` of the round overflows, and all of them stay below `2 ^ 17`. -/
structure SumRound.Fits (round : SumRound) : Prop where
  sum : round.sum.toNat < 2 ^ 17
  b2 : round.b2.toNat < 2 ^ 17
  r : round.r.toNat < 2 ^ 17
  next : round.next.toNat < 2 ^ 17
  exact : round.r.toInt = round.sum.toInt + round.b2.toInt

theorem sumRound_fits {sum : BitVec 32} (hs : sum.toNat ≤ 0xFFFF) (a b : Byte) : (sumRound sum a b).Fits := by
  have ha := a.isLt; have hb := b.isLt
  obtain ⟨hb2, hr, -⟩ := sumRound_spec hs a b
  have hnext := sumRound_next_le hs a b
  have hsum : (sumRound sum a b).sum = sum := rfl
  refine ⟨by rw [hsum]; omega, by omega, by omega, by omega, ?_⟩
  rw [BitVec.toInt_eq_toNat_of_lt (by omega), BitVec.toInt_eq_toNat_of_lt (by rw [hsum]; omega),
    BitVec.toInt_eq_toNat_of_lt (by omega), hr, hb2, hsum]
  push_cast
  ring

theorem sumRounds_fit (bs : Bytes) {s : BitVec 32} (hs : s.toNat ≤ 0xFFFF) : ∀ round ∈ sumRounds s bs, round.Fits := by
  induction bs using words.induct generalizing s with
  | case1 a b rest ih =>
    intro round hround
    rcases List.mem_cons.1 hround with rfl | hrest
    · exact sumRound_fits hs a b
    · exact ih (sumRound_next_le hs a b) round hrest
  | case2 a =>
    intro round hround
    cases hround
  | case3 =>
    intro round hround
    cases hround

/-- The last round leaves what the loop returns. -/
theorem sumWords_eq_last (bs : Bytes) (s : BitVec 32) :
    sumWords s bs = ((sumRounds s bs).getLast?.map SumRound.next).getD s := by
  induction bs using words.induct generalizing s with
  | case1 a b rest ih =>
    rw [sumWords_cons, ih, sumRounds]
    cases sumRounds (sumRound s a b).next rest with
    | nil => rfl
    | cons round rounds => rw [List.getLast?_cons_cons, List.getLast?_cons]; rfl
  | case2 a => rfl
  | case3 => rfl

theorem sum_congr {a b : Bytes} (h : OnesComplement.sum a = OnesComplement.sum b) :
    onesComplementSum16bit a = onesComplementSum16bit b := by
  apply BitVec.eq_of_toNat_eq
  rw [onesComplementSum16bit_toNat, onesComplementSum16bit_toNat, h]

/-- The word of a sum. -/
theorem words_sum (data : Bytes) :
    words (getByteFromInt (onesComplementSum16bit data) 2) = [OnesComplement.sum data] := by
  have hle : (onesComplementSum16bit data).toNat ≤ 0xFFFF := by
    rw [onesComplementSum16bit_toNat]
    exact rep_le _
  have hval := beNat_getByteFromInt (onesComplementSum16bit data) 2
  have hlen := getByteFromInt_two_length (v := onesComplementSum16bit data) (by omega)
  match hb : getByteFromInt (onesComplementSum16bit data) 2, hlen with
  | [x, y], _ =>
    rw [hb, beNat_two, onesComplementSum16bit_toNat] at hval
    simp only [words, hval]

/-- The sum of an even array and what follows it is the sum of their two sums. -/
theorem sum_append {a : Bytes} (b : Bytes) (ha : Even a.length) : onesComplementSum16bit (a ++ b) =
    onesComplementSum16bit (getByteFromInt (onesComplementSum16bit a) 2 ++ getByteFromInt (onesComplementSum16bit b) 2) := by
  apply sum_congr
  -- the first sum takes two bytes, so the second begins at a word
  have hword : Even (getByteFromInt (onesComplementSum16bit a) 2).length := by
    rw [getByteFromInt_two_length]
    · decide
    · have := rep_le (words a).sum
      rw [onesComplementSum16bit_toNat]
      unfold OnesComplement.sum
      omega
  unfold OnesComplement.sum
  rw [words_append b ha, words_append _ hword, words_sum, words_sum, List.sum_append]
  simp only [List.singleton_append, List.sum_cons, List.sum_nil, Nat.add_zero]
  exact (rep_add _ _).symm

/-- **The ones' complement sum.** It is the sum of the words of the array, in any order; no round overflows, and
the last one leaves the result; and the sum of a string is the sum of the sums of its parts. -/
theorem onesComplementSum16bit_spec (data : Bytes) :
    IsSum (words data) (onesComplementSum16bit data).toNat ∧
    (∀ round ∈ roundsOf data, round.Fits) ∧
    onesComplementSum16bit data = ((roundsOf data).getLast?.map SumRound.next).getD 0 ∧
    (∀ data', (words data').Perm (words data) → onesComplementSum16bit data' = onesComplementSum16bit data) ∧
    (∀ b, Even data.length → onesComplementSum16bit (data ++ b) = onesComplementSum16bit
      (getByteFromInt (onesComplementSum16bit data) 2 ++ getByteFromInt (onesComplementSum16bit b) 2)) ∧
    (computeChecksum data).length = 2 := by
  refine ⟨?_, sumRounds_fit _ (by simp), sumWords_eq_last _ 0, ?_, fun b hdata => sum_append b hdata,
    (computeChecksum_eq data).2⟩
  · rw [onesComplementSum16bit_toNat]
    exact isSum_rep _
  · intro data' hperm
    apply sum_congr
    unfold OnesComplement.sum
    rw [hperm.sum_eq]

end ByteUtil

end SmartTunnel
