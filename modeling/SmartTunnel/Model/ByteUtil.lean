import SmartTunnel.Base.BigEndian
import SmartTunnel.Base.Jvm
import SmartTunnel.Base.OnesComplement

/-!
# `ByteUtil` and `ArrayUtil`

Integers to byte arrays and back, the ones' complement checksum, and the in-place
replacement of a slice.

* `getByteFromInt_length_le`: an `int` takes at most `k` bytes iff it is below `256 ^ k`;
  a negative `int` always takes four.
* `getIntValue_getByteFromInt`: the four-byte form of an `int` reads back.
* `onesComplementSum16bit_toNat`: the loop computes the ones' complement sum.
-/

namespace SmartTunnel

open Jvm BigEndian

namespace ByteUtil

/-- `Integer.numberOfLeadingZeros`. -/
def numberOfLeadingZeros (value : BitVec 32) : ℕ := value.clz.toNat

/-- The loop of `getByteFromInt`: fills an array of `n` bytes from its end. -/
def fillFromEnd : ℕ → BitVec 32 → Bytes
  | 0, _ => []
  | n + 1, value => fillFromEnd n (value >>> 8) ++ [(value &&& 0xFF).setWidth 8]

def getByteFromInt (value : BitVec 32) (minByteArraySize : ℕ) : Bytes :=
  let leadingZero := numberOfLeadingZeros value
  let byteCount := max (4 - leadingZero / 8) minByteArraySize
  fillFromEnd byteCount value

/-- The loop of `getByteFromLong`. -/
def fillLongFromEnd : ℕ → BitVec 64 → Bytes
  | 0, _ => []
  | n + 1, value => fillLongFromEnd n (value >>> 8) ++ [(value &&& 0xFF).setWidth 8]

def getByteFromLong (value : BitVec 64) (minByteArraySize : ℕ) : Bytes :=
  let leadingZero := value.clz.toNat
  let byteCount := max (8 - leadingZero / 8) minByteArraySize
  fillLongFromEnd byteCount value

/-- The loop of `getIntValue`. -/
def orBytes : BitVec 32 → ℕ → Bytes → BitVec 32
  | r, _, [] => r
  | r, shift, b :: rest => orBytes (r ||| (b.setWidth 32 <<< shift)) (shift - 8) rest

def getIntValue (value : Bytes) : Except JavaException (BitVec 32) :=
  if 4 < value.length then .error .numberFormat
  else .ok (orBytes 0 ((value.length - 1) * 8) value)

/-- The loop of `onesComplementSum16bit`. -/
def sumWords : BitVec 32 → Bytes → BitVec 32
  | sum, a :: b :: rest =>
    let b2 := (a.setWidth 32 <<< 8) ||| b.setWidth 32
    let r := sum + b2
    sumWords (if (0xFFFF : ℤ) < r.toInt then (r &&& 0xFFFF) + 1 else r) rest
  | sum, _ => sum

def onesComplementSum16bit (data : Bytes) : BitVec 32 :=
  sumWords 0 (if data.length % 2 ≠ 0 then data ++ [0] else data)

def computeChecksum (data : Bytes) : Bytes :=
  let sum := onesComplementSum16bit data
  getByteFromInt (~~~sum &&& 0xFFFF) 2

end ByteUtil

/-- `ArrayUtil.replace`. -/
def ArrayUtil.replace (source : Bytes) (startIndex : ℕ) (data : Bytes) : Except JavaException Bytes :=
  if source.length < startIndex + data.length then .error .arrayIndexOutOfBounds
  else .ok (source.take startIndex ++ data ++ source.drop (startIndex + data.length))

/-! ## Integers as bytes -/

namespace ByteUtil

@[simp] theorem fillFromEnd_length (n : ℕ) (v : BitVec 32) : (fillFromEnd n v).length = n := by
  induction n generalizing v with
  | zero => rfl
  | succ n ih => simp [fillFromEnd, ih]

@[simp] theorem fillLongFromEnd_length (n : ℕ) (v : BitVec 64) : (fillLongFromEnd n v).length = n := by
  induction n generalizing v with
  | zero => rfl
  | succ n ih => simp [fillLongFromEnd, ih]

@[simp] theorem getByteFromLong_eight_length (v : BitVec 64) : (getByteFromLong v 8).length = 8 := by
  unfold getByteFromLong
  rw [fillLongFromEnd_length]
  omega

theorem leadingZeros_le_iff (v : BitVec 32) {k : ℕ} (hk : k ≤ 4) :
    4 - numberOfLeadingZeros v / 8 ≤ k ↔ v.toNat < 2 ^ (8 * k) := by
  unfold numberOfLeadingZeros
  have hle : v.clz.toNat ≤ 32 := by
    have := BitVec.clz_le (x := v)
    simpa [BitVec.le_def] using this
  constructor
  · intro h
    refine lt_of_lt_of_le BitVec.toNat_lt_two_pow_sub_clz (Nat.pow_le_pow_right (by omega) ?_)
    omega
  · intro h
    by_cases hv : v = 0
    · subst hv
      have : (BitVec.clz (0#32)).toNat = 32 := by decide
      simp only [BitVec.ofNat_eq_ofNat, this]; omega
    · have h1 := BitVec.two_pow_sub_clz_le_toNat_of_ne_zero (by omega) hv
      have h2 := (Nat.pow_lt_pow_iff_right (by omega : 1 < 2)).1 (lt_of_le_of_lt h1 h)
      omega

theorem getByteFromInt_length (v : BitVec 32) (n : ℕ) :
    (getByteFromInt v n).length = max (4 - numberOfLeadingZeros v / 8) n := by
  simp [getByteFromInt]

/-- The array has `k` bytes or fewer iff the value, read unsigned, fits in them. -/
theorem getByteFromInt_length_le (v : BitVec 32) {n k : ℕ} (hn : n ≤ k) (hk : k ≤ 4) :
    (getByteFromInt v n).length ≤ k ↔ v.toNat < 2 ^ (8 * k) := by
  rw [getByteFromInt_length, ← leadingZeros_le_iff v hk]
  omega

theorem getByteFromInt_of_lt (v : BitVec 32) {n : ℕ} (hn : n ≤ 4) (h : v.toNat < 2 ^ (8 * n)) :
    getByteFromInt v n = fillFromEnd n v := by
  have := (leadingZeros_le_iff v hn).2 h
  simp only [getByteFromInt]
  rw [max_eq_right this]

theorem getByteFromInt_four (v : BitVec 32) : getByteFromInt v 4 = fillFromEnd 4 v :=
  getByteFromInt_of_lt v le_rfl v.isLt

@[simp] theorem getByteFromInt_four_length (v : BitVec 32) : (getByteFromInt v 4).length = 4 := by
  rw [getByteFromInt_four, fillFromEnd_length]

theorem beNat_fillFromEnd (n : ℕ) (v : BitVec 32) :
    beNat (fillFromEnd n v) = v.toNat % 256 ^ n := by
  induction n generalizing v with
  | zero => simp [fillFromEnd, Nat.mod_one]
  | succ n ih =>
    have hlow : ((v &&& 0xFF).setWidth 8).toNat = v.toNat % 256 := by
      have := Nat.and_two_pow_sub_one_eq_mod v.toNat 8
      simp only [BitVec.toNat_setWidth, BitVec.toNat_and, BitVec.reduceToNat] at *
      norm_num at this ⊢
      omega
    have hhigh : (v >>> 8).toNat = v.toNat / 256 := by
      simp [Nat.shiftRight_eq_div_pow]
    rw [fillFromEnd, beNat_concat, ih, hlow, hhigh, pow_succ, Nat.mul_comm (256 ^ n) 256, Nat.mod_mul]
    omega

theorem beNat_getByteFromInt (v : BitVec 32) (n : ℕ) : beNat (getByteFromInt v n) = v.toNat := by
  have hfit : v.toNat < 2 ^ (8 * (4 - numberOfLeadingZeros v / 8)) :=
    (leadingZeros_le_iff v (by omega)).1 le_rfl
  simp only [getByteFromInt, beNat_fillFromEnd]
  apply Nat.mod_eq_of_lt
  calc v.toNat < 2 ^ (8 * (4 - numberOfLeadingZeros v / 8)) := hfit
    _ = 256 ^ (4 - numberOfLeadingZeros v / 8) := by rw [pow_mul]; norm_num
    _ ≤ _ := Nat.pow_le_pow_right (by omega) (le_max_left _ _)

/-- A value below `2 ^ 16` as its two bytes. -/
theorem getByteFromInt_two {v : BitVec 32} {a b : Byte} (h : v.toNat = a.toNat * 256 + b.toNat) :
    getByteFromInt v 2 = [a, b] := by
  have ha := a.isLt; have hb := b.isLt
  have hv : v.toNat < 2 ^ (8 * 2) := by omega
  apply beNat_inj
  · rw [getByteFromInt_of_lt v (by omega) hv, fillFromEnd_length]; rfl
  · rw [beNat_getByteFromInt, beNat_two, h]

theorem getByteFromInt_two_length {v : BitVec 32} (h : v.toNat < 2 ^ 16) :
    (getByteFromInt v 2).length = 2 := by
  rw [getByteFromInt_of_lt v (by omega) h, fillFromEnd_length]

/-- A value from `2 ^ 16` on, or a negative one, takes more than two bytes. -/
theorem two_lt_getByteFromInt_length {v : BitVec 32} (h : 2 ^ 16 ≤ v.toNat) :
    2 < (getByteFromInt v 2).length := by
  by_contra hc
  have := (getByteFromInt_length_le v (n := 2) le_rfl (by omega)).1 (by omega)
  omega

theorem two_le_getByteFromInt_length (v : BitVec 32) : 2 ≤ (getByteFromInt v 2).length := by
  rw [getByteFromInt_length]; omega

/-- The loop of `getIntValue` adds the bytes below what it already holds. -/
theorem orBytes_toNat (bs : Bytes) (r : BitVec 32) (hr : 256 ^ bs.length ∣ r.toNat)
    (hl : bs.length ≤ 4) : (orBytes r ((bs.length - 1) * 8) bs).toNat = r.toNat + beNat bs := by
  induction bs generalizing r with
  | nil => simp [orBytes]
  | cons b rest ih =>
    simp only [List.length_cons] at hl hr
    have hb := b.isLt
    have hpow : 2 ^ (rest.length * 8) = 256 ^ rest.length := by rw [Nat.mul_comm, pow_mul]; norm_num
    have hle : 256 ^ (rest.length + 1) ≤ 2 ^ 32 := by
      calc 256 ^ (rest.length + 1) ≤ 256 ^ 4 := Nat.pow_le_pow_right (by omega) hl
        _ = 2 ^ 32 := by norm_num
    have hlt : b.toNat * 256 ^ rest.length < 256 ^ (rest.length + 1) := by
      rw [pow_succ, Nat.mul_comm]
      exact Nat.mul_lt_mul_of_pos_left hb (by positivity)
    have hor : (r ||| (b.setWidth 32 <<< (((b :: rest).length - 1) * 8))).toNat =
        r.toNat + b.toNat * 256 ^ rest.length := by
      simp only [List.length_cons, Nat.add_sub_cancel, BitVec.toNat_or, BitVec.toNat_shiftLeft,
        BitVec.toNat_setWidth, Nat.shiftLeft_eq, hpow]
      rw [Nat.mod_eq_of_lt (a := b.toNat) (by omega), Nat.mod_eq_of_lt (lt_of_lt_of_le hlt hle)]
      obtain ⟨q, hq⟩ := hr
      have h8 : (256 : ℕ) ^ (rest.length + 1) = 2 ^ (8 * (rest.length + 1)) := by
        rw [pow_mul]; norm_num
      rw [hq, h8]
      rw [h8] at hlt
      exact (Nat.two_pow_add_eq_or_of_lt hlt q).symm
    rw [orBytes]
    have hs : ((b :: rest).length - 1) * 8 - 8 = (rest.length - 1) * 8 := by
      simp only [List.length_cons]; omega
    rw [hs, ih _ _ (by omega), hor, beNat_cons]
    · omega
    · rw [hor]
      exact (Nat.dvd_add (Dvd.dvd.trans (pow_dvd_pow _ (by omega)) hr) (Dvd.intro_left _ rfl))

theorem getIntValue_eq {bs : Bytes} (h : bs.length ≤ 4) :
    getIntValue bs = .ok (BitVec.ofNat 32 (beNat bs)) := by
  unfold getIntValue
  rw [if_neg (by omega)]
  congr 1
  apply BitVec.eq_of_toNat_eq
  have hlt : beNat bs < 2 ^ 32 := by
    calc beNat bs < 256 ^ bs.length := beNat_lt bs
      _ ≤ 256 ^ 4 := Nat.pow_le_pow_right (by omega) h
      _ = 2 ^ 32 := by norm_num
  rw [orBytes_toNat bs 0 (by simp) h, BitVec.toNat_ofNat, Nat.mod_eq_of_lt hlt]
  simp

/-- **The four-byte form of an `int` reads back.** -/
@[simp] theorem getIntValue_getByteFromInt (v : BitVec 32) :
    getIntValue (getByteFromInt v 4) = .ok v := by
  rw [getIntValue_eq (by simp), beNat_getByteFromInt]
  simp

theorem getIntValue_two (a b : Byte) :
    getIntValue [a, b] = .ok (BitVec.ofNat 32 (a.toNat * 256 + b.toNat)) := by
  rw [getIntValue_eq (by simp), beNat_two]

/-! ## The checksum -/

/-- What one round of the loop of `onesComplementSum16bit` computes. -/
structure SumRound where
  /-- The sum before it. -/
  sum : BitVec 32
  b2 : BitVec 32
  r : BitVec 32
  /-- The sum after it. -/
  next : BitVec 32
  deriving DecidableEq, Repr

/-- The round at the bytes `a` and `b`. -/
def sumRound (sum : BitVec 32) (a b : Byte) : SumRound :=
  let b2 := (a.setWidth 32 <<< 8) ||| b.setWidth 32
  let r := sum + b2
  ⟨sum, b2, r, if (0xFFFF : ℤ) < r.toInt then (r &&& 0xFFFF) + 1 else r⟩

theorem sumWords_cons (sum : BitVec 32) (a b : Byte) (rest : Bytes) :
    sumWords sum (a :: b :: rest) = sumWords (sumRound sum a b).next rest := rfl

/-- **A round adds a word**, with the carry added back in. -/
theorem sumRound_spec {sum : BitVec 32} (hs : sum.toNat ≤ 0xFFFF) (a b : Byte) :
    (sumRound sum a b).b2.toNat = a.toNat * 256 + b.toNat ∧
      (sumRound sum a b).r.toNat = sum.toNat + (a.toNat * 256 + b.toNat) ∧
      (sumRound sum a b).next.toNat = OnesComplement.add sum.toNat (a.toNat * 256 + b.toNat) := by
  have ha := a.isLt; have hb := b.isLt
  have hw : (sumRound sum a b).b2.toNat = a.toNat * 256 + b.toNat := by
    simp only [sumRound, BitVec.toNat_or, BitVec.toNat_shiftLeft, BitVec.toNat_setWidth, Nat.shiftLeft_eq]
    rw [Nat.mod_eq_of_lt (a := a.toNat) (by omega), Nat.mod_eq_of_lt (a := b.toNat) (by omega),
      Nat.mod_eq_of_lt (by omega), Nat.mul_comm]
    exact (Nat.two_pow_add_eq_or_of_lt hb a.toNat).symm
  have hsum : (sumRound sum a b).r.toNat = sum.toNat + (a.toNat * 256 + b.toNat) := by
    change (sum + (sumRound sum a b).b2).toNat = _
    rw [BitVec.toNat_add, hw, Nat.mod_eq_of_lt (by omega)]
  have hint : (sumRound sum a b).r.toInt = (sum.toNat + (a.toNat * 256 + b.toNat) : ℕ) := by
    rw [BitVec.toInt_eq_toNat_of_lt (by omega), hsum]
  refine ⟨hw, hsum, ?_⟩
  change (if (0xFFFF : ℤ) < (sumRound sum a b).r.toInt then ((sumRound sum a b).r &&& 0xFFFF) + 1
    else (sumRound sum a b).r).toNat = _
  rw [hint]
  unfold OnesComplement.add
  by_cases hc : 0xFFFF < sum.toNat + (a.toNat * 256 + b.toNat)
  · rw [if_pos (by omega), if_pos hc, BitVec.toNat_add, BitVec.toNat_and, hsum]
    have := Nat.and_two_pow_sub_one_eq_mod (sum.toNat + (a.toNat * 256 + b.toNat)) 16
    simp only [BitVec.reduceToNat]
    norm_num at this ⊢
    omega
  · rw [if_neg (by omega), if_neg hc, hsum]

theorem sumRound_next_le {sum : BitVec 32} (hs : sum.toNat ≤ 0xFFFF) (a b : Byte) :
    (sumRound sum a b).next.toNat ≤ 0xFFFF := by
  have ha := a.isLt; have hb := b.isLt
  rw [(sumRound_spec hs a b).2.2]
  unfold OnesComplement.add
  split <;> omega

theorem sumWords_toNat (bs : Bytes) (s : BitVec 32) (hs : s.toNat ≤ 0xFFFF) (he : Even bs.length) :
    (sumWords s bs).toNat = (OnesComplement.words bs).foldl OnesComplement.add s.toNat := by
  induction bs using OnesComplement.words.induct generalizing s with
  | case1 a b rest ih =>
    have hr : Even rest.length := by
      simp only [List.length_cons] at he
      obtain ⟨k, hk⟩ := he
      exact ⟨k - 1, by omega⟩
    rw [sumWords_cons, ih _ (sumRound_next_le hs a b) hr, (sumRound_spec hs a b).2.2]
    rfl
  | case2 a => simp at he
  | case3 => rfl

/-- **The loop computes the ones' complement sum of the array.** -/
theorem onesComplementSum16bit_toNat (data : Bytes) :
    (onesComplementSum16bit data).toNat = OnesComplement.sum data := by
  have key : ∀ bs : Bytes, Even bs.length → (sumWords 0 bs).toNat = OnesComplement.sum bs := by
    intro bs he
    rw [sumWords_toNat bs 0 (by simp) he]
    have := OnesComplement.foldl_add_rep _ (OnesComplement.words_le bs) 0
    simpa [OnesComplement.sum, OnesComplement.rep_of_le] using this
  unfold onesComplementSum16bit
  split
  · rename_i hodd
    have ho : Odd data.length := Nat.odd_iff.2 (by omega)
    rw [key _ (by rw [List.length_append]; exact ho.add_odd (by simp))]
    unfold OnesComplement.sum
    rw [OnesComplement.words_padded ho]
  · rename_i heven
    exact key _ (Nat.even_iff.2 (by omega))

theorem computeChecksum_eq (data : Bytes) :
    beNat (computeChecksum data) = 0xFFFF - OnesComplement.sum data ∧
      (computeChecksum data).length = 2 := by
  have hs := onesComplementSum16bit_toNat data
  have hle : OnesComplement.sum data ≤ 0xFFFF := OnesComplement.rep_le _
  have hv : (~~~(onesComplementSum16bit data) &&& 0xFFFF : BitVec 32).toNat =
      0xFFFF - OnesComplement.sum data := by
    rw [BitVec.toNat_and, BitVec.toNat_not, hs]
    have := Nat.and_two_pow_sub_one_eq_mod (2 ^ 32 - 1 - OnesComplement.sum data) 16
    simp only [BitVec.reduceToNat]
    norm_num at this ⊢
    omega
  refine ⟨?_, ?_⟩
  · simp only [computeChecksum]; rw [beNat_getByteFromInt, hv]
  · simp only [computeChecksum]; exact getByteFromInt_two_length (by omega)

end ByteUtil

end SmartTunnel
