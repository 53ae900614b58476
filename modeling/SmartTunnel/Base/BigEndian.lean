import Mathlib

/-!
# Big-endian byte strings

`beNat` is the number a byte string writes in base 256, most significant byte first.
Strings of one length are told apart by their numbers (`beNat_inj`).
-/

namespace BigEndian

def beNat : List (BitVec 8) → ℕ
  | [] => 0
  | b :: rest => b.toNat * 256 ^ rest.length + beNat rest

@[simp] theorem beNat_nil : beNat [] = 0 := rfl

theorem beNat_cons (b : BitVec 8) (rest : List (BitVec 8)) :
    beNat (b :: rest) = b.toNat * 256 ^ rest.length + beNat rest := rfl

theorem beNat_two (a b : BitVec 8) : beNat [a, b] = a.toNat * 256 + b.toNat := by
  simp [beNat]

theorem beNat_lt (bs : List (BitVec 8)) : beNat bs < 256 ^ bs.length := by
  induction bs with
  | nil => simp
  | cons b rest ih =>
    have hb : (b.toNat + 1) * 256 ^ rest.length ≤ 256 * 256 ^ rest.length :=
      Nat.mul_le_mul_right _ b.isLt
    rw [beNat_cons, List.length_cons, Nat.pow_succ, Nat.mul_comm _ 256]
    rw [Nat.add_mul] at hb
    omega

theorem beNat_concat (bs : List (BitVec 8)) (b : BitVec 8) :
    beNat (bs ++ [b]) = beNat bs * 256 + b.toNat := by
  induction bs with
  | nil => simp [beNat]
  | cons a rest ih =>
    simp only [List.cons_append, beNat_cons, List.length_append, List.length_singleton, ih, pow_succ]
    ring

/-- **Strings of one length with one number are one string.** -/
theorem beNat_inj {as bs : List (BitVec 8)} (hl : as.length = bs.length) (h : beNat as = beNat bs) :
    as = bs := by
  induction as generalizing bs with
  | nil => exact (List.length_eq_zero_iff.1 hl.symm).symm
  | cons a as ih =>
    cases bs with
    | nil => cases hl
    | cons b bs =>
      simp only [List.length_cons, Nat.add_right_cancel_iff] at hl
      rw [beNat_cons, beNat_cons, hl] at h
      have ha := beNat_lt as
      have hb := beNat_lt bs
      rw [hl] at ha
      have hq : a.toNat = b.toNat := by
        have h1 := congrArg (· / 256 ^ bs.length) h
        simpa [Nat.mul_add_div, Nat.div_eq_of_lt ha, Nat.div_eq_of_lt hb, Nat.mul_comm _ (256 ^ _)] using h1
      rw [hq] at h
      rw [BitVec.eq_of_toNat_eq hq, ih hl (by omega)]

end BigEndian
