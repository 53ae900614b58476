import Mathlib

/-!
# Serial numbers

Numbers modulo `2 ^ w` that count a sequence without end. `position base q` is the number at offset
`q` from `base`, and `distance a b` the steps from `a` forward to `b`. Offsets less than `2 ^ w` apart
are told apart by their numbers.
-/

namespace Serial

variable {w : ℕ}

/-- The number at an offset. -/
def position (base : BitVec w) (q : ℤ) : BitVec w := base + BitVec.ofInt w q

/-- The steps forward from `a` to `b`. -/
def distance (a b : BitVec w) : ℕ := (b - a).toNat

variable {a b : ℤ}

theorem position_add (base : BitVec w) (q : ℤ) (n : ℕ) :
    position base q + BitVec.ofNat w n = position base (q + n) := by
  rw [position, position, BitVec.ofInt_add, BitVec.ofInt_natCast, BitVec.add_assoc]

theorem position_sub_one (base : BitVec w) (q : ℤ) : position base q - 1 = position base (q - 1) := by
  have h := position_add base (q - 1) 1
  rw [show q - 1 + (1 : ℕ) = q by push_cast; ring] at h
  rw [← h]
  exact BitVec.add_sub_cancel _ _

theorem position_natCast (base : BitVec w) (n : ℕ) : position base n = base + BitVec.ofNat w n := by
  rw [position, BitVec.ofInt_natCast]

theorem distance_position (base : BitVec w) (a b : ℤ) :
    distance (position base a) (position base b) = ((b - a) % 2 ^ w).toNat := by
  have h : position base b = position base a + BitVec.ofInt w (b - a) := by
    rw [position, position, BitVec.add_assoc, ← BitVec.ofInt_add, add_sub_cancel]
  rw [distance, h, BitVec.add_comm, BitVec.add_sub_cancel, BitVec.toNat_ofInt]
  norm_cast

theorem distance_of_le (base : BitVec w) (hab : a ≤ b) (hlt : b - a < 2 ^ w) :
    distance (position base a) (position base b) = (b - a).toNat := by
  rw [distance_position, Int.emod_eq_of_lt (by omega) hlt]

/-- Backward is far forward. -/
theorem distance_of_lt (base : BitVec w) (hab : b < a) (hle : a - b ≤ 2 ^ w) :
    (distance (position base a) (position base b) : ℤ) = 2 ^ w - (a - b) := by
  rw [distance_position, ← Int.add_emod_right, Int.emod_eq_of_lt (by omega) (by omega)]
  omega

/-- The number at the distance of a number is that number. -/
theorem position_distance (base b : BitVec w) (n : ℕ) :
    position base (n + distance (position base n) b : ℕ) = b := by
  rw [Nat.cast_add, ← position_add, distance, BitVec.ofNat_toNat, BitVec.setWidth_eq, BitVec.add_comm,
    BitVec.sub_add_cancel]

end Serial
