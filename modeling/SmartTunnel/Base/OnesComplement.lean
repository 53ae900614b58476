import Mathlib

/-!
# Ones' complement sums of 16-bit words

End-around-carry addition has two zeros, `0` and `0xFFFF`. Adding words with it keeps
the total modulo `0xFFFF`, and keeps it at `0` only while every word is `0`: the sum is
the representative `rep` of the integer total (`foldl_add_rep`).

A checksum is the complement of the sum with the checksum word at zero. With it in
place the sum is `0xFFFF` (`rep_complement`), and apart from the two zeros it is the
only word that does this (`complement_unique`).
-/

namespace OnesComplement

/-- `0` for `0`, otherwise the residue modulo `0xFFFF` in `1 .. 0xFFFF`. -/
def rep (n : ℕ) : ℕ := if n = 0 then 0 else (n - 1) % 0xFFFF + 1

/-- Addition of two words with the carry added back in. -/
def add (a b : ℕ) : ℕ := if 0xFFFF < a + b then (a + b) % 0x10000 + 1 else a + b

theorem rep_le (n : ℕ) : rep n ≤ 0xFFFF := by
  unfold rep
  split
  · omega
  · have := Nat.mod_lt (n - 1) (show 0 < 0xFFFF by omega)
    omega

theorem rep_of_le {n : ℕ} (h : n ≤ 0xFFFF) : rep n = n := by
  unfold rep
  split
  · omega
  · rw [Nat.mod_eq_of_lt (by omega)]; omega

/-- **Adding a word to a sum is adding it to the total.** -/
theorem add_rep (n : ℕ) {b : ℕ} (hb : b ≤ 0xFFFF) : add (rep n) b = rep (n + b) := by
  have hr := rep_le n
  unfold add rep at *
  split_ifs at * <;> omega

/-- Summing words one after the other gives the representative of their total. -/
theorem foldl_add_rep (ws : List ℕ) (h : ∀ w ∈ ws, w ≤ 0xFFFF) (n : ℕ) :
    ws.foldl add (rep n) = rep (n + ws.sum) := by
  induction ws generalizing n with
  | nil => simp
  | cons w ws ih =>
    rw [List.foldl_cons, add_rep n (h w List.mem_cons_self),
      ih (fun v hv => h v (List.mem_cons_of_mem _ hv)), List.sum_cons, Nat.add_assoc]

/-- **A total with the complement of its sum added sums to `0xFFFF`.** -/
theorem rep_complement (n : ℕ) : rep (n + (0xFFFF - rep n)) = 0xFFFF := by
  have hr := rep_le n
  unfold rep at *
  split_ifs at * <;> omega

/-- A word that brings a non-zero total to `0xFFFF` is the complement of its sum, or
the other zero. -/
theorem complement_unique {n c : ℕ} (hn : 0 < n) (hc : c ≤ 0xFFFF) (h : rep (n + c) = 0xFFFF) :
    c = 0xFFFF - rep n ∨ (c = 0xFFFF ∧ rep n = 0xFFFF) := by
  have hr := rep_le n
  unfold rep at *
  split_ifs at * <;> omega

/-- A non-zero total sums to `0xFFFF` iff it is a multiple of it. -/
theorem rep_eq_max_iff {n : ℕ} (hn : 0 < n) : rep n = 0xFFFF ↔ 0xFFFF ∣ n := by
  unfold rep
  rw [if_neg (by omega)]
  omega

/-- **The sum of two totals is the sum of their sums.** -/
theorem rep_add (m n : ℕ) : rep (rep m + rep n) = rep (m + n) := by
  unfold rep
  split_ifs <;> omega

/-- `s` is the ones' complement sum of the words: `0` if they are all `0`, otherwise the number in
`1 .. 0xFFFF` with the residue of their total. -/
structure IsSum (ws : List ℕ) (s : ℕ) : Prop where
  zero : (∀ w ∈ ws, w = 0) → s = 0
  residue : (∃ w ∈ ws, w ≠ 0) → 1 ≤ s ∧ s ≤ 0xFFFF ∧ s % 0xFFFF = ws.sum % 0xFFFF

theorem isSum_rep (ws : List ℕ) : IsSum ws (rep ws.sum) := by
  constructor
  · intro hzero
    have hsum : ws.sum = 0 := List.sum_eq_zero hzero
    rw [hsum]
    rfl
  · rintro ⟨w, hw, hne⟩
    have hle : w ≤ ws.sum := List.single_le_sum (fun _ _ => Nat.zero_le _) w hw
    have hr := rep_le ws.sum
    unfold rep at *
    rw [if_neg (by omega)] at *
    refine ⟨by omega, hr, by omega⟩

/-! ## Words of a byte string -/

/-- The big-endian 16-bit words of a byte string, an odd one padded with a zero byte. -/
def words : List (BitVec 8) → List ℕ
  | a :: b :: rest => (a.toNat * 256 + b.toNat) :: words rest
  | [a] => [a.toNat * 256]
  | [] => []

/-- The ones' complement sum of a byte string. -/
def sum (bs : List (BitVec 8)) : ℕ := rep (words bs).sum

theorem words_le (bs : List (BitVec 8)) : ∀ w ∈ words bs, w ≤ 0xFFFF := by
  induction bs using words.induct with
  | case1 a b rest ih =>
    intro w hw
    rcases List.mem_cons.1 hw with rfl | hw
    · have := a.isLt; have := b.isLt; omega
    · exact ih w hw
  | case2 a => intro w hw; simp only [words, List.mem_singleton] at hw; have := a.isLt; omega
  | case3 => intro w hw; cases hw

/-- After a string of even length the words start afresh. -/
theorem words_append {as : List (BitVec 8)} (bs : List (BitVec 8)) (h : Even as.length) :
    words (as ++ bs) = words as ++ words bs := by
  induction as using words.induct with
  | case1 a b rest ih =>
    have hr : Even rest.length := by
      simp only [List.length_cons] at h
      obtain ⟨k, hk⟩ := h
      exact ⟨k - 1, by omega⟩
    simp only [List.cons_append, words]
    rw [ih hr]
  | case2 a => simp at h
  | case3 => rfl

/-- An odd string has the words of the string padded with a zero byte. -/
theorem words_padded {bs : List (BitVec 8)} (h : Odd bs.length) : words (bs ++ [0]) = words bs := by
  induction bs using words.induct with
  | case1 a b rest ih =>
    have hr : Odd rest.length := by
      simp only [List.length_cons] at h
      obtain ⟨k, hk⟩ := h
      exact ⟨k - 1, by omega⟩
    simp only [List.cons_append, words]
    rw [ih hr]
  | case2 a => simp [words]
  | case3 => simp at h

/-- The total of a string with a word in the middle, at an even offset. -/
theorem words_sum_middle {pre post : List (BitVec 8)} {a b : BitVec 8} (h : Even pre.length) :
    (words (pre ++ a :: b :: post)).sum =
      (words (pre ++ 0 :: 0 :: post)).sum + (a.toNat * 256 + b.toNat) := by
  rw [words_append _ h, words_append _ h]
  simp only [words, List.sum_append, List.sum_cons]
  simp
  omega

/-- **A checksum in place verifies.** -/
theorem sum_checksum {pre post : List (BitVec 8)} {a b : BitVec 8} (h : Even pre.length)
    (hc : a.toNat * 256 + b.toNat = 0xFFFF - sum (pre ++ 0 :: 0 :: post)) :
    sum (pre ++ a :: b :: post) = 0xFFFF := by
  unfold sum at *
  rw [words_sum_middle h, hc]
  exact rep_complement _

/-- **A word that verifies is the checksum, or the other zero.** -/
theorem checksum_unique {pre post : List (BitVec 8)} {a b : BitVec 8} (h : Even pre.length)
    (hpos : 0 < (words (pre ++ 0 :: 0 :: post)).sum) (hv : sum (pre ++ a :: b :: post) = 0xFFFF) :
    a.toNat * 256 + b.toNat = 0xFFFF - sum (pre ++ 0 :: 0 :: post) ∨
      (a.toNat * 256 + b.toNat = 0xFFFF ∧ sum (pre ++ 0 :: 0 :: post) = 0xFFFF) := by
  unfold sum at *
  rw [words_sum_middle h] at hv
  exact complement_unique hpos (by have := a.isLt; have := b.isLt; omega) hv

end OnesComplement
