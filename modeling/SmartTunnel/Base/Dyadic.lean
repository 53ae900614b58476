import Mathlib

/-!
# Dyadic blocks

A block of order `k` is one of the intervals of length `2 ^ k` that start at a multiple of `2 ^ k`. Two blocks
with a common point are nested (`le_total_of_mem`), and a block that lies strictly inside another lies inside one
of its halves, which is to say that its parent still lies in the other (`lt_iff_parent_le`). `precedes` orders
blocks by their first point, and of those with one first point the smaller before the larger.
-/

namespace Dyadic

structure Block where
  order : ℕ
  index : ℕ
  deriving DecidableEq, Repr

namespace Block

def first (b : Block) : ℕ := b.index * 2 ^ b.order

def last (b : Block) : ℕ := b.first + 2 ^ b.order - 1

/-- The block of order `k` around a point. -/
def around (k a : ℕ) : Block := ⟨k, a / 2 ^ k⟩

instance : Membership ℕ Block := ⟨fun b a => a / 2 ^ b.order = b.index⟩

instance (a : ℕ) (b : Block) : Decidable (a ∈ b) := inferInstanceAs (Decidable (_ = _))

def parent (b : Block) : Block := ⟨b.order + 1, b.index / 2⟩

/-- The lower half. -/
def lower (b : Block) : Block := ⟨b.order - 1, 2 * b.index⟩

/-- The upper half. -/
def upper (b : Block) : Block := ⟨b.order - 1, 2 * b.index + 1⟩

variable {a : ℕ} {b c d : Block}

theorem mem_def : a ∈ b ↔ a / 2 ^ b.order = b.index := Iff.rfl

/-- The points of a block are those from its first to its last. -/
theorem mem_iff : a ∈ b ↔ b.first ≤ a ∧ a ≤ b.last := by
  have hpos : 0 < 2 ^ b.order := by positivity
  rw [mem_def, Nat.div_eq_iff hpos, last, first]

theorem first_le_last (b : Block) : b.first ≤ b.last := by
  have hpos : 0 < 2 ^ b.order := by positivity
  unfold last
  omega

theorem first_mem (b : Block) : b.first ∈ b := mem_iff.2 ⟨le_rfl, b.first_le_last⟩

theorem last_mem (b : Block) : b.last ∈ b := mem_iff.2 ⟨b.first_le_last, le_rfl⟩

/-! ## Inclusion -/

/-- Inclusion, on the indices. -/
instance : LE Block := ⟨fun b c => b.order ≤ c.order ∧ b.index / 2 ^ (c.order - b.order) = c.index⟩

instance (b c : Block) : Decidable (b ≤ c) := inferInstanceAs (Decidable (_ ∧ _))

theorem le_def : b ≤ c ↔ b.order ≤ c.order ∧ b.index / 2 ^ (c.order - b.order) = c.index := Iff.rfl

theorem order_le (h : b ≤ c) : b.order ≤ c.order := h.1

theorem pow_split (h : b.order ≤ c.order) : 2 ^ c.order = 2 ^ b.order * 2 ^ (c.order - b.order) := by
  rw [← pow_add]
  congr 1
  omega

/-- A point of the smaller of two blocks decides whether it lies inside the larger. -/
theorem le_iff_of_mem (ha : a ∈ b) : b ≤ c ↔ b.order ≤ c.order ∧ a ∈ c := by
  rw [le_def]
  apply and_congr_right
  intro horder
  rw [mem_def, pow_split horder, ← Nat.div_div_eq_div_mul, mem_def.1 ha]

theorem mem_of_le (h : b ≤ c) (ha : a ∈ b) : a ∈ c := ((le_iff_of_mem ha).1 h).2

theorem le_of_mem (hb : a ∈ b) (hc : a ∈ c) (horder : b.order ≤ c.order) : b ≤ c := (le_iff_of_mem hb).2 ⟨horder, hc⟩

instance : PartialOrder Block where
  le_refl b := (le_iff_of_mem b.first_mem).2 ⟨le_rfl, b.first_mem⟩
  le_trans b c d hbc hcd :=
    le_of_mem b.first_mem (mem_of_le hcd (mem_of_le hbc b.first_mem)) (hbc.1.trans hcd.1)
  le_antisymm b c hbc hcb := by
    have horder : b.order = c.order := le_antisymm hbc.1 hcb.1
    have hindex : b.index = c.index := by
      rw [← mem_def.1 b.first_mem, ← mem_def.1 (mem_of_le hbc b.first_mem), horder]
    cases b
    cases c
    simp_all

instance (b c : Block) : Decidable (b < c) := decidable_of_iff _ lt_iff_le_not_ge.symm

/-- **Blocks with a common point are nested.** -/
theorem le_total_of_mem (hb : a ∈ b) (hc : a ∈ c) : b ≤ c ∨ c ≤ b := by
  rcases Nat.le_total b.order c.order with h | h
  · exact .inl (le_of_mem hb hc h)
  · exact .inr (le_of_mem hc hb h)

/-- Blocks of one order with a common point are one block. -/
theorem eq_of_mem (hb : a ∈ b) (hc : a ∈ c) (horder : b.order = c.order) : b = c :=
  le_antisymm (le_of_mem hb hc horder.le) (le_of_mem hc hb horder.ge)

theorem eq_of_le (h : b ≤ c) (horder : c.order ≤ b.order) : b = c :=
  eq_of_mem b.first_mem (mem_of_le h b.first_mem) (le_antisymm h.1 horder)

theorem lt_iff_order : b < c ↔ b ≤ c ∧ b.order < c.order := by
  rw [lt_iff_le_and_ne]
  apply and_congr_right
  intro h
  constructor
  · intro hne
    exact lt_of_le_of_ne h.1 fun horder => hne (eq_of_le h horder.ge)
  · rintro horder rfl
    exact lt_irrefl _ horder

theorem first_le (h : b ≤ c) : c.first ≤ b.first := (mem_iff.1 (mem_of_le h b.first_mem)).1

theorem last_le (h : b ≤ c) : b.last ≤ c.last := (mem_iff.1 (mem_of_le h b.last_mem)).2

/-- Nested blocks with one first and one last point are one block. -/
theorem eq_of_le_of_last (h : b ≤ c) (hfirst : b.first = c.first) (hlast : b.last = c.last) : b = c := by
  have hb : 0 < 2 ^ b.order := by positivity
  have hc : 0 < 2 ^ c.order := by positivity
  have hpow : 2 ^ c.order = 2 ^ b.order := by
    unfold last at hlast
    omega
  exact eq_of_le h (Nat.pow_right_injective le_rfl hpow).le

theorem around_mem (k a : ℕ) : a ∈ around k a := rfl

/-! ## Halves -/

theorem le_parent (b : Block) : b ≤ b.parent := ⟨Nat.le_succ _, by simp [parent]⟩

/-- **What contains a block strictly contains its parent.** -/
theorem lt_iff_parent_le : b < c ↔ b.parent ≤ c := by
  constructor
  · intro h
    rw [lt_iff_order] at h
    exact le_of_mem (mem_of_le b.le_parent b.first_mem) (mem_of_le h.1 b.first_mem) h.2
  · intro h
    rw [lt_iff_order]
    exact ⟨b.le_parent.trans h, h.1⟩

theorem parent_lower (h : 0 < b.order) : b.lower.parent = b := by
  cases b
  simp only [lower, parent, mk.injEq] at h ⊢
  omega

theorem parent_upper (h : 0 < b.order) : b.upper.parent = b := by
  cases b
  simp only [upper, parent, mk.injEq] at h ⊢
  omega

theorem lower_lt (h : 0 < b.order) : b.lower < b := lt_iff_parent_le.2 (parent_lower h).le

theorem upper_lt (h : 0 < b.order) : b.upper < b := lt_iff_parent_le.2 (parent_upper h).le

theorem lower_first (h : 0 < b.order) : b.lower.first = b.first := by
  unfold first lower
  obtain ⟨k, hk⟩ : ∃ k, b.order = k + 1 := ⟨b.order - 1, by omega⟩
  rw [hk, Nat.add_sub_cancel, pow_succ]
  ring

theorem upper_first (b : Block) : b.upper.first = b.lower.last + 1 := by
  have hpos : 0 < 2 ^ (b.order - 1) := by positivity
  unfold last first lower upper
  simp only
  rw [Nat.sub_add_cancel (by omega), Nat.add_mul]
  omega

theorem upper_last (h : 0 < b.order) : b.upper.last = b.last := by
  unfold last first upper
  obtain ⟨k, hk⟩ : ∃ k, b.order = k + 1 := ⟨b.order - 1, by omega⟩
  simp only [hk, Nat.add_sub_cancel, pow_succ, Nat.add_mul]
  ring_nf

theorem first_lt_upper_first (h : 0 < b.order) : b.first < b.upper.first := by
  rw [upper_first, ← lower_first h]
  exact Nat.lt_succ_of_le b.lower.first_le_last

/-- **A point of a block lies in one of its halves.** -/
theorem mem_lower_or_upper (h : 0 < b.order) (ha : a ∈ b) : a ∈ b.lower ∨ a ∈ b.upper := by
  rw [mem_iff] at ha
  rw [mem_iff, mem_iff, lower_first h, upper_last h, upper_first]
  omega

/-- A block strictly inside another lies in one of the halves. -/
theorem le_lower_or_upper (h : b < c) : b ≤ c.lower ∨ b ≤ c.upper := by
  obtain ⟨hle, horder⟩ := lt_iff_order.1 h
  have hpos : 0 < c.order := by omega
  rcases mem_lower_or_upper hpos (mem_of_le hle b.first_mem) with hmem | hmem
  · exact .inl (le_of_mem b.first_mem hmem (Nat.le_sub_one_of_lt horder))
  · exact .inr (le_of_mem b.first_mem hmem (Nat.le_sub_one_of_lt horder))

/-! ## The order of the blocks on the line -/

/-- Blocks come by their first point, and the smaller of those with one first point come first. -/
def precedes (b c : Block) : Prop := b.first < c.first ∨ b.first = c.first ∧ b.order ≤ c.order

instance (b c : Block) : Decidable (b.precedes c) := inferInstanceAs (Decidable (_ ∨ _))

theorem precedes.first_le (h : b.precedes c) : b.first ≤ c.first := by
  rcases h with h | h
  · exact h.le
  · exact h.1.le

theorem precedes.trans (hbc : b.precedes c) (hcd : c.precedes d) : b.precedes d := by
  unfold precedes at *
  omega

/-- Of two blocks with one first point the one that comes first lies inside the other. -/
theorem precedes.le_of_first_eq (h : b.precedes c) (hfirst : b.first = c.first) : b ≤ c := by
  have horder : b.order ≤ c.order := by
    rcases h with h | h
    · omega
    · exact h.2
  exact le_of_mem b.first_mem (hfirst ▸ c.first_mem) horder

/-- A block that starts inside one before it, and behind its first point, lies strictly inside it. -/
theorem lt_of_first_lt (hfirst : b.first < c.first) (hlast : c.first ≤ b.last) : c < b := by
  have hmem : c.first ∈ b := mem_iff.2 ⟨hfirst.le, hlast⟩
  rcases le_total_of_mem c.first_mem hmem with h | h
  · refine lt_of_le_of_ne h ?_
    rintro rfl
    exact lt_irrefl _ hfirst
  · exact absurd (Block.first_le h) (not_le.2 hfirst)

end Block

end Dyadic
