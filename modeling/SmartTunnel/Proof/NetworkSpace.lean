import SmartTunnel.Base.Sweep
import SmartTunnel.Model.NetworkSpace

/-!
# The networks of `NetworkSpace` are marked blocks

The addresses of a network are those of a dyadic block (`getFirstAddress_eq`, `getLastAddress_eq`), and whether it
is included is its mark. For networks of one family `compareTo`, `equals` and `split` are what their names say of
the blocks.
-/

namespace SmartTunnel

open Jvm Dyadic

namespace NetworkSpace

theorem testBit_clearBit (n i j : ℕ) : (clearBit n i).testBit j = (n.testBit j && decide (i ≠ j)) := by
  unfold clearBit
  rw [Nat.testBit_xor, Nat.testBit_and, Nat.testBit_two_pow]
  by_cases h : i = j <;> simp [h]

theorem testBit_setBit (n i j : ℕ) : (setBit n i).testBit j = (n.testBit j || decide (i = j)) := by
  unfold setBit
  rw [Nat.testBit_or, Nat.testBit_two_pow]

/-- To clear the low bits is to go to the start of the block. -/
theorem foldl_clearBit (n k : ℕ) : (List.range k).foldl clearBit n = (Block.around k n).first := by
  apply Nat.eq_of_testBit_eq
  intro j
  have hbits : ((List.range k).foldl clearBit n).testBit j = (n.testBit j && decide (k ≤ j)) := by
    induction k with
    | zero => simp
    | succ k ih =>
      rw [List.range_succ, List.foldl_append, List.foldl_cons, List.foldl_nil, testBit_clearBit, ih, Bool.and_assoc,
        ← Bool.decide_and]
      congr 2
      rw [eq_iff_iff]
      omega
  rw [hbits]
  unfold Block.first Block.around
  rw [Nat.testBit_mul_two_pow, Nat.testBit_div_two_pow]
  by_cases h : k ≤ j
  · simp [h]
  · simp [h]

/-- To set the low bits is to go to its end. -/
theorem foldl_setBit (n k : ℕ) : (List.range k).foldl setBit n = (Block.around k n).last := by
  apply Nat.eq_of_testBit_eq
  intro j
  have hbits : ((List.range k).foldl setBit n).testBit j = (n.testBit j || decide (j < k)) := by
    induction k with
    | zero => simp
    | succ k ih =>
      rw [List.range_succ, List.foldl_append, List.foldl_cons, List.foldl_nil, testBit_setBit, ih, Bool.or_assoc,
        ← Bool.decide_or]
      congr 2
      rw [eq_iff_iff]
      omega
  rw [hbits]
  change _ = (n / 2 ^ k * 2 ^ k + 2 ^ k - 1).testBit j
  have hpos : 0 < 2 ^ k := by positivity
  rw [Nat.add_sub_assoc hpos, Nat.mul_comm, Nat.testBit_two_pow_mul_add _ (by omega), Nat.testBit_two_pow_sub_one]
  by_cases h : j < k
  · simp [h]
  · rw [if_neg h, Nat.testBit_div_two_pow, Nat.sub_add_cancel (by omega)]
    simp [h]

namespace IpAddress

/-- The bits of an address. -/
def width (v4 : Bool) : ℕ := if v4 then 32 else 128

/-- The addresses of a network. -/
def block (net : IpAddress) : Block := Block.around net.numBits net.netAddress

/-- A network as the routes see it. -/
def marked (net : IpAddress) : Marked Bool := ⟨net.block, net.included⟩

/-- A network of the family, with a prefix that fits. -/
structure OfFamily (v4 : Bool) (net : IpAddress) : Prop where
  isV4 : net.isV4 = v4
  mask_le : net.networkMask ≤ width v4

instance (v4 : Bool) (net : IpAddress) : Decidable (net.OfFamily v4) :=
  decidable_of_iff (_ ∧ _) ⟨fun h => ⟨h.1, h.2⟩, fun h => ⟨h.1, h.2⟩⟩

variable {v4 : Bool} {net another : IpAddress}

theorem getFirstAddress_eq (net : IpAddress) : net.getFirstAddress = net.block.first := foldl_clearBit _ _

theorem getLastAddress_eq (net : IpAddress) : net.getLastAddress = net.block.last := foldl_setBit _ _

theorem OfFamily.order_eq (h : net.OfFamily v4) : net.block.order = width v4 - net.networkMask := by
  rw [← h.isV4]
  unfold block Block.around numBits width
  split <;> rfl

/-- A longer mask is a smaller order. -/
theorem OfFamily.mask_lt_iff (h : net.OfFamily v4) (h' : another.OfFamily v4) :
    net.networkMask < another.networkMask ↔ another.block.order < net.block.order := by
  rw [h.order_eq, h'.order_eq]
  have h1 := h.mask_le
  have h2 := h'.mask_le
  omega

theorem OfFamily.mask_eq_iff (h : net.OfFamily v4) (h' : another.OfFamily v4) :
    net.networkMask = another.networkMask ↔ net.block.order = another.block.order := by
  rw [h.order_eq, h'.order_eq]
  have h1 := h.mask_le
  have h2 := h'.mask_le
  omega

theorem block_eq_iff : net.block = another.block ↔
    net.block.order = another.block.order ∧ net.block.first = another.block.first := by
  constructor
  · rintro h
    rw [h]
    exact ⟨rfl, rfl⟩
  · rintro ⟨horder, hfirst⟩
    exact Block.eq_of_mem net.block.first_mem (hfirst ▸ another.block.first_mem) horder

theorem equals_iff (h : net.OfFamily v4) (h' : another.OfFamily v4) :
    net.equals another = true ↔ net.block = another.block := by
  unfold equals
  rw [Bool.and_eq_true, beq_iff_eq, beq_iff_eq, h.mask_eq_iff h', getFirstAddress_eq, getFirstAddress_eq, block_eq_iff,
    eq_comm (a := another.block.first)]

/-- `compareTo` orders the blocks on the line. -/
theorem compareTo_ne_gt_iff (h : net.OfFamily v4) (h' : another.OfFamily v4) :
    compareTo net another ≠ .gt ↔ net.block.precedes another.block := by
  have hlt := h'.mask_lt_iff h
  have heq := h'.mask_eq_iff h
  unfold compareTo Block.precedes
  rw [getFirstAddress_eq, getFirstAddress_eq]
  split_ifs <;> simp <;> omega

theorem compareTo_trans (a b c : IpAddress) (hab : compareTo a b ≠ .gt) (hbc : compareTo b c ≠ .gt) : compareTo a c ≠ .gt := by
  unfold compareTo at *
  split_ifs at * <;> first | omega | simp_all

theorem compareTo_total (a b : IpAddress) : compareTo a b ≠ .gt ∨ compareTo b a ≠ .gt := by
  unfold compareTo
  split_ifs <;> first | omega | simp

theorem compareTo_eq (h : net.OfFamily v4) (h' : another.OfFamily v4) (hblock : net.block = another.block) :
    compareTo net another = .eq := by
  have hmask := (h.mask_eq_iff h').2 (congrArg Block.order hblock)
  unfold compareTo
  rw [getFirstAddress_eq, getFirstAddress_eq, hblock, hmask]
  simp

instance : Std.TransCmp compareTo where
  eq_swap {a b} := by
    unfold compareTo
    split_ifs <;> first | rfl | omega
  isLE_trans {a b c} hab hbc := by
    have h := compareTo_trans a b c (by intro heq; simp [heq] at hab) (by intro heq; simp [heq] at hbc)
    revert h
    cases compareTo a c <;> simp

theorem compareTo_gt (h : another.block.last < net.block.first) : compareTo net another = .gt := by
  have := another.block.first_le_last
  unfold compareTo
  rw [getFirstAddress_eq, getFirstAddress_eq, if_neg (by omega), if_pos (by omega)]

/-- The halves of a network that is not a single address. -/
theorem OfFamily.split_eq (h : net.OfFamily v4) (hpos : 0 < net.block.order) (debug : Bool) :
    ∃ lower upper, net.split debug = .ok (lower, upper) ∧ lower.OfFamily v4 ∧ upper.OfFamily v4 ∧
      lower.marked = net.marked.lowerOf ∧ upper.marked = net.marked.upperOf := by
  have horder := h.order_eq
  have hbits : ∀ a, (IpAddress.mk a (net.networkMask + 1) net.included net.isV4).OfFamily v4 := by
    intro a
    have := h.mask_le
    exact ⟨h.isV4, by simp only; omega⟩
  have hblock : ∀ a, (IpAddress.mk a (net.networkMask + 1) net.included net.isV4).block =
      Block.around (net.block.order - 1) a := by
    intro a
    have hk : (IpAddress.mk a (net.networkMask + 1) net.included net.isV4).numBits = net.block.order - 1 := by
      rw [horder, Nat.sub_sub]
      exact (hbits a).order_eq
    rw [block, hk]
  have hmem : ∀ {b : Block} {a : ℕ}, b.order = net.block.order - 1 → a ∈ b → Block.around (net.block.order - 1) a = b :=
    fun hb ha => Block.eq_of_mem (Block.around_mem _ _) ha hb.symm
  have hlower : (IpAddress.mk net.getFirstAddress (net.networkMask + 1) net.included net.isV4).block =
      net.block.lower := by
    rw [hblock, getFirstAddress_eq, ← Block.lower_first hpos]
    exact hmem rfl (Block.first_mem _)
  have hupper : (IpAddress.mk (net.block.lower.last + 1) (net.networkMask + 1) net.included net.isV4).block =
      net.block.upper := by
    rw [hblock, ← Block.upper_first]
    exact hmem rfl (Block.first_mem _)
  refine ⟨_, _, ?_, hbits net.getFirstAddress, hbits (net.block.lower.last + 1), ?_, ?_⟩
  · unfold split
    simp only [getLastAddress_eq, hlower, hupper, Block.upper_last hpos]
    simp [assertTrue, bind, Except.bind, pure, Except.pure]
  · simp only [marked, hlower, Marked.lowerOf]
  · simp only [marked, hupper, Marked.upperOf]

end IpAddress

end NetworkSpace

end SmartTunnel
