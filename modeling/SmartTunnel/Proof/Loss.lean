import SmartTunnel.Proof.Download
import SmartTunnel.Proof.OptionCodec

/-!
# The segments that a SACK finds lost

`findLossPacket` walks over the outstanding segments with the number of the next lost one, and goes on
to the next gap only when a gap is a single segment. Its blocks come from
`getSelectiveAcknowledgmentIntValues`, whose array ends with as many nulls as there are blocks
(`getSelectiveAcknowledgmentIntValues_blocks`): behind the last block the walk looks at a null, which
raises at a segment that starts there. `findLossPacket_eq_lost_iff` says when the lost segments come out.
-/

namespace SmartTunnel

open Jvm Serial ByteUtil

namespace TCPOption

/-- The value of a SACK option. -/
def blocks (sacks : List SACK) : Bytes :=
  sacks.flatMap fun sack => getByteFromInt sack.leftEdge 4 ++ getByteFromInt sack.rightEdge 4

/-- The array of the blocks; the second half is null. -/
def slots (sacks : List SACK) : List (Option SACK) := sacks.map some ++ List.replicate sacks.length none

variable {sacks : List SACK} {sack : SACK}

@[simp] theorem blocks_cons : blocks (sack :: sacks) =
    getByteFromInt sack.leftEdge 4 ++ (getByteFromInt sack.rightEdge 4 ++ blocks sacks) := by
  simp [blocks]

@[simp] theorem length_blocks (sacks : List SACK) : (blocks sacks).length = 8 * sacks.length := by
  induction sacks with
  | nil => rfl
  | cons sack sacks ih =>
    rw [blocks_cons]
    simp only [List.length_append, getByteFromInt_four_length, ih, List.length_cons]
    omega

theorem blocks_append (front sacks : List SACK) : blocks (front ++ sacks) = blocks front ++ blocks sacks := by
  simp [blocks]

/-- Four bytes between others. -/
theorem copyOfRange_four {pre four post : Bytes} {i : ℕ} (hi : i = pre.length) (hfour : four.length = 4) :
    copyOfRange (pre ++ (four ++ post)) i (i + 4) = .ok four := by
  subst hi
  have hslice := copyOfRange_slice (a := pre ++ (four ++ post)) (i := pre.length) (j := pre.length + 4) (by omega)
    (by simp only [List.length_append]; omega)
  rw [List.drop_left, List.take_left' (by omega)] at hslice
  exact_mod_cast hslice

/-- A round behind `front` reads the next block. -/
theorem readBlock_next (front : List SACK) (sack : SACK) (sacks : List SACK) (values : List (Option SACK))
    (hin : front.length < values.length) :
    readBlock (blocks (front ++ sack :: sacks)) values front.length =
      .ok (values.set front.length (some sack)) := by
  have hleft : copyOfRange (blocks (front ++ sack :: sacks)) (8 * front.length) (8 * front.length + 4) =
      .ok (getByteFromInt sack.leftEdge 4) := by
    rw [blocks_append, blocks_cons]
    exact copyOfRange_four (by simp) (by simp)
  have hright : copyOfRange (blocks (front ++ sack :: sacks)) (8 * front.length + 4) (8 * front.length + 8) =
      .ok (getByteFromInt sack.rightEdge 4) := by
    rw [blocks_append, blocks_cons, ← List.append_assoc]
    exact copyOfRange_four (by simp) (by simp)
  simp only [readBlock, hleft, hright, bind, Except.bind, getIntValue_getByteFromInt, if_pos hin, pure, Except.pure]

/-- Of `m` slots the rounds over `front` fill the first ones. -/
theorem foldlM_readBlock (front rest : List SACK) {m : ℕ} (hm : front.length ≤ m) :
    (List.range front.length).foldlM (readBlock (blocks (front ++ rest))) (List.replicate m none) =
      .ok (front.map some ++ List.replicate (m - front.length) none) := by
  induction front using List.reverseRecOn generalizing rest with
  | nil => rfl
  | append_singleton front sack ih =>
    rw [List.length_append, List.length_singleton] at hm ⊢
    have hround := readBlock_next front sack rest (front.map some ++ List.replicate (m - front.length) none)
      (by simp; omega)
    obtain ⟨k, rfl⟩ := Nat.exists_eq_add_of_le hm
    rw [show front.length + 1 + k - front.length = k + 1 by omega] at hround
    rw [List.append_assoc, List.singleton_append, List.range_succ, List.foldlM_append, ih (sack :: rest) (by omega),
      show front.length + 1 + k - front.length = k + 1 by omega]
    simp only [bind, Except.bind, List.foldlM_cons, List.foldlM_nil, hround, pure, Except.pure]
    simp [List.replicate_succ]

/-- **The array that an option makes of its blocks** has a null for each of them at its end. -/
theorem getSelectiveAcknowledgmentIntValues_blocks {op : TCPOption} (h : op.selectiveAcknowledgment = some (blocks sacks)) :
    op.getSelectiveAcknowledgmentIntValues = .ok (some (slots sacks)) := by
  have hread := foldlM_readBlock sacks [] (m := 2 * sacks.length) (by omega)
  rw [List.append_nil, show 2 * sacks.length - sacks.length = sacks.length by omega] at hread
  simp only [getSelectiveAcknowledgmentIntValues, h, length_blocks]
  rw [show (8 * sacks.length + 7) / 8 = sacks.length by omega, show 8 * sacks.length / 4 = 2 * sacks.length by omega,
    hread]
  rfl

end TCPOption

namespace TCPController

open TCPOption

/-- Segments that are not empty, one after the other, less than `2 ^ 32` bytes from `ack` on. -/
structure Outstanding (ack : BitVec 32) (ws : List (TCPPacketWrapper PacketV4)) : Prop where
  contiguous : ws.IsChain fun a b => a.nextSequenceNumber = b.sequenceNumber
  forward : ∀ w ∈ ws, distance ack w.sequenceNumber < distance ack w.nextSequenceNumber

/-- Blocks above `ack` that ascend with a gap before each, from the start of a segment to the end of one. -/
structure SackBlocks (ack : BitVec 32) (ws : List (TCPPacketWrapper PacketV4)) (sacks : List SACK) : Prop where
  nonempty : sacks ≠ []
  forward : ∀ b ∈ sacks, distance ack b.leftEdge < distance ack b.rightEdge
  above : ∀ b ∈ sacks, 0 < distance ack b.leftEdge
  apart : sacks.Pairwise fun a b => distance ack a.rightEdge < distance ack b.leftEdge
  starts : ∀ b ∈ sacks, ∃ w ∈ ws, w.sequenceNumber = b.leftEdge
  ends : ∀ b ∈ sacks, ∃ w ∈ ws, w.nextSequenceNumber = b.rightEdge

/-- A segment below the highest right edge that no block covers. -/
def Lost (ack : BitVec 32) (sacks : List SACK) (w : TCPPacketWrapper PacketV4) : Prop :=
  (∃ b ∈ sacks, distance ack w.nextSequenceNumber ≤ distance ack b.rightEdge) ∧
    ∀ b ∈ sacks, ¬ (distance ack b.leftEdge ≤ distance ack w.sequenceNumber ∧
      distance ack w.nextSequenceNumber ≤ distance ack b.rightEdge)

instance Lost.decidable (ack : BitVec 32) (sacks : List SACK) (w : TCPPacketWrapper PacketV4) :
    Decidable (Lost ack sacks w) := inferInstanceAs (Decidable (_ ∧ ∀ b ∈ sacks, _))

/-- Every gap from `t` on is one segment, which ends where the next block starts, and no segment
starts where the last block ends. -/
def OneEach (ws : List (TCPPacketWrapper PacketV4)) : BitVec 32 → List SACK → Prop
  | t, [] => ∀ w ∈ ws, w.sequenceNumber ≠ t
  | t, b :: bs => (∃ w ∈ ws, w.sequenceNumber = t ∧ w.nextSequenceNumber = b.leftEdge) ∧ OneEach ws b.rightEdge bs

instance OneEach.decidable (ws : List (TCPPacketWrapper PacketV4)) : (t : BitVec 32) → (sacks : List SACK) →
    Decidable (OneEach ws t sacks)
  | _, [] => inferInstanceAs (Decidable (∀ w ∈ ws, _))
  | _, b :: bs =>
    have := OneEach.decidable ws b.rightEdge bs
    inferInstanceAs (Decidable ((∃ w ∈ ws, _) ∧ OneEach ws b.rightEdge bs))

variable {ack t : BitVec 32} {ws : List (TCPPacketWrapper PacketV4)} {pwr w v : TCPPacketWrapper PacketV4}
  {sacks bs : List SACK} {b : SACK} {values : List (Option SACK)} {slot : Option SACK} {i : ℕ}

theorem distance_inj {x y : BitVec 32} (h : distance ack x = distance ack y) : x = y := by
  have := BitVec.eq_of_toNat_eq h
  simpa using this

namespace Outstanding

theorem tail (h : Outstanding ack (pwr :: ws)) : Outstanding ack ws :=
  ⟨h.contiguous.tail, fun w hw => h.forward w (List.mem_cons_of_mem _ hw)⟩

/-- What follows a segment starts at its end or later. -/
theorem after (h : Outstanding ack (pwr :: ws)) (hw : w ∈ ws) :
    distance ack pwr.nextSequenceNumber ≤ distance ack w.sequenceNumber := by
  induction ws generalizing pwr with
  | nil => cases hw
  | cons v ws ih =>
    have hnext := (List.isChain_cons_cons.1 h.contiguous).1
    rw [hnext]
    rcases List.mem_cons.1 hw with rfl | hw
    · exact le_rfl
    · exact (h.tail.forward v List.mem_cons_self).le.trans (ih h.tail hw)

/-- No segment starts inside another. -/
theorem no_start_inside (h : Outstanding ack ws) (hw : w ∈ ws) (hv : v ∈ ws)
    (hlt : distance ack w.sequenceNumber < distance ack v.sequenceNumber) :
    distance ack w.nextSequenceNumber ≤ distance ack v.sequenceNumber := by
  induction ws with
  | nil => cases hw
  | cons pwr ws ih =>
    have hfirst := h.forward pwr List.mem_cons_self
    rcases List.mem_cons.1 hw with rfl | hwt
    · rcases List.mem_cons.1 hv with rfl | hvt
      · exact absurd hlt (lt_irrefl _)
      · exact h.after hvt
    · rcases List.mem_cons.1 hv with rfl | hvt
      · have := h.after hwt
        omega
      · exact ih h.tail hwt hvt

/-- A segment that does not end last is followed by one. -/
theorem follower (h : Outstanding ack ws) (hw : w ∈ ws) (hv : v ∈ ws)
    (hle : distance ack w.nextSequenceNumber ≤ distance ack v.sequenceNumber) :
    ∃ u ∈ ws, u.sequenceNumber = w.nextSequenceNumber := by
  induction ws with
  | nil => cases hw
  | cons pwr ws ih =>
    rcases List.mem_cons.1 hw with rfl | hwt
    · cases ws with
      | nil =>
        obtain rfl := List.mem_singleton.1 hv
        have := h.forward v List.mem_cons_self
        omega
      | cons u ws =>
        exact ⟨u, List.mem_cons_of_mem _ List.mem_cons_self, (List.isChain_cons_cons.1 h.contiguous).1.symm⟩
    · rcases List.mem_cons.1 hv with rfl | hvt
      · have h1 := h.after hwt
        have h2 := h.forward v List.mem_cons_self
        have h3 := h.forward w hw
        omega
      · obtain ⟨u, hu, hseq⟩ := ih h.tail hwt hvt
        exact ⟨u, List.mem_cons_of_mem _ hu, hseq⟩

end Outstanding

/-- The walk has come to the segments `ws`, looks for the one at `t`, and the blocks from `b` on are ahead. -/
structure Walking (ack : BitVec 32) (sacks : List SACK) (ws : List (TCPPacketWrapper PacketV4)) (i : ℕ)
    (t : BitVec 32) (b : SACK) (bs : List SACK) : Prop where
  blocks : sacks.drop i = b :: bs
  outstanding : Outstanding ack ws
  target : ∃ w ∈ ws, w.sequenceNumber = t
  gap : distance ack t < distance ack b.leftEdge
  starts : ∀ d ∈ b :: bs, ∃ w ∈ ws, w.sequenceNumber = d.leftEdge
  ends : ∀ d ∈ b :: bs, ∃ w ∈ ws, w.nextSequenceNumber = d.rightEdge
  forward : ∀ d ∈ b :: bs, distance ack d.leftEdge < distance ack d.rightEdge
  apart : (b :: bs).Pairwise fun a b => distance ack a.rightEdge < distance ack b.leftEdge
  passed : ∀ d ∈ sacks, distance ack d.rightEdge ≤ distance ack t ∨ d ∈ b :: bs
  covered : ∀ w ∈ ws, distance ack w.sequenceNumber < distance ack t → ¬ Lost ack sacks w

namespace Walking

theorem gap_le (h : Walking ack sacks ws i t b bs) {d : SACK} (hd : d ∈ b :: bs) :
    distance ack b.leftEdge ≤ distance ack d.leftEdge := by
  rcases List.mem_cons.1 hd with rfl | hd
  · exact le_rfl
  · have h1 := (List.pairwise_cons.1 h.apart).1 d hd
    have h2 := h.forward b List.mem_cons_self
    omega

/-- The segments of the gap before `b` are lost. -/
theorem lost (h : Walking ack sacks ws i t b bs) (hw : w ∈ ws)
    (hseq : distance ack t ≤ distance ack w.sequenceNumber)
    (hnext : distance ack w.nextSequenceNumber ≤ distance ack b.leftEdge) : Lost ack sacks w := by
  have hb : b ∈ sacks := List.mem_of_mem_drop (h.blocks ▸ List.mem_cons_self)
  have hfw := h.outstanding.forward w hw
  have hbf := h.forward b List.mem_cons_self
  refine ⟨⟨b, hb, by omega⟩, fun d hd hcov => ?_⟩
  rcases h.passed d hd with hle | hahead
  · omega
  · have := h.gap_le hahead
    omega

/-- The first segment ends where the blocks ahead start, or before. -/
theorem first_next_le (h : Walking ack sacks (pwr :: ws) i t b bs)
    (hle : distance ack pwr.sequenceNumber ≤ distance ack t) :
    distance ack pwr.nextSequenceNumber ≤ distance ack b.leftEdge := by
  obtain ⟨w, hw, hseq⟩ := h.starts b List.mem_cons_self
  rw [← hseq]
  refine h.outstanding.no_start_inside List.mem_cons_self hw ?_
  rw [hseq]
  have := h.gap
  omega

theorem first_le (h : Walking ack sacks (pwr :: ws) i t b bs) :
    distance ack pwr.sequenceNumber ≤ distance ack t := by
  obtain ⟨w, hw, rfl⟩ := h.target
  rcases List.mem_cons.1 hw with rfl | hwt
  · exact le_rfl
  · have h1 := h.outstanding.after hwt
    have h2 := h.outstanding.forward pwr List.mem_cons_self
    omega

/-- The blocks ahead lie in the rest. -/
theorem starts_tail (h : Walking ack sacks (pwr :: ws) i t b bs) :
    ∀ d ∈ b :: bs, ∃ w ∈ ws, w.sequenceNumber = d.leftEdge := by
  intro d hd
  obtain ⟨w, hw, hseq⟩ := h.starts d hd
  rcases List.mem_cons.1 hw with rfl | hwt
  · have h1 := h.first_le
    have h2 := h.gap
    have h3 := h.gap_le hd
    rw [hseq] at h1
    omega
  · exact ⟨w, hwt, hseq⟩

theorem ends_tail (h : Walking ack sacks (pwr :: ws) i t b bs) :
    ∀ d ∈ b :: bs, ∃ w ∈ ws, w.nextSequenceNumber = d.rightEdge := by
  intro d hd
  obtain ⟨w, hw, hnext⟩ := h.ends d hd
  rcases List.mem_cons.1 hw with rfl | hwt
  · have h1 := h.first_next_le h.first_le
    have h2 := h.gap_le hd
    have h3 := h.forward d hd
    rw [hnext] at h1
    omega
  · exact ⟨w, hwt, hnext⟩

/-- Past a segment before the target. -/
theorem skip (h : Walking ack sacks (pwr :: ws) i t b bs) (hne : pwr.sequenceNumber ≠ t) :
    Walking ack sacks ws i t b bs := by
  refine ⟨h.blocks, h.outstanding.tail, ?_, h.gap, h.starts_tail, h.ends_tail, h.forward, h.apart, h.passed,
    fun w hw => h.covered w (List.mem_cons_of_mem _ hw)⟩
  obtain ⟨w, hw, hseq⟩ := h.target
  rcases List.mem_cons.1 hw with rfl | hwt
  · exact absurd hseq hne
  · exact ⟨w, hwt, hseq⟩

/-- Past a gap of one segment, to the end of the block behind it. -/
theorem next {b' : SACK} {bs' : List SACK} (h : Walking ack sacks (pwr :: ws) i t b (b' :: bs'))
    (hnext : pwr.nextSequenceNumber = b.leftEdge) : Walking ack sacks ws (i + 1) b.rightEdge b' bs' := by
  have hapart := List.pairwise_cons.1 h.apart
  have hbb : distance ack b.rightEdge < distance ack b'.leftEdge := hapart.1 b' List.mem_cons_self
  obtain ⟨e, he, hend⟩ := h.ends_tail b List.mem_cons_self
  obtain ⟨v, hv, hstart⟩ := h.starts_tail b' (List.mem_cons_of_mem _ List.mem_cons_self)
  -- a segment follows the block, since the next block is behind a gap
  obtain ⟨u, hu, hus⟩ := h.outstanding.tail.follower he hv (by rw [hend, hstart]; exact hbb.le)
  rw [hend] at hus
  refine ⟨?_, h.outstanding.tail, ⟨u, hu, hus⟩, hbb, fun d hd => h.starts_tail d (List.mem_cons_of_mem _ hd),
    fun d hd => h.ends_tail d (List.mem_cons_of_mem _ hd), fun d hd => h.forward d (List.mem_cons_of_mem _ hd),
    hapart.2, ?_, ?_⟩
  · rw [← List.tail_drop, h.blocks, List.tail_cons]
  · intro d hd
    rcases h.passed d hd with hle | hahead
    · have h1 := h.gap
      have h2 := h.forward b List.mem_cons_self
      exact .inl (by omega)
    · rcases List.mem_cons.1 hahead with rfl | hahead
      · exact .inl le_rfl
      · exact .inr hahead
  · -- what starts before the end of the block is covered by it
    intro w hw hlt hlost
    have hb : b ∈ sacks := List.mem_of_mem_drop (h.blocks ▸ List.mem_cons_self)
    refine hlost.2 b hb ⟨?_, ?_⟩
    · rw [← hnext]
      exact h.outstanding.after hw
    · rw [← hus] at hlt ⊢
      exact h.outstanding.tail.no_start_inside hw hu hlt

end Walking

/-- A segment at none of the numbers plays no part. -/
theorem oneEach_cons (ht : pwr.sequenceNumber ≠ t) (hb : ∀ d ∈ bs, pwr.sequenceNumber ≠ d.rightEdge) :
    OneEach (pwr :: ws) t bs ↔ OneEach ws t bs := by
  induction bs generalizing t with
  | nil => simp [OneEach, ht]
  | cons b bs ih =>
    rw [List.forall_mem_cons] at hb
    simp only [OneEach, ih hb.1 hb.2, List.mem_cons, exists_eq_or_imp, ht, false_and, false_or]

/-- A number at which no segment starts is never found. -/
theorem findLossPacket_none (hget : values[i]? = some slot) (h : ∀ w ∈ ws, w.sequenceNumber ≠ t) :
    findLossPacket values ws i t = .ok [] := by
  induction ws with
  | nil => rfl
  | cons pwr ws ih =>
    rw [List.forall_mem_cons] at h
    simp only [findLossPacket, hget, if_neg h.1]
    exact ih h.2

/-- At a null slot the walk raises at the first segment that starts at the number. -/
theorem findLossPacket_null (hget : values[i]? = some none) (h : ∃ w ∈ ws, w.sequenceNumber = t) :
    findLossPacket values ws i t = .error .nullPointer := by
  induction ws with
  | nil =>
    obtain ⟨w, hw, -⟩ := h
    cases hw
  | cons pwr ws ih =>
    by_cases hseq : pwr.sequenceNumber = t
    · simp [findLossPacket, hget, hseq, deref, bind, Except.bind]
    · simp only [findLossPacket, hget, if_neg hseq]
      simp only [List.mem_cons, exists_eq_or_imp, hseq, false_or] at h
      exact ih h

theorem findLossPacket_null_iff (hget : values[i]? = some none) :
    findLossPacket values ws i t = .ok [] ↔ ∀ w ∈ ws, w.sequenceNumber ≠ t := by
  refine ⟨fun hok => ?_, findLossPacket_none hget⟩
  by_contra hsome
  push Not at hsome
  rw [findLossPacket_null hget hsome] at hok
  cases hok

theorem slots_getElem? (h : sacks.drop i = b :: bs) : (slots sacks)[i]? = some (some b) := by
  have hget : sacks[i]? = some b := by rw [← List.head?_drop, h, List.head?_cons]
  have hi := (List.getElem?_eq_some_iff.1 hget).1
  rw [slots, List.getElem?_append_left (by simpa using hi), List.getElem?_map, hget, Option.map_some]

/-- Behind the last block there is a null. -/
theorem slots_behind (h : sacks.drop i = [b]) : (slots sacks)[i + 1]? = some none := by
  have hend := congrArg List.length h
  rw [List.length_drop, List.length_singleton] at hend
  rw [slots, List.getElem?_append_right (by simp; omega), List.length_map, List.getElem?_replicate, if_pos (by omega)]

namespace Walking

/-- What starts behind the gap at the end of the last block, or inside it, is not lost. -/
theorem behind_last (h : Walking ack sacks (pwr :: ws) i t b []) (hnext : pwr.nextSequenceNumber = b.leftEdge)
    (hseq : pwr.sequenceNumber = t) : ws.filter (fun w => Lost ack sacks w) = [] := by
  rw [List.filter_eq_nil_iff]
  intro w hw
  simp only [decide_eq_true_eq]
  rintro ⟨⟨d, hd, hbelow⟩, hcov⟩
  have hafter := h.outstanding.after hw
  have hforward := h.outstanding.tail.forward w hw
  have hfirst := h.outstanding.forward pwr List.mem_cons_self
  rw [hseq] at hfirst
  rcases h.passed d hd with hle | hahead
  · omega
  · obtain rfl := List.mem_singleton.1 hahead
    exact hcov d hd ⟨by rwa [← hnext], hbelow⟩

/-- A gap of two segments or more. -/
theorem second_lost (h : Walking ack sacks (pwr :: ws) i t b bs) (hseq : pwr.sequenceNumber = t)
    (hnext : pwr.nextSequenceNumber ≠ b.leftEdge) : ∃ u ∈ ws, Lost ack sacks u := by
  obtain ⟨s, hs, hstart⟩ := h.starts_tail b List.mem_cons_self
  have hle := h.first_next_le h.first_le
  obtain ⟨u, hu, hus⟩ := h.outstanding.follower List.mem_cons_self (List.mem_cons_of_mem _ hs) (by rw [hstart]; exact hle)
  have hforward := h.outstanding.forward pwr List.mem_cons_self
  have hut : u ∈ ws := by
    rcases List.mem_cons.1 hu with rfl | hut
    · rw [hus] at hforward
      exact absurd hforward (lt_irrefl _)
    · exact hut
  have hgap : distance ack u.sequenceNumber < distance ack s.sequenceNumber := by
    rw [hus, hstart]
    exact lt_of_le_of_ne hle fun heq => hnext (distance_inj heq)
  refine ⟨u, hut, h.lost hu ?_ ?_⟩
  · rw [hus, ← hseq]
    exact hforward.le
  · rw [← hstart]
    exact h.outstanding.no_start_inside hu (List.mem_cons_of_mem _ hs) hgap

/-- No segment of the rest starts where the first one does. -/
theorem ne_first (h : Walking ack sacks (pwr :: ws) i t b bs) (hw : w ∈ ws) : w.sequenceNumber ≠ pwr.sequenceNumber := by
  intro heq
  have h1 := h.outstanding.after hw
  have h2 := h.outstanding.forward pwr List.mem_cons_self
  rw [heq] at h1
  omega

/-- The first segment does not start where a block ahead ends. -/
theorem first_ne_right (h : Walking ack sacks (pwr :: ws) i t b bs) {d : SACK} (hd : d ∈ b :: bs) :
    pwr.sequenceNumber ≠ d.rightEdge := by
  intro heq
  have h1 := h.first_le
  have h2 := h.gap
  have h3 := h.gap_le hd
  have h4 := h.forward d hd
  rw [heq] at h1
  omega

/-- **From anywhere on the walk** what is lost comes out exactly when each gap ahead is one segment. -/
theorem eq_lost_iff (h : Walking ack sacks ws i t b bs) :
    findLossPacket (slots sacks) ws i t = .ok (ws.filter fun w => Lost ack sacks w) ↔ OneEach ws t (b :: bs) := by
  induction ws generalizing i t b bs with
  | nil =>
    obtain ⟨w, hw, -⟩ := h.target
    cases hw
  | cons pwr ws ih =>
    simp only [findLossPacket, slots_getElem? h.blocks]
    by_cases hseq : pwr.sequenceNumber = t
    · have hlost : Lost ack sacks pwr := h.lost List.mem_cons_self (by rw [hseq]) (h.first_next_le h.first_le)
      rw [if_pos hseq, List.filter_cons_of_pos (by simpa using hlost)]
      simp only [deref_some, bind, Except.bind]
      by_cases hnext : pwr.nextSequenceNumber = b.leftEdge
      · have hlength : ¬ (slots sacks).length < i + 1 := by
          have := (List.getElem?_eq_some_iff.1 (slots_getElem? h.blocks)).1
          omega
        have hfirst : ∃ w ∈ pwr :: ws, w.sequenceNumber = t ∧ w.nextSequenceNumber = b.leftEdge :=
          ⟨pwr, List.mem_cons_self, hseq, hnext⟩
        have hrest : findLossPacket (slots sacks) ws (i + 1) b.rightEdge = .ok (ws.filter fun w => Lost ack sacks w) ↔
            OneEach ws b.rightEdge bs := by
          cases bs with
          | nil =>
            rw [h.behind_last hnext hseq]
            exact findLossPacket_null_iff (slots_behind h.blocks)
          | cons b' bs' => exact ih (h.next hnext)
        rw [if_pos hnext, if_neg hlength]
        simp only [OneEach, hfirst, true_and]
        rw [oneEach_cons (h.first_ne_right List.mem_cons_self)
          fun d hd => h.first_ne_right (List.mem_cons_of_mem _ hd), ← hrest]
        cases findLossPacket (slots sacks) ws (i + 1) b.rightEdge <;> simp [pure, Except.pure]
      · -- the gap goes on, but the walk still looks for its first segment
        have hnone : findLossPacket (slots sacks) ws i t = .ok [] :=
          findLossPacket_none (slots_getElem? h.blocks) fun w hw => hseq ▸ h.ne_first hw
        obtain ⟨u, hu, hulost⟩ := h.second_lost hseq hnext
        have hin : u ∈ ws.filter fun w => Lost ack sacks w := List.mem_filter.2 ⟨hu, by simpa using hulost⟩
        rw [if_neg hnext, hnone]
        constructor
        · intro heq
          rw [← List.tail_eq_of_cons_eq (Except.ok.inj heq)] at hin
          cases hin
        · rintro ⟨⟨w, hw, hwt, hwnext⟩, -⟩
          rcases List.mem_cons.1 hw with rfl | hw
          · exact absurd hwnext hnext
          · exact absurd (hwt.trans hseq.symm) (h.ne_first hw)
    · have hlt : distance ack pwr.sequenceNumber < distance ack t :=
        lt_of_le_of_ne h.first_le fun heq => hseq (distance_inj heq)
      rw [if_neg hseq, List.filter_cons_of_neg (by simpa using h.covered pwr List.mem_cons_self hlt),
        oneEach_cons hseq fun d hd => h.first_ne_right hd]
      exact ih (h.skip hseq)

end Walking

/-- **When the lost segments are found.** For outstanding segments from `ack` on and an option with blocks
over them, `findLossPacket` returns the lost segments exactly when every gap before a block is one
segment and no segment starts where the last block ends. -/
theorem findLossPacket_eq_lost_iff (h : Outstanding ack ws)
    (hfirst : ws.head?.map TCPPacketWrapper.sequenceNumber = some ack) (hs : SackBlocks ack ws sacks)
    {op : TCPOption} (hop : op.selectiveAcknowledgment = some (blocks sacks)) :
    ∃ values, op.getSelectiveAcknowledgmentIntValues = .ok (some values) ∧
      (findLossPacket values ws 0 ack = .ok (ws.filter fun w => Lost ack sacks w) ↔ OneEach ws ack sacks) := by
  refine ⟨slots sacks, getSelectiveAcknowledgmentIntValues_blocks hop, ?_⟩
  obtain ⟨b, bs, rfl⟩ := List.exists_cons_of_ne_nil hs.nonempty
  have hzero : distance ack ack = 0 := by simp [distance]
  have hwalk : Walking ack (b :: bs) ws 0 ack b bs := by
    refine ⟨rfl, h, ?_, ?_, hs.starts, hs.ends, hs.forward, hs.apart, fun d hd => .inr hd, ?_⟩
    · obtain ⟨w, hw, hseq⟩ := Option.map_eq_some_iff.1 hfirst
      exact ⟨w, List.mem_of_mem_head? hw, hseq⟩
    · rw [hzero]
      exact hs.above b List.mem_cons_self
    · intro w _ hlt
      rw [hzero] at hlt
      exact absurd hlt (Nat.not_lt_zero _)
  exact hwalk.eq_lost_iff

/-- A connection that sent three segments of two bytes, at 5001, 5003 and 5005. -/
def sentThree : TCPController := Run.run step (accepting 1000 5000)
  [.connected, .client { sequenceNumber := 1001, acknowledgmentNumber := 5001, flag := TCPFlag.ACKOnly },
    .packetFromRemote [72, 84] false, .packetFromRemote [84, 80] false, .packetFromRemote [47, 49] true]

theorem sentThree_outstanding : Outstanding 5001 sentThree.mClientPackets :=
  ⟨by decide +kernel, by decide +kernel⟩

/-- The first segment is lost, and the block goes to the end. -/
theorem sentThree_blocks : SackBlocks 5001 sentThree.mClientPackets [⟨5003, 5007⟩] :=
  ⟨by decide, by decide, by decide, by decide, by decide +kernel, by decide +kernel⟩

/-- The first segment is lost, and the last one is outstanding behind the block. -/
theorem sentThree_middle : SackBlocks 5001 sentThree.mClientPackets [⟨5003, 5005⟩] :=
  ⟨by decide, by decide, by decide, by decide, by decide +kernel, by decide +kernel⟩

theorem sentThree_lost : ∃ values, ({ selectiveAcknowledgment := some (blocks [⟨5003, 5007⟩]) } :
    TCPOption).getSelectiveAcknowledgmentIntValues = .ok (some values) ∧
    findLossPacket values sentThree.mClientPackets 0 5001 =
      .ok (sentThree.mClientPackets.filter fun w => Lost 5001 [⟨5003, 5007⟩] w) := by
  have hop : ({ selectiveAcknowledgment := some (blocks [⟨5003, 5007⟩]) } : TCPOption).selectiveAcknowledgment =
      some (blocks [⟨5003, 5007⟩]) := rfl
  obtain ⟨values, hread, hiff⟩ :=
    findLossPacket_eq_lost_iff sentThree_outstanding (by decide +kernel) sentThree_blocks hop
  exact ⟨values, hread, hiff.2 (by decide +kernel)⟩

/-- **A segment behind the last block ends the walk with an exception.** -/
theorem loss_behind_block_raises : ¬ ∀ (ack : BitVec 32) (ws : List (TCPPacketWrapper PacketV4)) (sacks : List SACK)
    (op : TCPOption) (values : List (Option SACK)), Outstanding ack ws →
    ws.head?.map TCPPacketWrapper.sequenceNumber = some ack → SackBlocks ack ws sacks →
    op.selectiveAcknowledgment = some (blocks sacks) →
    op.getSelectiveAcknowledgmentIntValues = .ok (some values) →
    findLossPacket values ws 0 ack = .ok (ws.filter fun w => Lost ack sacks w) := by
  intro h
  have hop : ({ selectiveAcknowledgment := some (blocks [⟨5003, 5005⟩]) } : TCPOption).selectiveAcknowledgment =
      some (blocks [⟨5003, 5005⟩]) := rfl
  have hok := h 5001 _ _ _ _ sentThree_outstanding (by decide +kernel) sentThree_middle hop
    (getSelectiveAcknowledgmentIntValues_blocks hop)
  have hraise : findLossPacket (slots [⟨5003, 5005⟩]) sentThree.mClientPackets 0 5001 = .error .nullPointer := by
    decide +kernel
  rw [hraise] at hok
  cases hok

end TCPController

end SmartTunnel
