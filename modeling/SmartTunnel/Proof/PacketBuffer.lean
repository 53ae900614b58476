import SmartTunnel.Base.Run
import SmartTunnel.Model.PacketBuffer

/-!
# The packet buffer

The packets in a `ChunkBuffer2` lie one behind the other (`Chunks`), from the start of the first to the end of the
last, or to where the ring is cut and on from its start (`Layout`). What the input writes lies apart from them. So a
`PacketBuffer` is a queue (`buffer_run`): what the output is given is, in order, what the input put in, and the
buffer asks the input for the next packet unless it holds as many as it was made for.
-/

namespace SmartTunnel

open Jvm Memory

namespace ChunkBuffer2

variable {mem mem' : ℕ → Byte} {size mtu m pos mid stop n : ℕ} {p data : Bytes} {ps qs held : List Bytes}
  {buf : ChunkBuffer2}

theorem bdivideUp_eq (len : ℕ) : bdivideUp len BLOCK = (len + 3) / 4 := by
  unfold bdivideUp BLOCK
  split_ifs <;> omega

theorem toInt_eq {k : ℤ} (h0 : 0 ≤ k) (h : k ≤ INT_MAX) : toInt k = k := by
  unfold INT_MAX at h
  unfold toInt
  rw [BitVec.toInt_ofInt, Int.bmod_def]
  omega

theorem intOf_intBytes (h : n ≤ INT_MAX) : intOf (intBytes n) = n := by
  unfold INT_MAX at h
  have hsum : n % 2 ^ 8 + 2 ^ 8 * (n / 2 ^ 8 % 2 ^ 8 + 2 ^ 8 * (n / 2 ^ 16 % 2 ^ 8 + 2 ^ 8 * (n / 2 ^ 24 % 2 ^ 8 + 2 ^ 8 * 0))) =
      n := by omega
  unfold intOf intBytes
  simp only [List.foldr_cons, List.foldr_nil, BitVec.toNat_ofNat]
  rw [hsum, BitVec.toInt_eq_toNat_bmod, BitVec.toNat_ofNat, Int.bmod_def]
  omega

/-! ## Packets one behind the other -/

/-- The length in the block. -/
def headerAt (mem : ℕ → Byte) (i : ℕ) : ℤ := intOf (load mem (BLOCK * i) BLOCK)

/-- The packets, of at most `m` bytes, lie from a block to another one, each where there was room for the longest. -/
def Chunks (size mtu m : ℕ) (mem : ℕ → Byte) : ℕ → List Bytes → ℕ → Prop
  | pos, [], stop => pos = stop
  | pos, p :: ps, stop =>
    pos + 1 + mtu ≤ size ∧ p.length ≤ m ∧ headerAt mem pos = p.length ∧ load mem (BLOCK * (pos + 1)) p.length = p ∧
    Chunks size mtu m mem (pos + 1 + bdivideUp p.length BLOCK) ps stop

theorem Chunks.le (h : Chunks size mtu m mem pos ps stop) : pos ≤ stop := by
  induction ps generalizing pos with
  | nil => exact h.le
  | cons p ps ih =>
    have := ih h.2.2.2.2
    omega

/-- Only the blocks of the packets count. -/
theorem Chunks.congr (h : Chunks size mtu m mem pos ps stop)
    (hmem : ∀ i, BLOCK * pos ≤ i → i < BLOCK * stop → mem i = mem' i) : Chunks size mtu m mem' pos ps stop := by
  induction ps generalizing pos with
  | nil => exact h
  | cons p ps ih =>
    obtain ⟨hroom, hlen, hheader, hload, hrest⟩ := h
    have hle := hrest.le
    rw [bdivideUp_eq] at hle
    unfold BLOCK at *
    refine ⟨hroom, hlen, ?_, ?_, ih hrest fun i h1 h2 => hmem i ?_ h2⟩
    · rw [← hheader]
      refine congrArg intOf (load_congr fun i h1 h2 => (hmem i h1 ?_).symm)
      unfold BLOCK at h2
      omega
    · refine (load_congr fun i h1 h2 => (hmem i ?_ ?_).symm).trans hload <;> unfold BLOCK at * <;> omega
    · omega

theorem Chunks.concat (h : Chunks size mtu m mem pos ps mid) (hroom : mid + 1 + mtu ≤ size) (hlen : p.length ≤ m)
    (hheader : headerAt mem mid = p.length) (hload : load mem (BLOCK * (mid + 1)) p.length = p) :
    Chunks size mtu m mem pos (ps ++ [p]) (mid + 1 + bdivideUp p.length BLOCK) := by
  induction ps generalizing pos with
  | nil =>
    obtain rfl : pos = mid := h
    exact ⟨hroom, hlen, hheader, hload, rfl⟩
  | cons q ps ih =>
    obtain ⟨h1, h2, h3, h4, hrest⟩ := h
    exact ⟨h1, h2, h3, h4, ih hrest⟩

/-- The blocks that the packets take. -/
theorem Chunks.blocks_le (h : Chunks size mtu m mem pos ps stop) (hmtu : mtu = bdivideUp m BLOCK) :
    stop ≤ pos + ps.length * (1 + mtu) := by
  induction ps generalizing pos with
  | nil =>
    obtain rfl : pos = stop := h
    exact Nat.le_add_right _ _
  | cons p ps ih =>
    obtain ⟨-, hlen, -, -, hrest⟩ := h
    have hle := ih hrest
    rw [bdivideUp_eq] at hmtu
    rw [bdivideUp_eq] at hle
    rw [List.length_cons, Nat.succ_mul]
    omega

/-! ## The ring -/

/-- The packets do not go around the end of the ring, and there is room for one more behind them. -/
structure Straight (m : ℕ) (buf : ChunkBuffer2) (held : List Bytes) : Prop where
  wrap : buf.wrap = buf.size
  room : buf.start + buf.used + 1 + buf.mtu ≤ buf.size
  chunks : Chunks buf.size buf.mtu m buf.buffer buf.start held (buf.start + buf.used)

/-- The packets go on from the start of the ring, up to the block `stop`, and the ring is cut where there was no room
for one more. -/
structure Around (m : ℕ) (buf : ChunkBuffer2) (ps qs : List Bytes) (stop : ℕ) : Prop where
  wrap : buf.wrap ≤ buf.size
  narrow : buf.size < buf.wrap + 1 + buf.mtu
  used : buf.start + buf.used = buf.wrap + stop
  behind : stop ≤ buf.start
  ne_nil : ps ≠ []
  front : Chunks buf.size buf.mtu m buf.buffer buf.start ps buf.wrap
  back : Chunks buf.size buf.mtu m buf.buffer 0 qs stop

/-- Where the packets lie. -/
def Layout (m : ℕ) (buf : ChunkBuffer2) (held : List Bytes) : Prop :=
  Straight m buf held ∨ ∃ ps qs stop, held = ps ++ qs ∧ Around m buf ps qs stop

theorem Straight.not_wrapped (h : Straight m buf held) : ¬ buf.wrap - buf.start ≤ buf.used := by
  have h1 := h.wrap
  have h2 := h.room
  omega

theorem Straight.endBlock (h : Straight m buf held) : buf.endBlock = buf.start + buf.used := if_neg h.not_wrapped

theorem Straight.free (h : Straight m buf held) : buf.free = buf.size - (buf.start + buf.used : ℕ) := by
  unfold ChunkBuffer2.free
  rw [if_neg h.not_wrapped, h.endBlock]

theorem Around.start_lt (h : Around m buf ps qs stop) : buf.start < buf.wrap ∧ buf.start + 1 + buf.mtu ≤ buf.size := by
  have hfront := h.front
  rcases ps with _ | ⟨p, ps⟩
  · exact absurd rfl h.ne_nil
  · obtain ⟨hroom, -, -, -, hrest⟩ := hfront
    have := hrest.le
    omega

theorem Around.wrapped (h : Around m buf ps qs stop) : buf.wrap - buf.start ≤ buf.used := by
  have h1 := h.used
  have h2 := h.start_lt.1
  omega

theorem Around.endBlock (h : Around m buf ps qs stop) : buf.endBlock = stop := by
  have h1 := h.used
  have h2 := h.start_lt.1
  unfold ChunkBuffer2.endBlock
  rw [if_pos h.wrapped]
  omega

theorem Around.free (h : Around m buf ps qs stop) : buf.free = (buf.start : ℤ) - stop := by
  unfold ChunkBuffer2.free
  rw [if_pos h.wrapped, h.endBlock]

theorem Layout.assertsBuffer (h : Layout m buf held) : buf.AssertsBuffer := by
  rcases h with h | ⟨ps, qs, stop, -, h⟩
  · have h1 := h.wrap
    have h2 := h.room
    exact ⟨by omega, by omega, h1.le, by omega, by omega, .inl h1⟩
  · have h1 := h.wrap
    have h2 := h.used
    have h3 := h.behind
    have h4 := h.start_lt.1
    exact ⟨by omega, by omega, h1, h4, by omega, .inr h.wrapped⟩

/-- There is always room for a packet from the end to the end of the ring: the first branch of `update_input` is
never taken. -/
theorem Layout.room (h : Layout m buf held) : buf.endBlock + 1 + buf.mtu ≤ buf.size ∧ 0 ≤ buf.free ∧ buf.free ≤ buf.size := by
  rcases h with h | ⟨ps, qs, stop, -, h⟩
  · have h2 := h.room
    rw [h.endBlock, h.free]
    omega
  · have h1 := h.behind
    have h2 := h.start_lt
    rw [h.endBlock, h.free]
    omega

theorem Straight.store (h : Straight m buf held) {a : ℕ} (data : Bytes) (ha : BLOCK * buf.endBlock ≤ a) :
    Straight m { buf with buffer := Memory.store buf.buffer a data } held := by
  unfold BLOCK at ha
  rw [h.endBlock] at ha
  refine ⟨h.wrap, h.room, h.chunks.congr fun i h1 h2 => (store_apart (.inl ?_)).symm⟩
  unfold BLOCK at h2
  omega

theorem Around.store (h : Around m buf ps qs stop) (hroom : 1 + buf.mtu ≤ buf.free) {a : ℕ} (data : Bytes)
    (ha : BLOCK * buf.endBlock ≤ a) (hdata : a + data.length ≤ BLOCK * (buf.endBlock + 1 + buf.mtu)) :
    Around m { buf with buffer := Memory.store buf.buffer a data } ps qs stop := by
  unfold BLOCK at ha hdata
  rw [h.free] at hroom
  rw [h.endBlock] at ha hdata
  refine ⟨h.wrap, h.narrow, h.used, h.behind, h.ne_nil, h.front.congr fun i h1 h2 => (store_apart (.inr ?_)).symm,
    h.back.congr fun i h1 h2 => (store_apart (.inl ?_)).symm⟩
  · unfold BLOCK at h1
    omega
  · unfold BLOCK at h2
    omega

/-- **What is written to the free blocks does not matter** to the packets. -/
theorem Layout.store (h : Layout m buf held) (hroom : 1 + buf.mtu ≤ buf.free) {a : ℕ} (data : Bytes)
    (ha : BLOCK * buf.endBlock ≤ a) (hdata : a + data.length ≤ BLOCK * (buf.endBlock + 1 + buf.mtu)) :
    Layout m { buf with buffer := Memory.store buf.buffer a data } held := by
  rcases h with h | ⟨ps, qs, stop, hheld, h⟩
  · exact .inl (h.store data ha)
  · exact .inr ⟨ps, qs, stop, hheld, h.store hroom data ha hdata⟩

/-! ## A packet more -/

theorem append_header (buf : ChunkBuffer2) {len : ℕ} (hlen : len ≤ INT_MAX) :
    headerAt (buf.append len).buffer buf.endBlock = len :=
  (congrArg intOf (load_store buf.buffer (BLOCK * buf.endBlock) (intBytes len))).trans (intOf_intBytes hlen)

/-- The packet lies behind its length. -/
theorem append_load (buf : ChunkBuffer2) (len : ℕ) (hload : load buf.buffer (BLOCK * (buf.endBlock + 1)) data.length = data) :
    load (buf.append len).buffer (BLOCK * (buf.endBlock + 1)) data.length = data := by
  refine (load_store_apart (.inr ?_)).trans hload
  unfold BLOCK intBytes
  simp only [List.length_cons, List.length_nil]
  omega

theorem append_used (buf : ChunkBuffer2) (len : ℕ) : (buf.append len).used = buf.used + (1 + bdivideUp len BLOCK) := rfl

/-- Behind the last packet, or the ring is cut there. -/
theorem Straight.submit (h : Straight m buf held) (hm : m ≤ INT_MAX) (hlen : data.length ≤ m)
    (hload : load buf.buffer (BLOCK * (buf.endBlock + 1)) data.length = data)
    (hblocks : bdivideUp data.length BLOCK ≤ buf.mtu) :
    Layout m ((buf.append data.length).cut (buf.endBlock + 1 + bdivideUp data.length BLOCK)) (held ++ [data]) := by
  have hs : Straight m { buf with buffer := (buf.append data.length).buffer } held := h.store _ le_rfl
  have hheader := append_header buf (hlen.trans hm)
  have hload' := append_load buf data.length hload
  have hend := h.endBlock
  have hwrap := h.wrap
  have hroom := h.room
  have hused := append_used buf data.length
  rw [hend] at hheader hload'
  have hchunks := hs.chunks.concat hroom hlen hheader hload'
  have huse : (buf.append data.length).used ≤ buf.wrap - buf.start := by omega
  rw [hend]
  unfold cut
  split_ifs with hcut
  · refine .inr ⟨held ++ [data], [], 0, (List.append_nil _).symm, ?_, ?_, ?_, Nat.zero_le _, by simp, hchunks, rfl⟩
    · change buf.start + buf.used + 1 + bdivideUp data.length BLOCK ≤ buf.size
      omega
    · have hnarrow := hcut.2
      change (buf.size : ℤ) - (buf.start + buf.used + 1 + bdivideUp data.length BLOCK : ℕ) - 1 < buf.mtu at hnarrow
      change buf.size < buf.start + buf.used + 1 + bdivideUp data.length BLOCK + 1 + buf.mtu
      omega
    · change buf.start + (buf.append data.length).used = buf.start + buf.used + 1 + bdivideUp data.length BLOCK + 0
      omega
  · refine .inl ⟨hwrap, ?_, ?_⟩
    · have hwide := not_and.1 hcut huse
      change ¬ (buf.size : ℤ) - (buf.start + buf.used + 1 + bdivideUp data.length BLOCK : ℕ) - 1 < buf.mtu at hwide
      change buf.start + (buf.append data.length).used + 1 + buf.mtu ≤ buf.size
      omega
    · have heq : buf.start + (buf.append data.length).used = buf.start + buf.used + 1 + bdivideUp data.length BLOCK := by
        omega
      change Chunks buf.size buf.mtu m (buf.append data.length).buffer buf.start _ (buf.start + (buf.append data.length).used)
      rw [heq]
      exact hchunks

/-- Behind the packets at the start of the ring, which is cut already. -/
theorem Around.submit (h : Around m buf ps qs stop) (hm : m ≤ INT_MAX) (hroom : 1 + buf.mtu ≤ buf.free)
    (hlen : data.length ≤ m) (hload : load buf.buffer (BLOCK * (buf.endBlock + 1)) data.length = data)
    (hblocks : bdivideUp data.length BLOCK ≤ buf.mtu) :
    Around m ((buf.append data.length).cut (buf.endBlock + 1 + bdivideUp data.length BLOCK)) ps (qs ++ [data])
      (stop + 1 + bdivideUp data.length BLOCK) := by
  have hs : Around m { buf with buffer := (buf.append data.length).buffer } ps qs stop := by
    refine h.store hroom _ le_rfl ?_
    unfold BLOCK intBytes
    simp only [List.length_cons, List.length_nil]
    omega
  have hheader := append_header buf (hlen.trans hm)
  have hload' := append_load buf data.length hload
  have hend := h.endBlock
  have hbehind := h.behind
  have hstart := h.start_lt
  have huse := h.used
  have hused := append_used buf data.length
  rw [h.free] at hroom
  rw [hend] at hheader hload' ⊢
  have hback := hs.back.concat (by change stop + 1 + buf.mtu ≤ buf.size; omega) hlen hheader hload'
  have heq : (buf.append data.length).cut (stop + 1 + bdivideUp data.length BLOCK) = buf.append data.length := by
    refine if_neg ?_
    rintro ⟨hle, -⟩
    change (buf.append data.length).used ≤ buf.wrap - buf.start at hle
    omega
  rw [heq]
  refine ⟨h.wrap, h.narrow, ?_, ?_, h.ne_nil, hs.front, hback⟩
  · change buf.start + (buf.append data.length).used = buf.wrap + _
    omega
  · change stop + 1 + bdivideUp data.length BLOCK ≤ buf.start
    omega

/-- **A packet that was written is the last one.** -/
theorem Layout.submit (h : Layout m buf held) (hmtu : buf.mtu = bdivideUp m BLOCK) (hm : m ≤ INT_MAX)
    (hroom : 1 + buf.mtu ≤ buf.free) (hlen : data.length ≤ m)
    (hload : load buf.buffer (BLOCK * (buf.endBlock + 1)) data.length = data) :
    Layout m ((buf.append data.length).cut (buf.endBlock + 1 + bdivideUp data.length BLOCK)) (held ++ [data]) := by
  have hblocks : bdivideUp data.length BLOCK ≤ buf.mtu := by
    rw [hmtu, bdivideUp_eq, bdivideUp_eq]
    omega
  rcases h with h | ⟨ps, qs, stop, rfl, h⟩
  · exact h.submit hm hlen hload hblocks
  · exact .inr ⟨ps, qs ++ [data], _, List.append_assoc .., h.submit hm hroom hlen hload hblocks⟩

/-! ## A packet less -/

/-- The first packet, as the ring has it. -/
theorem Layout.first (h : Layout m buf (p :: held)) : 0 < buf.used ∧ p.length ≤ m ∧ buf.lenAt buf.start = p.length ∧
    load buf.buffer (BLOCK * (buf.start + 1)) p.length = p ∧ buf.blockLen buf.start = bdivideUp p.length BLOCK ∧
    buf.blockLen buf.start + 1 ≤ buf.used ∧ buf.blockLen buf.start + 1 ≤ buf.wrap - buf.start := by
  have hof : ∀ {ps stop}, Chunks buf.size buf.mtu m buf.buffer buf.start (p :: ps) stop → stop ≤ buf.start + buf.used →
      stop ≤ buf.wrap → 0 < buf.used ∧ p.length ≤ m ∧ buf.lenAt buf.start = p.length ∧
      load buf.buffer (BLOCK * (buf.start + 1)) p.length = p ∧ buf.blockLen buf.start = bdivideUp p.length BLOCK ∧
      buf.blockLen buf.start + 1 ≤ buf.used ∧ buf.blockLen buf.start + 1 ≤ buf.wrap - buf.start := by
    rintro ps stop ⟨-, hlen, hheader, hload, hrest⟩ hused hwrap
    have hle := hrest.le
    have hheader' : buf.lenAt buf.start = p.length := hheader
    have hblocks : buf.blockLen buf.start = bdivideUp p.length BLOCK := by
      unfold blockLen
      rw [hheader', Int.toNat_natCast]
    exact ⟨by omega, hlen, hheader', hload, hblocks, by omega, by omega⟩
  rcases h with h | ⟨ps, qs, stop, hheld, h⟩
  · have h1 := h.wrap
    have h2 := h.room
    exact hof h.chunks le_rfl (by omega)
  · have hfront := h.front
    have hused := h.used
    rcases ps with _ | ⟨q, ps⟩
    · exact absurd rfl h.ne_nil
    · obtain rfl := (List.cons.inj hheld).1
      exact hof hfront (by omega) le_rfl

theorem Layout.used_eq_zero (h : Layout m buf []) : buf.used = 0 := by
  rcases h with h | ⟨ps, qs, stop, hheld, h⟩
  · have heq : buf.start = buf.start + buf.used := h.chunks
    omega
  · exact absurd (List.append_eq_nil_iff.1 hheld.symm).1 h.ne_nil

/-- What is left when the first packet is taken out, where the ring does not start again. -/
theorem advance_eq (buf : ChunkBuffer2) (h : buf.start + (1 + buf.blockLen buf.start) ≠ buf.wrap) : buf.advance = { buf with
    start := buf.start + (1 + buf.blockLen buf.start), used := buf.used - (1 + buf.blockLen buf.start) } := by
  unfold ChunkBuffer2.advance
  exact if_neg h

theorem advance_wrap (buf : ChunkBuffer2) (h : buf.start + (1 + buf.blockLen buf.start) = buf.wrap) : buf.advance = { buf with
    start := 0, used := buf.used - (1 + buf.blockLen buf.start), wrap := buf.size } := by
  unfold ChunkBuffer2.advance
  exact if_pos h

theorem Straight.advance (h : Straight m buf (p :: held)) (hblocks : buf.blockLen buf.start = bdivideUp p.length BLOCK)
    (hused : buf.blockLen buf.start + 1 ≤ buf.used) : Straight m buf.advance held ∧
    buf.advance.endBlock = buf.endBlock ∧ buf.advance.free = buf.free := by
  have hwrap := h.wrap
  have hroom := h.room
  have hrest := h.chunks.2.2.2.2
  have heq := advance_eq buf (by omega)
  have hstart : buf.start + 1 + bdivideUp p.length BLOCK = buf.start + (1 + buf.blockLen buf.start) := by omega
  have hstop : buf.start + (1 + buf.blockLen buf.start) + (buf.used - (1 + buf.blockLen buf.start)) = buf.start + buf.used := by
    omega
  rw [hstart, ← hstop] at hrest
  rw [← hstop] at hroom
  have hs : Straight m buf.advance held := by
    rw [heq]
    exact ⟨hwrap, hroom, hrest⟩
  refine ⟨hs, ?_, ?_⟩
  · rw [hs.endBlock, h.endBlock, heq]
    exact hstop
  · rw [hs.free, h.free, heq]
    simp only
    omega

/-- When nothing is left before the cut, the ring starts again. -/
theorem Around.advance_last (h : Around m buf [p] qs stop) (hblocks : buf.blockLen buf.start = bdivideUp p.length BLOCK) :
    Straight m buf.advance qs ∧ buf.advance.endBlock = buf.endBlock ∧ buf.free ≤ buf.advance.free := by
  have hlast : buf.start + 1 + bdivideUp p.length BLOCK = buf.wrap := h.front.2.2.2.2
  have hused := h.used
  have hstart := h.start_lt
  have hbehind := h.behind
  have hwrap := h.wrap
  have heq := advance_wrap buf (by omega)
  have huse : buf.used - (1 + buf.blockLen buf.start) = stop := by omega
  rw [huse] at heq
  have hs : Straight m buf.advance qs := by
    rw [heq]
    refine ⟨rfl, ?_, ?_⟩
    · change 0 + stop + 1 + buf.mtu ≤ buf.size
      omega
    · change Chunks buf.size buf.mtu m buf.buffer 0 qs (0 + stop)
      rw [Nat.zero_add]
      exact h.back
  refine ⟨hs, ?_, ?_⟩
  · rw [hs.endBlock, h.endBlock, heq]
    exact Nat.zero_add stop
  · rw [hs.free, h.free, heq]
    simp only
    omega

theorem Around.advance {r : Bytes} (h : Around m buf (p :: r :: ps) qs stop)
    (hblocks : buf.blockLen buf.start = bdivideUp p.length BLOCK) : Around m buf.advance (r :: ps) qs stop ∧
    buf.advance.endBlock = buf.endBlock ∧ buf.free ≤ buf.advance.free := by
  have hrest := h.front.2.2.2.2
  have hused := h.used
  have hbehind := h.behind
  have hstart : buf.start + 1 + bdivideUp p.length BLOCK = buf.start + (1 + buf.blockLen buf.start) := by omega
  rw [hstart] at hrest
  have hle := hrest.2.2.2.2.le
  have heq := advance_eq buf (by omega)
  have hs : Around m buf.advance (r :: ps) qs stop := by
    rw [heq]
    refine ⟨h.wrap, h.narrow, ?_, ?_, List.cons_ne_nil _ _, hrest, h.back⟩
    · change buf.start + (1 + buf.blockLen buf.start) + (buf.used - (1 + buf.blockLen buf.start)) = buf.wrap + stop
      omega
    · change stop ≤ buf.start + (1 + buf.blockLen buf.start)
      omega
  refine ⟨hs, ?_, ?_⟩
  · rw [hs.endBlock, h.endBlock]
  · rw [hs.free, h.free, heq]
    simp only
    omega

/-- **The first packet is taken out.** The end stays, and no block that was free is not. -/
theorem Layout.advance (h : Layout m buf (p :: held)) : Layout m buf.advance held ∧
    buf.advance.endBlock = buf.endBlock ∧ buf.free ≤ buf.advance.free ∧
    (¬ buf.wrap - buf.start ≤ buf.used → buf.advance.free = buf.free) := by
  obtain ⟨-, -, -, -, hblocks, hused, -⟩ := h.first
  rcases h with h | ⟨_ | ⟨q, ps⟩, qs, stop, hheld, h⟩
  · obtain ⟨hs, hend, hfree⟩ := h.advance hblocks hused
    exact ⟨.inl hs, hend, hfree.ge, fun _ => hfree⟩
  · exact absurd rfl h.ne_nil
  · obtain ⟨rfl, rfl⟩ := List.cons.inj hheld
    rcases ps with _ | ⟨r, ps⟩
    · obtain ⟨hs, hend, hfree⟩ := h.advance_last hblocks
      exact ⟨.inl hs, hend, hfree, fun hnot => absurd h.wrapped hnot⟩
    · obtain ⟨hs, hend, hfree⟩ := h.advance hblocks
      exact ⟨.inr ⟨r :: ps, qs, stop, rfl, hs⟩, hend, hfree, fun hnot => absurd h.wrapped hnot⟩

/-- **A ring that is full holds the packets it was made for.** -/
theorem Layout.full (h : Layout m buf held) (hmtu : buf.mtu = bdivideUp m BLOCK) {num : ℕ}
    (hsize : buf.size = (1 + bdivideUp m BLOCK) * (num + 1)) (hfull : buf.free < 1 + buf.mtu) : num ≤ held.length := by
  rcases h with h | ⟨ps, qs, stop, rfl, h⟩
  · have h1 := h.room
    rw [h.free] at hfull
    omega
  · have h1 := h.front.blocks_le hmtu
    have h2 := h.back.blocks_le hmtu
    have h3 := h.narrow
    rw [h.free] at hfull
    rw [← hmtu] at hsize
    rw [List.length_append]
    by_contra hlt
    have hmul : (ps.length + qs.length + 1) * (1 + buf.mtu) ≤ num * (1 + buf.mtu) := Nat.mul_le_mul_right _ (by omega)
    have hnum : (1 + buf.mtu) * (num + 1) = num * (1 + buf.mtu) + (1 + buf.mtu) := by ring
    have hsum : (ps.length + qs.length + 1) * (1 + buf.mtu) =
        ps.length * (1 + buf.mtu) + qs.length * (1 + buf.mtu) + (1 + buf.mtu) := by ring
    omega

/-! ## What the input and the output are given -/

theorem updateInput_eq (buf : ChunkBuffer2) : ∃ dest avail,
    buf.updateInput = { buf with inputDest := dest, inputAvail := avail } := by
  unfold updateInput
  split_ifs <;> exact ⟨_, _, rfl⟩

theorem updateOutput_eq (buf : ChunkBuffer2) : ∃ dest avail,
    buf.updateOutput = { buf with outputDest := dest, outputAvail := avail } := by
  unfold updateOutput
  split_ifs <;> exact ⟨_, _, rfl⟩

/-- What the input and the output were given does not move the packets. -/
theorem Layout.io (h : Layout m buf held) (d d' : Option ℕ) (k k' : ℤ) :
    Layout m { buf with inputDest := d, inputAvail := k, outputDest := d', outputAvail := k' } held := by
  rcases h with h | ⟨ps, qs, stop, hheld, h⟩
  · exact .inl ⟨h.wrap, h.room, h.chunks⟩
  · exact .inr ⟨ps, qs, stop, hheld, h.wrap, h.narrow, h.used, h.behind, h.ne_nil, h.front, h.back⟩

theorem Layout.updateInput (h : Layout m buf held) : Layout m buf.updateInput held := by
  obtain ⟨dest, avail, heq⟩ := updateInput_eq buf
  rw [heq]
  exact h.io ..

theorem Layout.updateOutput (h : Layout m buf held) : Layout m buf.updateOutput held := by
  obtain ⟨dest, avail, heq⟩ := updateOutput_eq buf
  rw [heq]
  exact h.io ..

/-- The number of bytes fits, in a ring below two gigabytes. -/
theorem Layout.assertsInput (h : Layout m buf held) (hsmall : BLOCK * buf.size ≤ INT_MAX) : buf.updateInput.AssertsInput := by
  obtain ⟨-, h0, hle⟩ := h.room
  unfold ChunkBuffer2.updateInput
  split_ifs with h1 h2
  · exact (if_pos h1).mpr ⟨rfl, rfl⟩
  · refine (if_neg h1).mpr ((if_pos h2).mpr ⟨rfl, toInt_eq ?_ ?_⟩)
    · unfold BLOCK
      omega
    · unfold BLOCK at *
      omega
  · exact (if_neg h1).mpr ((if_neg h2).mpr ⟨rfl, rfl⟩)

/-- What the output is given is the first packet. -/
theorem Layout.assertsOutput_iff (h : Layout m buf held) : buf.AssertsOutput ↔
    (held = [] → buf.outputDest = none ∧ buf.outputAvail = -1) ∧
    ∀ p rest, held = p :: rest → buf.outputDest = some (BLOCK * (buf.start + 1)) ∧ buf.outputAvail = p.length := by
  unfold AssertsOutput
  rcases held with _ | ⟨p, rest⟩
  · rw [if_neg (by rw [h.used_eq_zero]; exact lt_irrefl 0)]
    simp
  · obtain ⟨hpos, -, hlen, -, -, hused, hwrap⟩ := h.first
    rw [if_pos hpos, hlen]
    constructor
    · rintro ⟨-, -, -, hdest, havail⟩
      refine ⟨nofun, fun p' rest' heq => ?_⟩
      obtain ⟨rfl, rfl⟩ := List.cons.inj heq
      exact ⟨hdest, havail⟩
    · rintro ⟨-, hof⟩
      exact ⟨by omega, by omega, by omega, hof p rest rfl⟩

theorem Layout.assertsOutput (h : Layout m buf held) : buf.updateOutput.AssertsOutput := by
  rw [h.updateOutput.assertsOutput_iff]
  unfold ChunkBuffer2.updateOutput
  constructor
  · rintro rfl
    rw [if_neg (by rw [h.used_eq_zero]; exact lt_irrefl 0)]
    exact ⟨rfl, rfl⟩
  · rintro p rest rfl
    obtain ⟨hpos, -, hlen, -⟩ := h.first
    rw [if_pos hpos]
    exact ⟨rfl, hlen⟩

/-- The buffer holds the packets, of at most `m` bytes, and it gives the input and the output what they are to be
given. -/
structure Holds (m : ℕ) (buf : ChunkBuffer2) (held : List Bytes) : Prop where
  layout : Layout m buf held
  mtu : buf.mtu = bdivideUp m BLOCK
  small : BLOCK * buf.size ≤ INT_MAX
  input : buf.AssertsInput
  output : buf.AssertsOutput

theorem Holds.assertsAll (h : Holds m buf held) : buf.AssertsAll := ⟨h.layout.assertsBuffer, h.input, h.output⟩

theorem Holds.le_int_max (h : Holds m buf held) : m ≤ INT_MAX := by
  have h1 := h.layout.room.1
  have h2 := h.mtu
  have h3 := h.small
  rw [bdivideUp_eq] at h2
  unfold BLOCK at h3
  omega

/-- There is room for a packet of the greatest length iff there are as many free blocks as it takes. -/
theorem Holds.avail_iff (h : Holds m buf held) : (m : ℤ) ≤ buf.inputAvail ↔ 1 + (buf.mtu : ℤ) ≤ buf.free := by
  have h1 := h.layout.room
  have h2 := h.mtu
  have h3 := h.input
  rw [bdivideUp_eq] at h2
  unfold AssertsInput at h3
  rw [if_neg (by omega)] at h3
  split_ifs at h3 with hfree
  · rw [h3.2]
    unfold BLOCK
    omega
  · rw [h3.2]
    omega

theorem Holds.dest (h : Holds m buf held) (hroom : (m : ℤ) ≤ buf.inputAvail) :
    buf.inputDest = some (BLOCK * (buf.endBlock + 1)) := by
  have h1 := h.layout.room
  have h2 := h.avail_iff.1 hroom
  have h3 := h.input
  unfold AssertsInput at h3
  rw [if_neg (by omega), if_pos (by omega)] at h3
  exact h3.1

theorem cut_frame (buf : ChunkBuffer2) (len last : ℕ) : ((buf.append len).cut last).start = buf.start ∧
    ((buf.append len).cut last).used = buf.used + (1 + bdivideUp len BLOCK) ∧
    ((buf.append len).cut last).size = buf.size ∧ ((buf.append len).cut last).mtu = buf.mtu ∧
    ((buf.append len).cut last).outputDest = buf.outputDest ∧ ((buf.append len).cut last).outputAvail = buf.outputAvail ∧
    ((buf.append len).cut last).buffer = Memory.store buf.buffer (BLOCK * buf.endBlock) (intBytes len) := by
  unfold cut
  split_ifs <;> exact ⟨rfl, rfl, rfl, rfl, rfl, rfl, rfl⟩

theorem submitPacket_frame (buf : ChunkBuffer2) (len : ℕ) : (buf.submitPacket len).start = buf.start ∧
    (buf.submitPacket len).size = buf.size ∧
    (buf.submitPacket len).buffer = Memory.store buf.buffer (BLOCK * buf.endBlock) (intBytes len) := by
  obtain ⟨hstart, -, hsize, -, -, -, hbuffer⟩ := cut_frame buf len (buf.endBlock + 1 + bdivideUp len BLOCK)
  unfold submitPacket
  simp only
  generalize (buf.append len).cut (buf.endBlock + 1 + bdivideUp len BLOCK) = cut at *
  obtain ⟨d, k, heq⟩ := updateInput_eq cut
  obtain ⟨d', k', heq'⟩ := updateOutput_eq cut.updateInput
  split_ifs
  · rw [heq', heq]
    exact ⟨hstart, hsize, hbuffer⟩
  · rw [heq]
    exact ⟨hstart, hsize, hbuffer⟩

/-- While the first packet stays the first one, what the output has is right. -/
theorem Layout.assertsOutput_of_first {next : ChunkBuffer2} {rest rest' : List Bytes} (h : Layout m buf (p :: rest))
    (hout : buf.AssertsOutput) (hnext : Layout m next (p :: rest')) (hstart : next.start = buf.start)
    (hdest : next.outputDest = buf.outputDest) (havail : next.outputAvail = buf.outputAvail) : next.AssertsOutput := by
  obtain ⟨h1, h2⟩ := (h.assertsOutput_iff.1 hout).2 p rest rfl
  refine hnext.assertsOutput_iff.2 ⟨fun hnil => absurd hnil (List.cons_ne_nil _ _), fun p' rest' hcons => ?_⟩
  obtain rfl := (List.cons.inj hcons).1
  rw [hdest, havail, hstart]
  exact ⟨h1, h2⟩

theorem Holds.blocks_le (h : Holds m buf held) (hlen : data.length ≤ m) : bdivideUp data.length BLOCK ≤ buf.mtu := by
  rw [h.mtu, bdivideUp_eq, bdivideUp_eq]
  omega

/-- **`ChunkBuffer2_SubmitPacket` appends the packet** that was written to the free blocks. -/
theorem Holds.submit (h : Holds m buf held) (hroom : (m : ℤ) ≤ buf.inputAvail) (hlen : data.length ≤ m)
    (hload : load buf.buffer (BLOCK * (buf.endBlock + 1)) data.length = data) :
    Holds m (buf.submitPacket data.length) (held ++ [data]) := by
  have hlayout := h.layout.submit h.mtu h.le_int_max (h.avail_iff.1 hroom) hlen hload
  obtain ⟨hstart, hused, hsize, hmtu, hdest, havail, -⟩ :=
    cut_frame buf data.length (buf.endBlock + 1 + bdivideUp data.length BLOCK)
  unfold submitPacket
  simp only
  generalize (buf.append data.length).cut (buf.endBlock + 1 + bdivideUp data.length BLOCK) = cut at *
  have hsmall : BLOCK * cut.size ≤ INT_MAX := hsize ▸ h.small
  have hmtu' : cut.mtu = bdivideUp m BLOCK := hmtu.trans h.mtu
  have hinput := hlayout.assertsInput hsmall
  have hlayout' := hlayout.updateInput
  obtain ⟨d, k, heq⟩ := updateInput_eq cut
  rw [heq] at hinput hlayout' ⊢
  by_cases hempty : buf.used = 0
  · -- the packet is the first one, and the output is given it
    rw [if_pos (by simp only; omega)]
    have hout := hlayout'.assertsOutput
    obtain ⟨d', k', heq'⟩ := updateOutput_eq { cut with inputDest := d, inputAvail := k }
    rw [heq'] at hout ⊢
    exact ⟨hlayout.io d d' k k', hmtu', hsmall, hinput, hout⟩
  · rw [if_neg (by simp only; omega)]
    refine ⟨hlayout', hmtu', hsmall, hinput, ?_⟩
    rcases held with _ | ⟨p, rest⟩
    · exact absurd h.layout.used_eq_zero hempty
    · exact h.layout.assertsOutput_of_first h.output hlayout' hstart hdest havail

/-- What it asserts of a packet that fits. -/
theorem Holds.assertsSubmit (h : Holds m buf held) (hroom : (m : ℤ) ≤ buf.inputAvail) (hlen : data.length ≤ m)
    (hload : load buf.buffer (BLOCK * (buf.endBlock + 1)) data.length = data) : buf.AssertsSubmit data.length := by
  have hfree := h.avail_iff.1 hroom
  have hend := h.layout.room
  have hblocks := h.blocks_le hlen
  refine ⟨?_, ?_, h.assertsAll, ?_, ?_, ?_, (h.submit hroom hlen hload).assertsAll⟩
  · rw [h.dest hroom]
    exact Option.some_ne_none _
  · omega
  · omega
  · rcases h.layout with hs | ⟨ps, qs, stop, -, ha⟩
    · exact .inl (not_le.1 hs.not_wrapped)
    · rw [ha.free] at hfree
      rw [ha.endBlock]
      exact .inr (by omega)
  · exact (h.layout.submit h.mtu h.le_int_max hfree hlen hload).assertsBuffer

theorem advance_frame (buf : ChunkBuffer2) : buf.advance.buffer = buf.buffer ∧ buf.advance.size = buf.size ∧
    buf.advance.mtu = buf.mtu ∧ buf.advance.inputDest = buf.inputDest ∧ buf.advance.inputAvail = buf.inputAvail := by
  unfold advance
  simp only
  split_ifs <;> exact ⟨rfl, rfl, rfl, rfl, rfl⟩

/-- **`ChunkBuffer2_ConsumePacket` takes the first packet out.** What the input is writing to stays where it is. -/
theorem Holds.consume (h : Holds m buf (p :: held)) : Holds m buf.consumePacket held ∧
    buf.consumePacket.endBlock = buf.endBlock ∧ buf.consumePacket.buffer = buf.buffer ∧
    buf.consumePacket.size = buf.size ∧ buf.free ≤ buf.consumePacket.free := by
  obtain ⟨hlayout, hend, hfree, hsame⟩ := h.layout.advance
  obtain ⟨hbuffer, hsize, hmtu, hdest, havail⟩ := advance_frame buf
  have hin := h.input
  have hsmall := h.small
  have hm := h.mtu
  unfold consumePacket
  simp only
  generalize buf.advance = next at *
  rw [← hsize] at hsmall
  -- the input is asked again, or what it has is right
  have hinput : ∃ d k, (if decide (buf.wrap - buf.start ≤ buf.used) = true then next.updateInput else next) =
      { next with inputDest := d, inputAvail := k } ∧
      (if decide (buf.wrap - buf.start ≤ buf.used) = true then next.updateInput else next).AssertsInput := by
    by_cases hw : buf.wrap - buf.start ≤ buf.used
    · obtain ⟨d, k, heq⟩ := updateInput_eq next
      rw [if_pos (decide_eq_true hw)]
      exact ⟨d, k, heq, hlayout.assertsInput hsmall⟩
    · rw [if_neg (by simpa using hw)]
      refine ⟨next.inputDest, next.inputAvail, rfl, ?_⟩
      unfold AssertsInput at hin ⊢
      rw [hsize, hend, hmtu, hsame hw, hdest, havail]
      exact hin
  obtain ⟨d, k, heq, hnext⟩ := hinput
  rw [heq] at hnext ⊢
  obtain ⟨d', k', heq'⟩ := updateOutput_eq { next with inputDest := d, inputAvail := k }
  have hout := (hlayout.io d next.outputDest k next.outputAvail).assertsOutput
  rw [heq'] at hout ⊢
  exact ⟨⟨hlayout.io d d' k k', hmtu.trans hm, hsmall, hnext, hout⟩, hend, hbuffer, hsize, hfree⟩

theorem Holds.assertsConsume (h : Holds m buf (p :: held)) : buf.AssertsConsume := by
  obtain ⟨hpos, -, -, -, -, hused, hwrap⟩ := h.layout.first
  have hdest := ((h.layout.assertsOutput_iff.1 h.output).2 p held rfl).1
  refine ⟨?_, h.assertsAll, ?_, hpos, ?_, ?_, h.layout.advance.1.assertsBuffer, h.consume.1.assertsAll⟩
  · rw [hdest]
    exact Option.some_ne_none _
  · omega
  · omega
  · omega

theorem calcBlocks_eq {num blocks : ℕ} (h : calcBlocks m num = some blocks) : blocks = (1 + bdivideUp m BLOCK) * (num + 1) := by
  unfold calcBlocks at h
  simp only at h
  split_ifs at h
  exact (Option.some.inj h).symm

/-- A ring without packets, before the input and the output are given anything. -/
def empty (mem : ℕ → Byte) (blocks mtu : ℕ) : ChunkBuffer2 where
  buffer := mem
  size := blocks
  wrap := blocks
  start := 0
  used := 0
  mtu := bdivideUp mtu BLOCK
  inputDest := none
  inputAvail := -1
  outputDest := none
  outputAvail := -1

theorem init_eq (mem : ℕ → Byte) (blocks mtu : ℕ) :
    ChunkBuffer2.init mem blocks mtu = (empty mem blocks mtu).updateInput.updateOutput := rfl

theorem Holds.init {blocks : ℕ} (mem : ℕ → Byte) (hroom : 1 + bdivideUp m BLOCK ≤ blocks) (hsmall : BLOCK * blocks ≤ INT_MAX) :
    Holds m (ChunkBuffer2.init mem blocks m) [] ∧ (ChunkBuffer2.init mem blocks m).free = blocks := by
  have hs : Straight m (empty mem blocks m) [] := by
    refine ⟨rfl, ?_, rfl⟩
    change 0 + 0 + 1 + bdivideUp m BLOCK ≤ blocks
    omega
  have hlayout : Layout m (empty mem blocks m) [] := .inl hs
  have hfree : (empty mem blocks m).free = blocks := hs.free.trans (sub_zero _)
  have hin := hlayout.assertsInput hsmall
  have hout := hlayout.updateInput.assertsOutput
  have hmtu : (empty mem blocks m).mtu = bdivideUp m BLOCK := rfl
  have hsize : BLOCK * (empty mem blocks m).size ≤ INT_MAX := hsmall
  rw [init_eq]
  generalize empty mem blocks m = raw at *
  obtain ⟨d, k, heq⟩ := updateInput_eq raw
  rw [heq] at hin hout ⊢
  obtain ⟨d', k', heq'⟩ := updateOutput_eq { raw with inputDest := d, inputAvail := k }
  rw [heq'] at hout ⊢
  exact ⟨⟨hlayout.io d d' k k', hmtu, hsize, hin, hout⟩, hfree⟩

theorem init_frame (mem : ℕ → Byte) (blocks mtu : ℕ) :
    (ChunkBuffer2.init mem blocks mtu).size = blocks ∧ (ChunkBuffer2.init mem blocks mtu).buffer = mem := by
  have hsize : (empty mem blocks mtu).size = blocks := rfl
  have hbuffer : (empty mem blocks mtu).buffer = mem := rfl
  rw [init_eq]
  generalize empty mem blocks mtu = raw at *
  obtain ⟨d, k, heq⟩ := updateInput_eq raw
  obtain ⟨d', k', heq'⟩ := updateOutput_eq raw.updateInput
  rw [heq', heq]
  exact ⟨hsize, hbuffer⟩

/-- The input is given the blocks behind the last packet iff there are enough of them. -/
theorem Holds.receives (h : Holds m buf held) : (if (m : ℤ) ≤ buf.inputAvail then buf.inputDest else none) =
    if 1 + (buf.mtu : ℤ) ≤ buf.free then some (BLOCK * (buf.endBlock + 1)) else none := by
  by_cases hroom : (m : ℤ) ≤ buf.inputAvail
  · rw [if_pos hroom, if_pos (h.avail_iff.1 hroom), h.dest hroom]
  · rw [if_neg hroom, if_neg (h.avail_iff.not.1 hroom)]

/-- The output is given the first packet. -/
theorem Holds.sends (h : Holds m buf held) : (buf.outputDest.map fun dest => (dest, buf.outputAvail)) =
    held.head?.map fun p => (BLOCK * (buf.start + 1), (p.length : ℤ)) := by
  obtain ⟨hnil, hcons⟩ := h.layout.assertsOutput_iff.1 h.output
  rcases held with _ | ⟨p, rest⟩
  · rw [(hnil rfl).1]
    rfl
  · obtain ⟨hdest, havail⟩ := hcons p rest rfl
    rw [hdest, havail]
    rfl

theorem Holds.empty_iff (h : Holds m buf held) : buf.outputAvail < 0 ↔ held = [] := by
  obtain ⟨hnil, hcons⟩ := h.layout.assertsOutput_iff.1 h.output
  rcases held with _ | ⟨p, rest⟩
  · simp [(hnil rfl).2]
  · simp [(hcons p rest rfl).2]

/-- What the output is given is a packet, and it is no longer than the input's MTU. -/
theorem Holds.given (h : Holds m buf held) (hne : held ≠ []) :
    buf.outputDest ≠ none ∧ 0 ≤ buf.outputAvail ∧ buf.outputAvail ≤ m := by
  rcases held with _ | ⟨p, rest⟩
  · exact absurd rfl hne
  · obtain ⟨hdest, havail⟩ := (h.layout.assertsOutput_iff.1 h.output).2 p rest rfl
    have hlen := h.layout.first.2.1
    rw [hdest, havail]
    exact ⟨Option.some_ne_none _, by omega, by omega⟩

end ChunkBuffer2

namespace PacketBuffer

open ChunkBuffer2

variable {m num dest offset : ℕ} {memory : ℕ → Byte} {b : PacketBuffer} {data : Bytes} {held : List Bytes} {e : Event}

/-- What the input is done with. -/
def offered : Event → List Bytes
  | .input data => [data]
  | _ => []

/-- What the output was given, as it lies in the memory when the output is done with it. -/
def passed (b : PacketBuffer) : Event → List Bytes
  | .output => (b.sending.map fun packet => load b.buf.buffer packet.1 packet.2.toNat).toList
  | _ => []

/-- The buffer holds the packets, the input has the free blocks behind them unless there are too few, and the output
has the first packet. -/
structure Inv (m num : ℕ) (memory : ℕ → Byte) (b : PacketBuffer) (held : List Bytes) : Prop extends Holds m b.buf held where
  inputMtu : b.inputMtu = m
  size : b.buf.size = (1 + bdivideUp m BLOCK) * (num + 1)
  receiving : b.receiving = if 1 + (b.buf.mtu : ℤ) ≤ b.buf.free then some (BLOCK * (b.buf.endBlock + 1)) else none
  sending : b.sending = held.head?.map fun p => (BLOCK * (b.buf.start + 1), (p.length : ℤ))
  outside : ∀ i, BLOCK * b.buf.size ≤ i → b.buf.buffer i = memory i

theorem Inv.room (h : Inv m num memory b held) (hr : b.receiving = some dest) :
    dest = BLOCK * (b.buf.endBlock + 1) ∧ 1 + (b.buf.mtu : ℤ) ≤ b.buf.free := by
  have heq := h.receiving.symm.trans hr
  split_ifs at heq with hroom
  exact ⟨(Option.some.inj heq).symm, hroom⟩

theorem Inv.init (hinit : PacketBuffer.init m num memory = some b) (hsmall : BLOCK * b.buf.size ≤ INT_MAX) :
    Inv m num memory b [] := by
  obtain ⟨blocks, hblocks, rfl⟩ := Option.map_eq_some_iff.1 hinit
  have hsize := calcBlocks_eq hblocks
  have hroom : 1 + bdivideUp m BLOCK ≤ blocks := hsize ▸ Nat.le_mul_of_pos_right _ (Nat.succ_pos num)
  obtain ⟨hblock, hbuffer⟩ := init_frame memory blocks m
  change BLOCK * (ChunkBuffer2.init memory blocks m).size ≤ INT_MAX at hsmall
  rw [hblock] at hsmall
  obtain ⟨hholds, hfree⟩ := Holds.init memory hroom hsmall
  have hmany : 1 + ((ChunkBuffer2.init memory blocks m).mtu : ℤ) ≤ (ChunkBuffer2.init memory blocks m).free := by
    rw [hfree, hholds.mtu]
    omega
  refine ⟨hholds, rfl, hblock.trans hsize, ?_, rfl, fun i _ => ?_⟩
  · have hgiven := hholds.receives
    rw [if_pos (hholds.avail_iff.2 hmany)] at hgiven
    exact hgiven
  · exact congrFun hbuffer i

/-- **What the input writes does not matter** to what the buffer holds. -/
theorem Inv.put (h : Inv m num memory b held) (hr : b.receiving = some dest) (hlen : offset + data.length ≤ m) :
    Inv m num memory (b.put (dest + offset) data) held := by
  obtain ⟨rfl, hroom⟩ := h.room hr
  have hend := h.layout.room.1
  have hmtu := h.mtu
  rw [bdivideUp_eq] at hmtu
  have hlayout : Layout m (b.put (BLOCK * (b.buf.endBlock + 1) + offset) data).buf held := by
    refine h.layout.store hroom data ?_ ?_ <;> unfold BLOCK <;> omega
  refine ⟨⟨hlayout, h.mtu, h.small, h.input, ?_⟩, h.inputMtu, h.size, h.receiving, h.sending, fun i hi => ?_⟩
  · exact hlayout.assertsOutput_iff.2 (h.layout.assertsOutput_iff.1 h.output)
  · refine (store_apart (.inr ?_)).trans (h.outside i hi)
    change BLOCK * b.buf.size ≤ i at hi
    unfold BLOCK at hi ⊢
    omega

theorem inputHandlerDone_eq (b : PacketBuffer) (inLen : ℕ) : b.inputHandlerDone inLen =
    { buf := b.buf.submitPacket inLen
      inputMtu := b.inputMtu
      receiving :=
        if (b.inputMtu : ℤ) ≤ (b.buf.submitPacket inLen).inputAvail then (b.buf.submitPacket inLen).inputDest else none
      sending :=
        if b.buf.outputAvail < 0 then
          (b.buf.submitPacket inLen).outputDest.map fun dest => (dest, (b.buf.submitPacket inLen).outputAvail)
        else b.sending } := by
  unfold inputHandlerDone receive send
  simp only [decide_eq_true_eq]
  split_ifs <;> rfl

/-- **A packet of the input comes behind the others.** -/
theorem Inv.inputHandlerDone (h : Inv m num memory b held) (hr : b.receiving = some dest) (hlen : data.length ≤ m) :
    b.Asserts (.input data) ∧ Inv m num memory (b.step (.input data)) (held ++ [data]) := by
  have hput : Inv m num memory (b.put (dest + 0) data) held := h.put hr (by omega)
  rw [Nat.add_zero] at hput
  obtain ⟨hdest, hroom⟩ := h.room hr
  have hload : load (b.put dest data).buf.buffer (BLOCK * ((b.put dest data).buf.endBlock + 1)) data.length = data := by
    rw [hdest]
    exact load_store ..
  have havail : (m : ℤ) ≤ (b.put dest data).buf.inputAvail := hput.avail_iff.2 hroom
  have hholds := hput.submit havail hlen hload
  obtain ⟨hstart, hsize, hbuffer⟩ := submitPacket_frame (b.put dest data).buf data.length
  have hne : held ++ [data] ≠ [] := by simp
  constructor
  · intro dest' hr'
    obtain rfl : dest = dest' := Option.some.inj (hr.symm.trans hr')
    simp only
    rw [hput.inputMtu]
    refine ⟨hlen, hput.assertsSubmit havail hlen hload, fun hmore => ?_, fun hempty => ?_⟩
    · rw [hholds.dest hmore]
      exact Option.some_ne_none _
    · obtain rfl := hput.empty_iff.1 hempty
      obtain ⟨h1, h2, h3⟩ := hholds.given hne
      exact ⟨h1, h2, h3, h.sending⟩
  · have hstep : b.step (.input data) = (b.put dest data).inputHandlerDone data.length := by
      unfold step
      rw [hr]
    rw [hstep, inputHandlerDone_eq]
    refine ⟨hholds, h.inputMtu, hsize.trans h.size, ?_, ?_, fun i hi => ?_⟩
    · rw [hput.inputMtu]
      exact hholds.receives
    · simp only
      by_cases hempty : (b.put dest data).buf.outputAvail < 0
      · rw [if_pos hempty]
        exact hholds.sends
      · -- the output still has the packet it had
        rcases held with _ | ⟨p, rest⟩
        · exact absurd (hput.empty_iff.2 rfl) hempty
        · rw [if_neg hempty, hstart]
          exact h.sending
    · simp only at hi ⊢
      rw [hsize] at hi
      rw [hbuffer]
      refine (store_apart (.inr ?_)).trans (hput.outside i hi)
      have hend := hput.layout.room.1
      unfold BLOCK intBytes at *
      simp only [List.length_cons, List.length_nil]
      omega

theorem outputHandlerDone_eq (b : PacketBuffer) : b.outputHandlerDone =
    { buf := b.buf.consumePacket
      inputMtu := b.inputMtu
      receiving :=
        if b.buf.inputAvail < b.inputMtu ∧ (b.inputMtu : ℤ) ≤ b.buf.consumePacket.inputAvail then
          b.buf.consumePacket.inputDest
        else b.receiving
      sending :=
        if 0 ≤ b.buf.consumePacket.outputAvail then
          b.buf.consumePacket.outputDest.map fun dest => (dest, b.buf.consumePacket.outputAvail)
        else none } := by
  unfold outputHandlerDone receive send
  simp only [decide_eq_true_eq]
  split_ifs <;> rfl

/-- **The output is done with the first packet**, and what it was given is this packet. -/
theorem Inv.outputHandlerDone {p : Bytes} (h : Inv m num memory b (p :: held)) :
    b.Asserts .output ∧ Inv m num memory (b.step .output) held ∧ passed b .output = [p] := by
  obtain ⟨hholds, hend, hbuffer, hsize, hfree⟩ := h.consume
  have hfull : b.buf.inputAvail < m → b.receiving = none := by
    intro hfull
    rw [h.receiving]
    exact if_neg fun hroom => absurd (h.avail_iff.2 hroom) (not_le.2 hfull)
  refine ⟨⟨h.assertsConsume, ?_, ?_⟩, ?_, ?_⟩
  · rw [h.inputMtu]
    intro hless hmore
    rw [hholds.dest hmore]
    exact ⟨Option.some_ne_none _, hfull hless⟩
  · rw [h.inputMtu]
    intro havail
    obtain ⟨h1, -, h3⟩ := hholds.given fun hnil => absurd (hholds.empty_iff.2 hnil) (not_lt.2 havail)
    exact ⟨h1, h3⟩
  · change Inv m num memory b.outputHandlerDone held
    rw [outputHandlerDone_eq]
    refine ⟨hholds, h.inputMtu, hsize.trans h.size, ?_, ?_, fun i hi => ?_⟩
    · rw [h.inputMtu]
      by_cases hless : b.buf.inputAvail < m
      · simp only [hless, true_and, hfull hless]
        exact hholds.receives
      · -- the input has not been stopped, and what it has is still behind the last packet
        have hroom := h.avail_iff.1 (not_lt.1 hless)
        have hmtu := hholds.mtu.trans h.mtu.symm
        simp only [hless, false_and, if_false]
        rw [h.receiving, if_pos hroom, if_pos (by omega), hend]
    · simp only
      by_cases havail : 0 ≤ b.buf.consumePacket.outputAvail
      · rw [if_pos havail]
        exact hholds.sends
      · rw [if_neg havail, hholds.empty_iff.1 (not_le.1 havail)]
        rfl
    · simp only at hi ⊢
      rw [hsize] at hi
      rw [hbuffer]
      exact h.outside i hi
  · unfold passed
    rw [h.sending]
    simpa using h.layout.first.2.2.2.1

/-- A packet that lies where it is to be put. -/
theorem step_input (hr : b.receiving = some dest) (hload : load b.buf.buffer dest data.length = data) :
    b.step (.input data) = b.inputHandlerDone data.length := by
  have hput : b.put dest data = b := by
    unfold put
    rw [← hload, store_load]
  unfold PacketBuffer.step
  rw [hr]
  simp only
  rw [hput]

/-- The input keeps what it was given when a packet is taken out. -/
theorem Inv.output_frame {p : Bytes} (h : Inv m num memory b (p :: held)) :
    (b.step .output).buf.buffer = b.buf.buffer ∧
    ∀ dest, b.receiving = some dest → (b.step .output).receiving = some dest := by
  have heq : b.step .output = b.outputHandlerDone := rfl
  rw [heq, outputHandlerDone_eq]
  refine ⟨h.consume.2.2.1, fun dest hr => ?_⟩
  have hroom := h.avail_iff.2 (h.room hr).2
  simp only
  rw [h.inputMtu, if_neg (fun hless => absurd hroom (not_le.2 hless.1))]
  exact hr

/-- The input is only stopped by as many packets as the buffer was made for. -/
theorem Inv.full (h : Inv m num memory b held) (hr : b.receiving = none) : num ≤ held.length := by
  refine h.layout.full h.mtu h.size (not_le.1 fun hroom => ?_)
  rw [h.receiving, if_pos hroom] at hr
  exact Option.some_ne_none _ hr

theorem Inv.step (h : Inv m num memory b held) (he : b.Allowed e) :
    b.Asserts e ∧ ∃ left, Inv m num memory (b.step e) left ∧ held ++ offered e = passed b e ++ left := by
  cases e with
  | write offset data =>
    obtain ⟨hr, hlen⟩ := he
    obtain ⟨dest, hr⟩ := Option.isSome_iff_exists.1 hr
    have hstep : b.step (.write offset data) = b.put (dest + offset) data := by
      unfold PacketBuffer.step
      rw [hr]
    refine ⟨trivial, held, ?_, by simp [offered, passed]⟩
    rw [hstep]
    exact h.put hr (h.inputMtu ▸ hlen)
  | input data =>
    obtain ⟨hr, hlen⟩ := he
    obtain ⟨dest, hr⟩ := Option.isSome_iff_exists.1 hr
    obtain ⟨hasserts, hinv⟩ := h.inputHandlerDone hr (h.inputMtu ▸ hlen)
    exact ⟨hasserts, _, hinv, rfl⟩
  | output =>
    rcases held with _ | ⟨p, rest⟩
    · have hnone : b.sending = none := h.sending
      have hsome : b.sending.isSome = true := he
      simp [hnone] at hsome
    · obtain ⟨hasserts, hinv, hpassed⟩ := h.outputHandlerDone
      exact ⟨hasserts, rest, hinv, by simp [offered, hpassed]⟩

/-- **A packet buffer is a queue.** In every run what it asserts holds, and of what the input put in the output got the
first packets, in order; it has the next one, unless there is none. The input is only stopped when the buffer holds the
packets it was made for, and nothing is written behind its memory. -/
theorem buffer_run (hinit : init m num memory = some b) (hsmall : BLOCK * b.buf.size ≤ INT_MAX) (es : List Event)
    (hes : Run.Always step Allowed b es) :
    Run.Always step Asserts b es ∧ ∃ held,
      es.flatMap offered = Run.trace step passed b es ++ held ∧
      (∀ p rest, held = p :: rest → ∃ dest, (Run.run step b es).sending = some (dest, (p.length : ℤ)) ∧
        load (Run.run step b es).buf.buffer dest p.length = p) ∧
      (held = [] → (Run.run step b es).sending = none) ∧
      ((Run.run step b es).receiving = none → num ≤ held.length) ∧
      ∀ i, BLOCK * b.buf.size ≤ i → (Run.run step b es).buf.buffer i = memory i := by
  have hstart := Inv.init hinit hsmall
  constructor
  · refine Run.Always.of_invariant (I := fun b => ∃ held, Inv m num memory b held) ?_ ⟨[], hstart⟩ hes
    rintro b e ⟨held, h⟩ he
    obtain ⟨hasserts, left, hleft, -⟩ := h.step he
    exact ⟨hasserts, left, hleft⟩
  · obtain ⟨held, hinv, heq⟩ := Run.exists_held (fun b e held h he => (h.step he).2) hstart hes
    refine ⟨held, heq, ?_, ?_, hinv.full, fun i hi => hinv.outside i (hinv.size.trans hstart.size.symm ▸ hi)⟩
    · rintro p rest rfl
      exact ⟨_, hinv.sending, hinv.layout.first.2.2.2.1⟩
    · rintro rfl
      exact hinv.sending

/-- A buffer for one packet, and the ring behind it. -/
def small : PacketBuffer :=
  receive { buf := .init (fun _ => 0) 4 4, inputMtu := 4, receiving := none, sending := none }

/-- The third packet goes around the end of the ring while the output still has the second one. -/
def goesAround : List Event :=
  [.input [1], .write 1 [7, 7], .input [2, 3, 4], .output, .write 0 [5], .input [5, 6, 7, 8], .output, .output]

theorem goesAround_allowed : Run.Always step Allowed small goesAround := by decide

theorem buffer_run_goesAround : Run.Always step Asserts small goesAround :=
  (buffer_run (show init 4 1 (fun _ => 0) = some small from rfl) (by decide) goesAround goesAround_allowed).1

example : Run.trace step passed small goesAround = [[1], [2, 3, 4], [5, 6, 7, 8]] := by decide

end PacketBuffer

end SmartTunnel
