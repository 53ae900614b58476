import SmartTunnel.Proof.Parse

/-!
# Which datagrams the parser takes

`getPacket` answers null or a packet, unless the header is too short for
`IPV4Header.fromHeaderByte`, which stands outside the `try`, or the option walk of
`TCPOption.fromByte` comes back to an option it has read:

* `walk_halts_iff`: the walk ends iff it does not circle. Lengths are signed, so an option
  can point back, and one of unknown kind points to itself.
* `getPacket_total_iff`: **which datagrams are answered**.
* `LocalReader.reads_iff`: when the reader of the tun device gets past what it reads.
-/

namespace SmartTunnel

open Jvm ByteUtil

/-! ## The walk over any bytes -/

namespace TCPOption

/-- The walk reads the option at `j` right after the one at `i`. -/
structure Next (area : Bytes) (i j : ℕ) : Prop where
  inside : i < area.length
  readable : Readable area i
  eq : (j : ℤ) = i + optionLength area i
  next_inside : j < area.length

variable {area : Bytes} {op : TCPOption} {i j : ℕ}

/-- The walk stands at the option at `i`. -/
def At (area : Bytes) (s : TCPOption × ℤ) (i : ℕ) : Prop := s.2 = i ∧ i < area.length

theorem walk_next {s : TCPOption × ℤ} (hs : At area s i) (h : Next area i j) :
    ∃ s', fromByteRound area s = .ok s' ∧ decide (s'.2 < area.length) = true ∧ At area s' j := by
  obtain ⟨op, k⟩ := s
  obtain ⟨rfl, hi⟩ := hs
  obtain ⟨op', hround⟩ := fromByteRound_readable op hi h.readable
  have hj := h.next_inside
  rw [← h.eq] at hround
  exact ⟨(op', j), hround, by simpa using hj, rfl, hj⟩

/-- Where no option follows, the walk ends within two rounds. -/
theorem walk_last {s : TCPOption × ℤ} (hs : At area s i) (h : ∀ j, ¬ Next area i j) :
    Fueled.Halts fun n => walk area n s := by
  obtain ⟨op, k⟩ := s
  obtain ⟨rfl, hi⟩ := hs
  by_cases hr : Readable area i
  · obtain ⟨op', hround⟩ := fromByteRound_readable op hi hr
    by_cases hend : i + optionLength area i < area.length
    · -- inside the area it would follow, so it lies before it
      have hneg : i + optionLength area i < 0 := by
        by_contra hge
        obtain ⟨j, hj⟩ := Int.eq_ofNat_of_zero_le (not_lt.1 hge)
        exact h j ⟨hi, hr, hj.symm, by omega⟩
      obtain ⟨e, he⟩ := fromByteRound_outside area op' (.inl hneg)
      refine Fueled.halts_of_next hround (by simpa using hend) ⟨.error e, 1, ?_⟩
      exact Fueled.doWhile_error he 0
    · exact ⟨_, 1, Fueled.doWhile_last hround (by simpa using hend) 0⟩
  · obtain ⟨e, he⟩ := fromByteRound_unreadable op hi hr
    exact ⟨_, 1, Fueled.doWhile_error he 0⟩

/-- The walk stays in the area. -/
theorem finite_reached (hne : area ≠ []) : {j | Relation.ReflTransGen (Next area) 0 j}.Finite := by
  apply (Set.finite_lt_nat area.length).subset
  intro j hj
  rcases Relation.ReflTransGen.cases_tail hj with rfl | ⟨i, -, hij⟩
  · exact List.length_pos_of_ne_nil hne
  · exact hij.next_inside

/-- **The walk ends iff it does not circle.** -/
theorem walk_halts_iff (hne : area ≠ []) :
    (Fueled.Halts fun n => walk area n (op, 0)) ↔ ¬ Fueled.Circles (Next area) 0 := by
  have hstart : At area (op, 0) 0 := ⟨rfl, List.length_pos_of_ne_nil hne⟩
  exact Fueled.doWhile_halts_iff (fun s i j (hs : At area s i) (h : Next area i j) => walk_next hs h)
    (fun _ _ => walk_last) (finite_reached hne) hstart

theorem fromByte_halts_iff (hne : area ≠ []) :
    (Fueled.Halts fun n => fromByte n area) ↔ ¬ Fueled.Circles (Next area) 0 := by
  rw [← walk_halts_iff hne]
  exact Fueled.halts_bind fun s => .pure _

/-- The walk comes to an option that it can read and whose length leads out of the area. -/
def WalkReturns (area : Bytes) : Prop :=
  ∃ i, Relation.ReflTransGen (Next area) 0 i ∧ i < area.length ∧ Readable area i ∧
    area.length ≤ i + optionLength area i

/-- A state that the walk comes to, and in which it reads an option, is at an option it comes to. -/
theorem next_of_stands {s t : TCPOption × ℤ} (hs : Stands area s) (ht : fromByteRound area s = .ok t) :
    ∃ i : ℕ, s.2 = i ∧ Relation.ReflTransGen (Next area) 0 i := by
  unfold Stands at hs
  induction hs generalizing t with
  | refl => exact ⟨0, rfl, .refl⟩
  | tail hs hround ih =>
    obtain ⟨i, hi, hreach⟩ := ih hround.1
    obtain ⟨i', hi', hin, hread, heq⟩ := fromByteRound_ok hround.1
    obtain rfl : i = i' := Int.natCast_inj.1 (hi.symm.trans hi')
    obtain ⟨j, hj, hjin, -, -⟩ := fromByteRound_ok ht
    exact ⟨j, hj, hreach.tail ⟨hin, hread, hj.symm.trans heq, hjin⟩⟩

theorem stands_of_next (h : Relation.ReflTransGen (Next area) 0 i) : ∃ op, Stands area (op, (i : ℤ)) := by
  induction h with
  | refl => exact ⟨_, .refl⟩
  | tail _ hnext ih =>
    obtain ⟨op, hstands⟩ := ih
    obtain ⟨op', hround⟩ := fromByteRound_readable op hnext.inside hnext.readable
    rw [← hnext.eq] at hround
    exact ⟨op', hstands.tail ⟨hround, by simpa using hnext.next_inside⟩⟩

/-- **The walks that return.** -/
theorem fromByte_returns_iff : (∃ op, Fueled.Ends (fun n => fromByte n area) (.ok op)) ↔ WalkReturns area := by
  constructor
  · rintro ⟨op, hends⟩
    obtain ⟨k, hwalk⟩ := fromByte_ends_iff.1 hends
    obtain ⟨s, hstands, hlast, hend⟩ := Fueled.returns_iff.1 hwalk
    obtain ⟨i, hi, hreach⟩ := next_of_stands hstands hlast
    obtain ⟨i', hi', hin, hread, rfl⟩ := fromByteRound_ok hlast
    obtain rfl : i = i' := Int.natCast_inj.1 (hi.symm.trans hi')
    exact ⟨i, hreach, hin, hread, by simpa using hend⟩
  · rintro ⟨i, hreach, hin, hread, hend⟩
    obtain ⟨op, hstands⟩ := stands_of_next hreach
    obtain ⟨op', hround⟩ := fromByteRound_readable op hin hread
    refine ⟨op', fromByte_ends_iff.2 ⟨_, Fueled.returns_iff.2 ⟨_, hstands, hround, by simpa using hend⟩⟩⟩

end TCPOption

/-! ## The parser -/

/-- The segment has an option area and the walk over it circles. -/
structure OptionsCircle (s : Bytes) : Prop where
  length : 20 < s.length
  dataOffset : 20 < tcpHeaderLength s
  circles : Fueled.Circles (TCPOption.Next (paddedArea s)) 0

theorem fromTCPHeader_halts_iff (s : Bytes) :
    (Fueled.Halts fun n => TCP.fromTCPHeader n s) ↔ ¬ OptionsCircle s := by
  by_cases h18 : 18 ≤ s.length
  · simp only [fromTCPHeader_eq _ h18]
    by_cases hopt : HasOptions s
    · have hne : paddedArea s ≠ [] := by
        apply List.ne_nil_of_length_pos
        rw [paddedArea, List.takeD_length]
        exact Nat.sub_pos_of_lt hopt.2
      simp only [if_pos hopt]
      rw [Fueled.halts_bind fun op => .pure _, TCPOption.fromByte_halts_iff hne]
      exact not_congr ⟨fun hc => ⟨hopt.1, hopt.2, hc⟩, fun hc => hc.circles⟩
    · -- without options, the parsed header is the fixed part
      simp only [if_neg hopt]
      refine iff_of_true (Fueled.Total.pure _).halts ?_
      intro hc
      exact hopt ⟨hc.length, hc.dataOffset⟩
  · obtain ⟨e, he⟩ := fixedPart_raises (not_le.1 h18)
    refine iff_of_true ⟨.error e, 0, ?_⟩ ?_
    · simp [TCP.fromTCPHeader, he]
    · intro hc
      have hlen := hc.length
      omega

/-- `transmissionLayerData`: the header takes at least twenty bytes. -/
def transmissionLayerData (p : Bytes) : Bytes := p.drop (max 20 (ipHeaderLength p))

theorem paddedHeader_getHeaderLength (p : Bytes) :
    (paddedHeader p).getHeaderLength = max 20 (ipHeaderLength p) := by
  unfold IPV4Header.getHeaderLength IPV4Header.optionLength paddedHeader
  by_cases hopt : 20 < ipHeaderLength p
  · simp only [hopt, if_true, Option.map_some, Option.getD_some, List.takeD_length]
    omega
  · simp only [hopt, if_false, Option.map_none, Option.getD_none]
    omega

theorem protocolOf_halts_iff (protocol : Byte) (s : Bytes) :
    (Fueled.Halts fun n => PacketManager.protocolOf n protocol s) ↔
      (protocol = TCP.PROTOCOL_NUMBER → ¬ OptionsCircle s) := by
  have htcp : (Fueled.Halts fun n => do
      return some (TransmissionProtocol.tcp (← TCP.fromTCPHeader n s))) ↔ ¬ OptionsCircle s := by
    rw [← fromTCPHeader_halts_iff]
    exact Fueled.halts_bind fun t => .pure _
  -- the other branches have no loop
  have hudp : Fueled.Halts fun _ => (do
      return some (TransmissionProtocol.udp (← Fueled.lift (UDP.fromHeaderBytes s))) :
        Fueled (Option TransmissionProtocol)) := by
    apply Fueled.Total.halts
    exact .lift_bind fun u => .pure _
  have hnone : Fueled.Halts fun _ => (pure none : Fueled (Option TransmissionProtocol)) :=
    (Fueled.Total.pure none).halts
  unfold PacketManager.protocolOf
  simp only [Fueled.halts_ite, htcp, hudp, hnone, implies_true, and_true]

/-- The packet is built, or an exception is raised, unless the options circle. -/
theorem newPacketV4_halts_iff (p : Bytes) (header : IPV4Header) :
    (Fueled.Halts fun n => PacketManager.newPacketV4 n p header) ↔
      (p.length ≤ MAX_SIZE → header.getHeaderLength ≤ p.length → header.mProtocol = TCP.PROTOCOL_NUMBER →
        ¬ OptionsCircle (p.drop header.getHeaderLength)) := by
  unfold PacketManager.newPacketV4
  by_cases hsize : MAX_SIZE < p.length
  · simp only [if_pos hsize]
    constructor
    · intro _ h
      omega
    · intro _
      exact ⟨.error .illegalArgument, 0, rfl⟩
  · simp only [if_neg hsize, Fueled.halts_lift_bind]
    -- behind the transport header nothing loops
    refine (forall₂_congr fun s _ => Fueled.halts_bind fun protocol => .lift_bind fun protocol =>
      .lift_bind fun dataOffset => .ite (.lift_bind fun _ => .lift_bind fun _ => .lift_bind fun _ => .pure _)
        (.pure _)).trans ?_
    simp only [protocolOf_halts_iff]
    by_cases hin : header.getHeaderLength ≤ p.length
    · have hseg : copyOfRange p header.getHeaderLength p.length = .ok (p.drop header.getHeaderLength) := by
        rw [copyOfRange_slice hin le_rfl, List.take_of_length_le (by simp)]
      rw [hseg]
      simp [hin, not_lt.1 hsize]
    · have hseg : copyOfRange p header.getHeaderLength p.length = .error .illegalArgument :=
        if_pos (by omega)
      rw [hseg]
      simp [hin]

/-! ## The datagrams that are answered -/

/-- The header is long enough for `fromHeaderByte`: the destination address starts in it,
and so do the options if the header length names any. -/
structure HeaderReads (p : Bytes) : Prop where
  address : 16 ≤ p.length
  options : 20 < ipHeaderLength p → 20 ≤ p.length

theorem fromHeaderByte_raises (h : ¬ HeaderReads p) : ∃ e, IPV4Header.fromHeaderByte p = .error e := by
  by_cases h16 : 16 ≤ p.length
  · -- only the options are out of reach
    have hopts : 20 < ipHeaderLength p ∧ p.length < 20 := by
      by_contra hc
      exact h ⟨h16, fun h => by omega⟩
    have hcopy : copyOfRange p 20 (ipHeaderLength p) = .error .arrayIndexOutOfBounds := by
      unfold copyOfRange
      rw [if_neg (by omega), if_pos (.inr (by omega))]
    rw [fromHeaderByte_fields h16, if_pos hopts.1, hcopy]
    exact ⟨_, rfl⟩
  · have hdest : copyOfRange p 16 20 = .error .arrayIndexOutOfBounds := by
      unfold copyOfRange
      rw [if_neg (by decide), if_pos (.inr (by omega))]
    unfold IPV4Header.fromHeaderByte
    rw [hdest]
    rcases copyOfRange p 12 16 with e | a
    · exact ⟨e, rfl⟩
    · exact ⟨_, rfl⟩

/-- **The datagrams that are answered**: those of another version than 4, and those whose
header can be read and whose TCP options, if there are any, do not circle. -/
def Answered (p : Bytes) : Prop :=
  (byteAt p 0).toNat / 16 = 4 → HeaderReads p ∧
    ¬ (p.length ≤ MAX_SIZE ∧ byteAt p 9 = TCP.PROTOCOL_NUMBER ∧ OptionsCircle (transmissionLayerData p))

theorem orNull_ends_iff {α : Type} {x : ℕ → Fueled α} :
    (∃ r, Fueled.Ends (fun n => PacketManager.orNull (x n)) (.ok r)) ↔ Fueled.Halts x := by
  constructor
  · rintro ⟨r, n, h⟩
    rcases hx : ExceptT.run (x n) with _ | r'
    · simp [PacketManager.orNull, hx] at h
    · exact ⟨r', n, hx⟩
  · rintro ⟨r, n, h⟩
    cases r with
    | error e => exact ⟨none, n, by simp [PacketManager.orNull, h]⟩
    | ok a => exact ⟨some a, n, by simp [PacketManager.orNull, h]⟩

theorem version_iff : ∀ b : Byte, (((b.signExtend 32).sshiftRight 4).setWidth 8 : Byte) = 4 ↔
    b.toNat / 16 = 4 := by decide +kernel

theorem generatePacketV4_ends_iff :
    (∃ r, Fueled.Ends (fun n => PacketManager.generatePacketV4 n p) (.ok r)) ↔ HeaderReads p ∧
      ¬ (p.length ≤ MAX_SIZE ∧ byteAt p 9 = TCP.PROTOCOL_NUMBER ∧ OptionsCircle (transmissionLayerData p)) := by
  unfold PacketManager.generatePacketV4
  rw [Fueled.ends_lift_bind]
  by_cases hread : HeaderReads p
  · have hheader := fromHeaderByte_padded hread.address hread.options
    have hlen := paddedHeader_getHeaderLength p
    simp only [hheader, Except.ok.injEq, exists_eq_left', orNull_ends_iff, newPacketV4_halts_iff, hlen,
      hread, true_and]
    constructor
    · rintro h ⟨hsize, htcp, hcircle⟩
      refine h hsize ?_ htcp hcircle
      -- an option area behind the header lies inside the datagram
      have := hcircle.length
      rw [transmissionLayerData, List.length_drop] at this
      omega
    · intro h hsize _ htcp hcircle
      exact h ⟨hsize, htcp, hcircle⟩
  · obtain ⟨e, he⟩ := fromHeaderByte_raises hread
    simp [he, hread]

theorem getPacket_ends_iff (hp : p ≠ []) :
    (∃ r, Fueled.Ends (fun n => PacketManager.getPacket n p) (.ok r)) ↔ Answered p := by
  have b0 := aget_byteAt (p := p) (i := 0) (List.length_pos_of_ne_nil hp)
  push_cast at b0
  unfold PacketManager.getPacket Answered
  rw [Fueled.ends_lift_bind, b0]
  simp only [Except.ok.injEq, exists_eq_left', version_iff]
  by_cases hv : (byteAt p 0).toNat / 16 = 4
  · simp only [hv, if_true, true_imp_iff]
    exact generatePacketV4_ends_iff
  · simp only [hv, if_false, false_imp_iff, iff_true]
    exact ⟨none, 0, rfl⟩

/-- **Which datagrams are answered.** `getPacket` returns null or a packet, and the reader of
the tun device goes on to what it reads next, for exactly these datagrams. -/
theorem getPacket_total_iff (hp : p ≠ []) :
    ((∃ r, Fueled.Ends (fun n => PacketManager.getPacket n p) (.ok r)) ∧
      ∀ datagrams packets, LocalReader.Reads datagrams packets →
        ∃ packets', LocalReader.Reads (p :: datagrams) packets') ↔ Answered p := by
  rw [← getPacket_ends_iff hp]
  constructor
  · exact fun h => h.1
  · rintro ⟨r, hr⟩
    exact ⟨⟨r, hr⟩, fun _ _ h => ⟨_, .send hp hr h⟩⟩

/-- A SYN from 10.0.0.2 to 93.184.216.34 whose only option is the one given. -/
def synWith (option : Bytes) : Bytes :=
  [0x45, 0, 0, 44, 0, 1, 0x40, 0, 64, 6, 0, 0, 10, 0, 0, 2, 93, 184, 216, 34] ++
    [0xC0, 1, 1, 187, 0, 0, 3, 232, 0, 0, 0, 0, 0x60, 2, 255, 255, 0, 0, 0, 0] ++ option

/-- A SYN with a maximum segment size is answered. -/
theorem mssSyn_total :
    (∃ r, Fueled.Ends (fun n => PacketManager.getPacket n (synWith [2, 4, 5, 180])) (.ok r)) ∧
      ∀ datagrams packets, LocalReader.Reads datagrams packets →
        ∃ packets', LocalReader.Reads (synWith [2, 4, 5, 180] :: datagrams) packets' := by
  refine (getPacket_total_iff (by decide)).2 fun _ => ⟨⟨by decide, by decide⟩, ?_⟩
  rintro ⟨-, -, -, -, hcircle⟩
  -- the only option ends where the area does
  have hlast : ∀ j, ¬ TCPOption.Next (paddedArea (transmissionLayerData (synWith [2, 4, 5, 180]))) 0 j := by
    rintro j ⟨-, -, heq, hlt⟩
    have hlength : TCPOption.optionLength (paddedArea (transmissionLayerData (synWith [2, 4, 5, 180]))) 0 = 4 := by
      decide +kernel
    have harea : (paddedArea (transmissionLayerData (synWith [2, 4, 5, 180]))).length = 4 := by decide +kernel
    omega
  exact Fueled.not_circles_of_last hlast hcircle

/-- **Not every datagram is answered.** A SYN that asks for a fast-open cookie, an option
the `switch` does not name, keeps the walk where it is; a datagram of one byte raises. -/
theorem fastOpenSyn_never_answered :
    ¬ (∃ r, Fueled.Ends (fun n => PacketManager.getPacket n (synWith [34, 2, 1, 1])) (.ok r)) ∧
      ¬ ∃ r, Fueled.Ends (fun n => PacketManager.getPacket n [0x45]) (.ok r) := by
  constructor
  · rw [getPacket_ends_iff (by decide)]
    intro h
    obtain ⟨-, hcircle⟩ := h (by decide)
    refine hcircle ⟨by decide, by decide, by decide, by decide, 0, .refl, .single ?_⟩
    refine ⟨by decide +kernel, ⟨?_, ?_, ?_⟩, by decide +kernel, by decide +kernel⟩
    · exact fun hk => absurd hk (by decide +kernel)
    · exact fun hk => absurd hk (by decide +kernel)
    · exact fun hk => absurd hk (by decide +kernel)
  · rw [getPacket_ends_iff (by decide)]
    intro h
    obtain ⟨hread, -⟩ := h (by decide)
    exact absurd hread.address (by decide)

/-- **The reader gets past what it reads iff every datagram is answered.** -/
theorem LocalReader.reads_iff (datagrams : List Bytes) :
    (∃ packets, LocalReader.Reads datagrams packets) ↔ ∀ p ∈ datagrams, p ≠ [] → Answered p := by
  induction datagrams with
  | nil => exact ⟨fun _ => by simp, fun _ => ⟨[], .nil⟩⟩
  | cons p datagrams ih =>
    constructor
    · rintro ⟨packets, h⟩
      cases h with
      | idle h =>
        have hrest := ih.1 ⟨_, h⟩
        simpa using hrest
      | send hp hr h =>
        have hrest := ih.1 ⟨_, h⟩
        have hhead := (getPacket_ends_iff hp).1 ⟨_, hr⟩
        simp only [List.mem_cons, forall_eq_or_imp]
        exact ⟨fun _ => hhead, hrest⟩
    · intro h
      obtain ⟨packets, hrest⟩ := ih.2 fun q hq => h q (List.mem_cons_of_mem _ hq)
      by_cases hp : p = []
      · subst hp
        exact ⟨packets, .idle hrest⟩
      · obtain ⟨r, hr⟩ := (getPacket_ends_iff hp).2 (h p List.mem_cons_self hp)
        exact ⟨_, .send hp hr hrest⟩

end SmartTunnel
