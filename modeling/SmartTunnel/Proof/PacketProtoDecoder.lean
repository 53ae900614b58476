import SmartTunnel.Model.PacketProtoDecoder

/-!
# What the decoder hands on

`window` are the bytes a decoder holds. What came in is always the frames of the packets that were handed on, and
the window behind them (`Inv`), wherever the stream was cut. When the decoder asks for bytes the window starts no
packet that is complete, and there is room for at least one byte (`decodes_run`). So a stream of frames gives back
its packets, up to the first that is longer than the decoder takes (`decodes_frames`).
-/

namespace SmartTunnel

open Jvm

namespace PacketProtoDecoder

/-- The bytes that were received and not processed. -/
def window (enc : PacketProtoDecoder) : Bytes := readAt enc.buf enc.bufStart enc.bufUsed

/-- Not a whole packet yet. -/
def Incomplete (mtu : ℕ) (w : Bytes) : Prop := w.length < 2 ∨ headerLen w ≤ mtu ∧ w.length < 2 + headerLen w

/-- A header that announces too much. -/
def TooLong (mtu : ℕ) (w : Bytes) : Prop := 2 ≤ w.length ∧ mtu < headerLen w

/-- The buffer has room for one packet with its header, and what it holds lies inside. -/
structure Fits (enc : PacketProtoDecoder) : Prop where
  length : enc.buf.length = enc.bufSize
  size : enc.bufSize = 2 + enc.outputMtu
  mtu : enc.outputMtu < 65536
  inside : enc.bufStart + enc.bufUsed ≤ enc.bufSize

variable {enc : PacketProtoDecoder} {data w rest : Bytes} {mtu : ℕ}

/-! ## The buffer -/

theorem length_readAt {buf : Bytes} {start len : ℕ} (h : start + len ≤ buf.length) : (readAt buf start len).length = len := by
  unfold readAt
  rw [List.length_take, List.length_drop]
  omega

theorem length_writeAt (buf : Bytes) (start : ℕ) (data : Bytes) : (writeAt buf start data).length = buf.length := by
  unfold writeAt
  simp only [List.length_take, List.length_append, List.length_drop]
  omega

/-- What is written stands behind what was there before it. -/
theorem readAt_writeAt {buf : Bytes} {start used : ℕ} (h : start + used + data.length ≤ buf.length) :
    readAt (writeAt buf (start + used) data) start (used + data.length) = readAt buf start used ++ data := by
  have hlen : (buf.take (start + used) ++ data ++ buf.drop (start + used + data.length)).length = buf.length := by
    simp only [List.length_append, List.length_take, List.length_drop]
    omega
  unfold readAt writeAt
  rw [List.take_of_length_le hlen.le, List.append_assoc, List.drop_append_of_le_length (by rw [List.length_take]; omega),
    List.drop_take, Nat.add_sub_cancel_left, ← List.append_assoc]
  have hfront : (List.take used (List.drop start buf) ++ data).length = used + data.length := by
    simp only [List.length_append, List.length_take, List.length_drop]
    omega
  rw [← hfront, List.take_left]

theorem readAt_writeAt_zero {buf : Bytes} (h : data.length ≤ buf.length) :
    readAt (writeAt buf 0 data) 0 data.length = data := by
  have hroom : 0 + 0 + data.length ≤ buf.length := by omega
  have := readAt_writeAt hroom
  simpa [readAt] using this

theorem Fits.window_length (h : Fits enc) : enc.window.length = enc.bufUsed :=
  length_readAt (h.length ▸ h.inside)

theorem Fits.wrap (h : Fits enc) : Fits enc.wrap ∧ enc.wrap.window = enc.window ∧ enc.wrap.outputMtu = enc.outputMtu := by
  have hw := h.window_length
  have h1 := h.length
  have h2 := h.inside
  unfold PacketProtoDecoder.wrap
  split
  · refine ⟨⟨?_, h.size, h.mtu, ?_⟩, ?_, rfl⟩
    · rw [← h.length, length_writeAt]
    · simp only
      omega
    · change readAt (writeAt enc.buf 0 enc.window) 0 enc.bufUsed = enc.window
      conv_lhs => rw [← hw]
      exact readAt_writeAt_zero (by omega)
  · exact ⟨h, rfl, rfl⟩

/-- Behind the window of a wrapped buffer there is room, unless the window fills all of it. -/
theorem Fits.room (h : Fits enc) (hused : enc.bufUsed < enc.bufSize) :
    ∃ room, enc.wrap.receive = .recv room ∧ 0 < room ∧ enc.wrap.bufStart + enc.wrap.bufUsed + room = enc.bufSize := by
  have h2 := h.inside
  refine ⟨_, rfl, ?_⟩
  unfold PacketProtoDecoder.wrap
  split
  · simp only
    omega
  · omega

/-! ## Headers -/

theorem headerLen_encode (h : data.length < 65536) (rest : Bytes) : headerLen (encode data ++ rest) = data.length := by
  unfold headerLen encode
  simp only [List.cons_append, List.getD_cons_zero, List.getD_cons_succ, BitVec.toNat_ofNat]
  omega

theorem encode_length (data : Bytes) : (encode data).length = 2 + data.length := by
  simp [encode]
  omega

/-- The header counts the bytes behind it. -/
theorem headerLen_take (w : Bytes) : headerLen (w.take 2) = headerLen w := by
  unfold headerLen
  rw [List.getD_eq_getElem?_getD, List.getD_eq_getElem?_getD, List.getElem?_take, List.getElem?_take]
  rfl

/-- **A window that holds a whole packet** starts with its frame. -/
theorem eq_encode (h : 2 + headerLen w ≤ w.length) :
    w = encode ((w.drop 2).take (headerLen w)) ++ w.drop (2 + headerLen w) := by
  match w with
  | [] => simp at h
  | [a] =>
    simp only [List.length_singleton] at h
    omega
  | a :: b :: w =>
    have ha := a.isLt
    have hb := b.isLt
    have hlen : headerLen (a :: b :: w) = a.toNat + 256 * b.toNat := rfl
    have htake : (w.take (headerLen (a :: b :: w))).length = a.toNat + 256 * b.toNat := by
      rw [List.length_take, hlen]
      simp only [hlen, List.length_cons] at h
      omega
    have h1 : (a.toNat + 256 * b.toNat) % 256 = a.toNat := by omega
    have h2 : (a.toNat + 256 * b.toNat) / 256 = b.toNat := by omega
    rw [Nat.add_comm, List.drop_succ_cons, List.drop_succ_cons, List.drop_zero, encode, htake, h1, h2]
    simp

/-- What a stream ends with when no packet can be cut off it any more. -/
def Stuck (mtu : ℕ) (w : Bytes) : Prop := Incomplete mtu w ∨ TooLong mtu w

theorem not_stuck_encode (hmtu : mtu < 65536) (hdata : data.length ≤ mtu) (rest : Bytes) : ¬ Stuck mtu (encode data ++ rest) := by
  have hheader := headerLen_encode (show data.length < 65536 by omega) rest
  have hlen : (encode data ++ rest).length = 2 + data.length + rest.length := by
    rw [List.length_append, encode_length]
  rintro ((h | ⟨-, h⟩) | ⟨-, h⟩) <;> omega

/-- **A stream is cut in one way.** -/
theorem frames_unique (hmtu : mtu < 65536) {ps qs : List Bytes} (hps : ∀ p ∈ ps, p.length ≤ mtu)
    (hqs : ∀ q ∈ qs, q.length ≤ mtu) (hrest : Stuck mtu rest) (h : qs.flatMap encode ++ w = ps.flatMap encode ++ rest) :
    ∃ more, ps = qs ++ more ∧ w = more.flatMap encode ++ rest := by
  induction qs generalizing ps with
  | nil => exact ⟨ps, rfl, h⟩
  | cons q qs ih =>
    rw [List.forall_mem_cons] at hqs
    rw [List.flatMap_cons, List.append_assoc] at h
    match ps with
    | [] =>
      rw [List.flatMap_nil, List.nil_append] at h
      exact absurd (h ▸ hrest) (not_stuck_encode hmtu hqs.1 _)
    | p :: ps =>
      rw [List.forall_mem_cons] at hps
      rw [List.flatMap_cons, List.append_assoc] at h
      have hlen : q.length = p.length := by
        rw [← headerLen_encode (show q.length < 65536 by omega) (qs.flatMap encode ++ w), h, headerLen_encode (by omega)]
      obtain ⟨h1, h2⟩ := List.append_inj h (by rw [encode_length, encode_length, hlen])
      have hqp : q = p := by simpa [encode, hlen] using h1
      obtain ⟨more, hmore, hw⟩ := ih hps.2 hqs.2 h2
      exact ⟨more, by rw [hmore, hqp, List.cons_append], hw⟩

/-! ## A step -/

/-- **What `process_data` does** with a window: it asks for more when no packet is complete, it fails when the
packet is too long, and it hands on a whole packet. -/
theorem processData_cases (h : Fits enc) :
    (processData enc = (enc.wrap.receive, false, enc.wrap) ∧ Incomplete enc.outputMtu enc.window) ∨
    (processData enc = (enc.reset.receive, true, enc.reset) ∧ TooLong enc.outputMtu enc.window) ∨
    ∃ data enc', processData enc = (.send data, false, enc') ∧ Fits enc' ∧ enc'.outputMtu = enc.outputMtu ∧
      data.length ≤ enc.outputMtu ∧ enc.window = encode data ++ enc'.window := by
  have hw := h.window_length
  have hin := h.inside
  have hlen := h.length
  unfold processData PACKETPROTO_HEADER
  by_cases hshort : enc.bufUsed < 2
  · rw [if_pos hshort]
    exact .inl ⟨rfl, .inl (by omega)⟩
  · have hheader : headerLen (readAt enc.buf enc.bufStart 2) = headerLen enc.window := by
      rw [← headerLen_take enc.window]
      unfold window readAt
      rw [List.take_take, min_eq_left (by omega)]
    rw [if_neg hshort, hheader]
    simp only
    by_cases hlong : enc.outputMtu < headerLen enc.window
    · rw [if_pos hlong]
      exact .inr (.inl ⟨rfl, by omega, hlong⟩)
    · rw [if_neg hlong]
      by_cases hleft : enc.bufUsed - 2 < headerLen enc.window
      · rw [if_pos hleft]
        exact .inl ⟨rfl, .inr ⟨by omega, by omega⟩⟩
      · rw [if_neg hleft]
        refine .inr (.inr ⟨_, _, rfl, ⟨h.length, h.size, h.mtu, ?_⟩, rfl, ?_, ?_⟩)
        · simp only
          omega
        · rw [length_readAt (by omega)]
          omega
        · -- the packet and the rest of the window, read from the buffer
          have hdata : readAt enc.buf (enc.bufStart + 2) (headerLen enc.window) =
              (enc.window.drop 2).take (headerLen enc.window) := by
            unfold window readAt
            rw [List.drop_take, List.drop_drop, List.take_take, min_eq_left (by unfold window readAt at hleft; omega)]
          have hrest : readAt enc.buf (enc.bufStart + (2 + headerLen enc.window))
              (enc.bufUsed - (2 + headerLen enc.window)) = enc.window.drop (2 + headerLen enc.window) := by
            unfold window readAt
            rw [List.drop_take, List.drop_drop]
          rw [hdata]
          change enc.window = encode _ ++ readAt enc.buf (enc.bufStart + (2 + headerLen enc.window)) _
          rw [hrest]
          exact eq_encode (by omega)

/-- What holds of a decoder that takes packets of `mtu` bytes, when it was given the bytes `received`. -/
structure Inv (mtu : ℕ) (received : Bytes) (s : Decoding) : Prop where
  fits : Fits s.enc
  takes : s.enc.outputMtu = mtu
  packets : ∀ p ∈ s.packets, p.length ≤ mtu
  fine : s.failed = false → received = s.packets.flatMap encode ++ s.enc.window
  bad : s.failed = true → ∃ rest, received = s.packets.flatMap encode ++ rest ∧ TooLong mtu rest
  /-- It asks for no more bytes than there is room for, and at least for one. -/
  asks : ∀ room, s.request = .recv room → 0 < room ∧ s.enc.bufStart + s.enc.bufUsed + room = s.enc.bufSize
  /-- It does not ask while there is a complete packet. -/
  waits : s.failed = false → ∀ room, s.request = .recv room → Incomplete mtu s.enc.window

variable {s : Decoding} {received : Bytes}

/-- What `process_data` keeps, of a decoder that holds what is not handed on. -/
theorem Inv.note (h : Fits enc) (htakes : enc.outputMtu = mtu) (hpackets : ∀ p ∈ s.packets, p.length ≤ mtu)
    (hreceived : received = s.packets.flatMap encode ++ enc.window) : Inv mtu received (s.note (processData enc)) := by
  subst htakes
  have hw := h.window_length
  rcases processData_cases h with ⟨heq, hmore⟩ | ⟨heq, hlong⟩ | ⟨data, enc', heq, hfits, hmtu, hle, hwindow⟩
  · obtain ⟨hfits, hwindow, hmtu⟩ := h.wrap
    have hused : enc.bufUsed < enc.bufSize := by
      have := h.size
      rcases hmore with hmore | hmore <;> omega
    obtain ⟨room, hroom, hpos, hinside⟩ := h.room hused
    have hsize : enc.wrap.bufSize = enc.bufSize := by
      unfold PacketProtoDecoder.wrap
      split <;> rfl
    rw [heq, hroom]
    refine ⟨hfits, hmtu, hpackets, fun _ => ?_, (fun hfail => by cases hfail), ?_, ?_⟩
    · change received = s.packets.flatMap encode ++ enc.wrap.window
      rwa [hwindow]
    · rintro _ ⟨⟩
      exact ⟨hpos, hsize ▸ hinside⟩
    · rintro _ _ ⟨⟩
      change Incomplete enc.outputMtu enc.wrap.window
      rwa [hwindow]
  · rw [heq]
    refine ⟨⟨h.length, h.size, h.mtu, Nat.zero_le _⟩, rfl, hpackets, (fun hfail => by cases hfail),
      fun _ => ⟨enc.window, hreceived, hlong⟩, ?_, (fun hfail => by cases hfail)⟩
    rintro _ ⟨⟩
    have hsize := h.size
    simp only [Decoding.note, receive, reset]
    omega
  · rw [heq]
    refine ⟨hfits, hmtu, ?_, fun _ => ?_, (fun hfail => by cases hfail), ?_, ?_⟩
    · simp only [Decoding.note, List.mem_append, List.mem_singleton]
      rintro p (hp | rfl)
      · exact hpackets p hp
      · exact hle
    · simp only [Decoding.note, List.flatMap_append, List.flatMap_singleton, List.append_assoc]
      rw [hreceived, hwindow]
    · rintro _ ⟨⟩
    · rintro _ _ ⟨⟩

theorem Inv.init (mtu : ℕ) (memory : ℕ → Byte) : Inv (min mtu PACKETPROTO_MAXPAYLOAD) [] (init mtu memory) := by
  refine ⟨⟨?_, rfl, ?_, Nat.zero_le _⟩, rfl, by simp [PacketProtoDecoder.init], fun _ => ?_, (fun hfail => by cases hfail),
    ?_, ?_⟩
  · simp [PacketProtoDecoder.init]
  · simp only [PacketProtoDecoder.init, PACKETPROTO_MAXPAYLOAD]
    omega
  · simp [PacketProtoDecoder.init, window, readAt]
  · rintro _ ⟨⟩
    simp [PacketProtoDecoder.init, PACKETPROTO_ENCLEN, PACKETPROTO_HEADER]
  · intro _ _ _
    simp [PacketProtoDecoder.init, window, readAt, Incomplete]

theorem Inv.step (h : Inv mtu received s) (e : Event) (he : s.Allowed e) : Inv mtu (received ++ e.bytes) (s.step e) := by
  cases e with
  | output =>
    obtain ⟨hfailed, -⟩ := he
    rw [Event.bytes, List.append_nil]
    exact .note h.fits h.takes h.packets (h.fine hfailed)
  | input data =>
    obtain ⟨hfailed, -, room, hrequest, hlen⟩ := he
    obtain ⟨-, hroom⟩ := h.asks room hrequest
    have hsize := h.fits.length
    have hwrite : s.enc.bufStart + s.enc.bufUsed + data.length ≤ s.enc.buf.length := by omega
    refine .note ⟨?_, h.fits.size, h.fits.mtu, ?_⟩ h.takes h.packets ?_
    · rw [length_writeAt]
      exact hsize
    · simp only
      omega
    · rw [h.fine hfailed, List.append_assoc]
      congr 1
      exact (readAt_writeAt hwrite).symm

/-- **A decoder that was run** on a stream, wherever it was cut. -/
theorem decodes_run (mtu : ℕ) (memory : ℕ → Byte) (es : List Event)
    (hes : Run.Always Decoding.step Decoding.Allowed (init mtu memory) es) :
    Inv (min mtu PACKETPROTO_MAXPAYLOAD) (es.flatMap Event.bytes) (Run.run Decoding.step (init mtu memory) es) := by
  have hrun : ∀ (s : Decoding) (received : Bytes), Inv (min mtu PACKETPROTO_MAXPAYLOAD) received s →
      Run.Always Decoding.step Decoding.Allowed s es →
      Inv (min mtu PACKETPROTO_MAXPAYLOAD) (received ++ es.flatMap Event.bytes) (Run.run Decoding.step s es) := by
    clear hes
    induction es with
    | nil =>
      intro s received h _
      simpa using h
    | cons e es ih =>
      intro s received h hes
      rw [List.flatMap_cons, ← List.append_assoc]
      exact ih _ _ (h.step e hes.1) hes.2
  simpa using hrun _ _ (Inv.init mtu memory) hes

/-- What is behind the packets that a decoder handed on, when it stopped at `w`. -/
theorem Inv.behind (h : Inv mtu received s) {ps : List Bytes} (hps : ∀ p ∈ ps, p.length ≤ mtu) (hrest : Stuck mtu rest)
    (hreceived : received = ps.flatMap encode ++ rest) (hw : received = s.packets.flatMap encode ++ w) :
    s.packets <+: ps ∧ (Stuck mtu w → s.packets = ps ∧ w = rest) := by
  have hlt : mtu < 65536 := h.takes ▸ h.fits.mtu
  obtain ⟨more, hmore, heq⟩ := frames_unique hlt hps h.packets hrest (hw.symm.trans hreceived)
  refine ⟨⟨more, hmore.symm⟩, fun hstuck => ?_⟩
  match more with
  | [] => exact ⟨by simpa using hmore.symm, by simpa using heq⟩
  | p :: more =>
    rw [List.flatMap_cons, List.append_assoc] at heq
    have hp := hps p (by rw [hmore]; simp)
    exact absurd (heq ▸ hstuck) (not_stuck_encode hlt hp _)

/-- What a decoder has handed on of a stream of packets, up to one that is not complete or too long. -/
theorem Inv.decoded (h : Inv mtu received s) {ps : List Bytes} (hps : ∀ p ∈ ps, p.length ≤ mtu) (hrest : Stuck mtu rest)
    (hreceived : received = ps.flatMap encode ++ rest) :
    s.packets <+: ps ∧ (s.failed = true → TooLong mtu rest) ∧
    ∀ room, s.request = .recv room → s.packets = ps ∧ 0 < room ∧ (s.failed = true ↔ TooLong mtu rest) := by
  by_cases hfailed : s.failed = true
  · obtain ⟨bad, hbad, hlong⟩ := h.bad hfailed
    obtain ⟨hfront, hall⟩ := h.behind hps hrest hreceived hbad
    obtain ⟨heq, hw⟩ := hall (.inr hlong)
    exact ⟨hfront, fun _ => hw ▸ hlong, fun room hroom => ⟨heq, (h.asks room hroom).1, iff_of_true hfailed (hw ▸ hlong)⟩⟩
  · have hfine := h.fine (by simpa using hfailed)
    obtain ⟨hfront, hall⟩ := h.behind hps hrest hreceived hfine
    refine ⟨hfront, fun hfail => absurd hfail hfailed, fun room hroom => ?_⟩
    have hincomplete := h.waits (by simpa using hfailed) room hroom
    obtain ⟨heq, hw⟩ := hall (.inl hincomplete)
    refine ⟨heq, (h.asks room hroom).1, iff_of_false hfailed ?_⟩
    rintro ⟨h1, h2⟩
    rw [← hw] at h1 h2
    rcases hincomplete with h | h <;> omega

/-- **What a decoder makes of a stream**: packets of at most its maximum length, each behind its header, and behind
them the start of one that is not complete or too long. Wherever the stream is cut, it hands on these packets, in
order; when it waits for more bytes it has handed on all of them, it has room for at least one, and it has failed
exactly when a packet is too long. -/
theorem decodes_frames (mtu : ℕ) (memory : ℕ → Byte) {ps : List Bytes} {rest : Bytes}
    (hps : ∀ p ∈ ps, p.length ≤ min mtu PACKETPROTO_MAXPAYLOAD) (hrest : Stuck (min mtu PACKETPROTO_MAXPAYLOAD) rest)
    (es : List Event) (hes : Run.Always Decoding.step Decoding.Allowed (init mtu memory) es)
    (hreceived : es.flatMap Event.bytes = ps.flatMap encode ++ rest) :
    (Run.run Decoding.step (init mtu memory) es).packets <+: ps ∧
    ∀ room, (Run.run Decoding.step (init mtu memory) es).request = .recv room →
      (Run.run Decoding.step (init mtu memory) es).packets = ps ∧ 0 < room ∧
      ((Run.run Decoding.step (init mtu memory) es).failed = true ↔ TooLong (min mtu PACKETPROTO_MAXPAYLOAD) rest) := by
  obtain ⟨hfront, -, hall⟩ := (decodes_run mtu memory es hes).decoded hps hrest hreceived
  exact ⟨hfront, hall⟩

/-- A packet of three bytes that comes in two pieces, and the first byte of the next one. -/
def pieces : List Event :=
  [.input [3, 0], .input [7, 8, 9, 2], .output]

theorem pieces_allowed : Run.Always Decoding.step Decoding.Allowed (init 4 fun _ => 0) pieces :=
  ⟨⟨rfl, by decide, 6, rfl, by decide⟩, ⟨rfl, by decide, 4, rfl, by decide⟩, ⟨rfl, [7, 8, 9], rfl⟩, trivial⟩

theorem decodes_frames_pieces :
    (Run.run Decoding.step (init 4 fun _ => 0) pieces).packets <+: [[7, 8, 9]] ∧
    ∀ room, (Run.run Decoding.step (init 4 fun _ => 0) pieces).request = .recv room →
      (Run.run Decoding.step (init 4 fun _ => 0) pieces).packets = [[7, 8, 9]] ∧ 0 < room ∧
      ((Run.run Decoding.step (init 4 fun _ => 0) pieces).failed = true ↔ TooLong 4 [2]) :=
  decodes_frames 4 (fun _ => 0) (by decide) (.inl (.inl (by decide))) pieces pieces_allowed (by decide)

end PacketProtoDecoder

end SmartTunnel
