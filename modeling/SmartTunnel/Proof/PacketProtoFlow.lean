import SmartTunnel.Proof.PacketBuffer
import SmartTunnel.Proof.PacketProtoDecoder
import SmartTunnel.Model.PacketProtoFlow

/-!
# Packets to the client

There is one packet between the writer and the buffer, and it is in one of six places (`Place`). So what is written
is what was passed on, each packet behind its header, with what the buffer holds and the one on its way
(`flow_run`), and a decoder reads it back (`flow_decodes`).
-/

namespace SmartTunnel

open Jvm Memory

namespace PacketProtoFlow

open ChunkBuffer2
open PacketProtoDecoder (encode)

variable {mtu num dest : ℕ} {memory : ℕ → Byte} {o : PacketProtoFlow} {b : PacketBuffer} {data p : Bytes}
  {ps held pending : List Bytes} {e : Event}

theorem encode_injective : Function.Injective encode := by
  intro p q h
  exact (List.cons.inj (List.cons.inj h).2).2

/-- Where the packet is that the buffer asked for, and what it is once it was written. -/
inductive Place (o : PacketProtoFlow) : List Bytes → Prop
  /-- The buffer has not asked. -/
  | full (hreceiving : o.buffer.receiving = none) (houtput : o.output = .idle) (hpacket : o.outputPacket = none)
      (hinput : o.input = .idle) (hout : o.out = none) (hwriting : o.writing = false) : Place o []
  | asked (dest : ℕ) (hreceiving : o.buffer.receiving = some dest) (houtput : o.output = .operationPending dest)
      (hpacket : o.outputPacket = none) (hinput : o.input = .idle) (hout : o.out = none) (hwriting : o.writing = false) :
      Place o []
  | encoder (dest : ℕ) (hreceiving : o.buffer.receiving = some dest) (houtput : o.output = .busy)
      (hpacket : o.outputPacket = some dest) (hinput : o.input = .operationPending (dest + PACKETPROTO_HEADER))
      (hout : o.out = none) (hwriting : o.writing = false) : Place o []
  | writer (dest : ℕ) (hreceiving : o.buffer.receiving = some dest) (houtput : o.output = .busy)
      (hpacket : o.outputPacket = some dest) (hinput : o.input = .busy) (hout : o.out = some (dest + PACKETPROTO_HEADER)) :
      Place o []
  | written (dest : ℕ) (p : Bytes) (hreceiving : o.buffer.receiving = some dest) (houtput : o.output = .busy)
      (hpacket : o.outputPacket = some dest) (hinput : o.input = .donePending p.length) (hout : o.out = none)
      (hwriting : o.writing = false) (hlen : p.length ≤ o.mtu)
      (hload : load o.buffer.buf.buffer (dest + PACKETPROTO_HEADER) p.length = p) : Place o [p]
  | framed (dest : ℕ) (p : Bytes) (hreceiving : o.buffer.receiving = some dest)
      (houtput : o.output = .donePending (PACKETPROTO_ENCLEN p.length)) (hpacket : o.outputPacket = none)
      (hinput : o.input = .idle) (hout : o.out = none) (hwriting : o.writing = false) (hlen : p.length ≤ o.mtu)
      (hload : load o.buffer.buf.buffer dest (PACKETPROTO_ENCLEN p.length) = encode p) : Place o [p]

/-- The packets that were written and not passed on yet: the buffer holds them, and there may be one before it. -/
structure Inv (mtu num : ℕ) (memory : ℕ → Byte) (o : PacketProtoFlow) (held pending : List Bytes) : Prop where
  writerMtu : o.mtu = mtu
  buffer : PacketBuffer.Inv (PACKETPROTO_ENCLEN mtu) num memory o.buffer (held.map encode)
  place : Place o pending

/-- What the writer is done with. -/
def offered : Event → List Bytes
  | .endPacket data => [data]
  | _ => []

/-- What the output was given, when it is done with it. -/
def passed (o : PacketProtoFlow) : Event → List Bytes
  | .output => PacketBuffer.passed o.buffer .output
  | _ => []

theorem asks_frame (o : PacketProtoFlow) (b : PacketBuffer) : (o.asks b).mtu = o.mtu ∧ (o.asks b).buffer = b := by
  unfold asks
  split <;> exact ⟨rfl, rfl⟩

/-- Nothing is on its way until the buffer asks again. -/
theorem Place.asks (hreceiving : o.buffer.receiving = none) (houtput : o.output = .idle) (hpacket : o.outputPacket = none)
    (hinput : o.input = .idle) (hout : o.out = none) (hwriting : o.writing = false) (b : PacketBuffer) :
    Place (o.asks b) [] := by
  unfold PacketProtoFlow.asks
  rw [hreceiving]
  rcases hr : b.receiving with _ | dest
  · exact .full hr houtput hpacket hinput hout hwriting
  · exact .asked dest hr rfl hpacket hinput hout hwriting

theorem Inv.init (hinit : PacketProtoFlow.init mtu num memory = some o) (hsmall : BLOCK * o.buffer.buf.size ≤ INT_MAX) :
    Inv mtu num memory o [] [] := by
  obtain ⟨b, hb, rfl⟩ := Option.map_eq_some_iff.1 hinit
  obtain ⟨hmtu, hbuffer⟩ := asks_frame ⟨mtu, none, false, .idle, none, .idle, { b with receiving := none }⟩ b
  rw [hbuffer] at hsmall
  refine ⟨hmtu, ?_, .asks rfl rfl rfl rfl rfl rfl b⟩
  rw [hbuffer]
  exact PacketBuffer.Inv.init hb hsmall

theorem Inv.startPacket (h : Inv mtu num memory o held pending) : Inv mtu num memory o.startPacket held pending := by
  unfold PacketProtoFlow.startPacket
  split_ifs with hsome
  · refine ⟨h.writerMtu, h.buffer, ?_⟩
    have hplace := h.place
    cases hplace with
    | writer dest hreceiving houtput hpacket hinput hout => exact .writer dest hreceiving houtput hpacket hinput hout
    | full _ _ _ _ hout _ => simp [hout] at hsome
    | asked _ _ _ _ _ hout _ => simp [hout] at hsome
    | encoder _ _ _ _ _ hout _ => simp [hout] at hsome
    | written _ _ _ _ _ _ hout _ _ _ => simp [hout] at hsome
    | framed _ _ _ _ _ _ hout _ _ _ => simp [hout] at hsome
  · exact h

/-- While a packet is being written, the writer has what the buffer asked for. -/
theorem Inv.writing (h : Inv mtu num memory o held pending) (hwriting : o.writing = true) : pending = [] ∧ ∃ dest,
    o.buffer.receiving = some dest ∧ o.output = .busy ∧ o.outputPacket = some dest ∧ o.input = .busy ∧
    o.out = some (dest + PACKETPROTO_HEADER) := by
  have hplace := h.place
  cases hplace with
  | writer dest hreceiving houtput hpacket hinput hout => exact ⟨rfl, dest, hreceiving, houtput, hpacket, hinput, hout⟩
  | full _ _ _ _ _ hnot => simp [hnot] at hwriting
  | asked _ _ _ _ _ _ hnot => simp [hnot] at hwriting
  | encoder _ _ _ _ _ _ hnot => simp [hnot] at hwriting
  | written _ _ _ _ _ _ _ hnot _ _ => simp [hnot] at hwriting
  | framed _ _ _ _ _ _ _ hnot _ _ => simp [hnot] at hwriting

theorem Inv.put (h : Inv mtu num memory o held pending) (hwriting : o.writing = true) {offset : ℕ}
    (hlen : offset + data.length ≤ mtu) : Inv mtu num memory (o.put offset data) held pending := by
  obtain ⟨rfl, dest, hreceiving, houtput, hpacket, hinput, hout⟩ := h.writing hwriting
  have hput : o.put offset data = { o with buffer := o.buffer.put (dest + PACKETPROTO_HEADER + offset) data } := by
    unfold PacketProtoFlow.put
    rw [hout]
  rw [hput, Nat.add_assoc]
  exact ⟨h.writerMtu, h.buffer.put hreceiving (by unfold PACKETPROTO_ENCLEN; omega), .writer dest hreceiving houtput hpacket hinput hout⟩

theorem Inv.endPacket (h : Inv mtu num memory o held pending) (hwriting : o.writing = true) (hlen : data.length ≤ mtu) :
    o.Asserts (.endPacket data) ∧ pending = [] ∧ Inv mtu num memory (o.step (.endPacket data)) held [data] := by
  obtain ⟨rfl, dest, hreceiving, houtput, hpacket, hinput, hout⟩ := h.writing hwriting
  have hinv : Inv mtu num memory (o.put 0 data) held [] := h.put hwriting (by omega)
  have hput : o.put 0 data = { o with buffer := o.buffer.put (dest + PACKETPROTO_HEADER) data } := by
    unfold PacketProtoFlow.put
    rw [hout]
    rfl
  refine ⟨⟨h.writerMtu ▸ hlen, by rw [hout]; rfl, hwriting, hinput⟩, rfl, hinv.writerMtu, hinv.buffer, ?_⟩
  unfold PacketProtoFlow.step
  simp only
  rw [hput]
  exact .written dest data hreceiving houtput hpacket rfl rfl rfl (h.writerMtu ▸ hlen) (load_store ..)

/-- The job between the writer and the encoder: the packet is asked for, or it gets its header. -/
theorem Inv.inputJob (h : Inv mtu num memory o held pending) (hjob : o.input.Pending) :
    o.Asserts .inputJob ∧ Inv mtu num memory o.inputJob held pending := by
  have hplace := h.place
  cases hplace with
  | encoder dest hreceiving houtput hpacket hinput hout hwriting =>
    unfold Asserts PacketProtoFlow.inputJob
    rw [hinput]
    exact ⟨hout, h.writerMtu, h.buffer, .writer dest hreceiving houtput hpacket rfl rfl⟩
  | written dest p hreceiving houtput hpacket hinput hout hwriting hlen hload =>
    have hframe : PACKETPROTO_ENCLEN p.length ≤ PACKETPROTO_ENCLEN o.mtu := Nat.add_le_add_left hlen _
    have hput : PacketBuffer.Inv (PACKETPROTO_ENCLEN mtu) num memory (o.buffer.put (dest + 0) (header p.length)) (held.map encode) :=
      h.buffer.put hreceiving (by
        change 0 + 2 ≤ 2 + mtu
        omega)
    rw [Nat.add_zero] at hput
    have hjob' : o.inputJob = { o with
        input := .idle
        buffer := o.buffer.put dest (header p.length)
        outputPacket := none
        output := .donePending (PACKETPROTO_ENCLEN p.length) } := by
      unfold PacketProtoFlow.inputJob
      rw [hinput]
      simp only [encoderHandlerDone, hpacket]
    refine ⟨?_, ?_⟩
    · unfold Asserts
      rw [hinput]
      exact ⟨by rw [hpacket]; rfl, hframe, houtput⟩
    · rw [hjob']
      refine ⟨h.writerMtu, hput, .framed dest p hreceiving rfl rfl rfl hout hwriting hlen ?_⟩
      -- the header is what was written now, and the packet behind it is as it was
      refine (load_append _ dest PACKETPROTO_HEADER p.length).trans (congrArg₂ _ ?_ ?_)
      · exact load_store _ dest (header p.length)
      · exact (load_store_apart (.inr le_rfl)).trans hload
  | full _ _ _ hinput _ _ => simp [hinput, PacketRecvInterface.Pending] at hjob
  | asked _ _ _ _ hinput _ _ => simp [hinput, PacketRecvInterface.Pending] at hjob
  | writer _ _ _ _ hinput _ => simp [hinput, PacketRecvInterface.Pending] at hjob
  | framed _ _ _ _ _ hinput _ _ _ _ => simp [hinput, PacketRecvInterface.Pending] at hjob

/-- The job between the encoder and the buffer: the packet is asked for, or the buffer takes it. -/
theorem Inv.outputJob (h : Inv mtu num memory o held pending) (hjob : o.output.Pending) :
    o.Asserts .outputJob ∧ ∃ held' pending', held' ++ pending' = held ++ pending ∧
      Inv mtu num memory o.outputJob held' pending' := by
  have hplace := h.place
  cases hplace with
  | asked dest hreceiving houtput hpacket hinput hout hwriting =>
    unfold Asserts PacketProtoFlow.outputJob
    rw [houtput]
    exact ⟨⟨hpacket, hinput⟩, held, [], rfl, h.writerMtu, h.buffer, .encoder dest hreceiving rfl rfl rfl hout hwriting⟩
  | framed dest p hreceiving houtput hpacket hinput hout hwriting hlen hload =>
    have hlength : (encode p).length = PACKETPROTO_ENCLEN p.length := PacketProtoDecoder.encode_length p
    have hfits : (encode p).length ≤ PACKETPROTO_ENCLEN mtu := by
      rw [hlength, ← h.writerMtu]
      exact Nat.add_le_add_left hlen _
    obtain ⟨hasserts, hinv⟩ := h.buffer.inputHandlerDone hreceiving hfits
    rw [PacketBuffer.step_input hreceiving (hlength ▸ hload), hlength] at hinv
    constructor
    · unfold Asserts
      rw [houtput]
      exact ⟨dest, hreceiving, hload ▸ hasserts⟩
    · refine ⟨held ++ [p], [], List.append_nil _, ?_⟩
      unfold PacketProtoFlow.outputJob
      rw [houtput]
      simp only
      generalize hidle : ({ o with output := .idle, buffer := { o.buffer with receiving := none } } : PacketProtoFlow) = idle
      obtain ⟨hmtu, hbuffer⟩ := asks_frame idle (o.buffer.inputHandlerDone (PACKETPROTO_ENCLEN p.length))
      refine ⟨hmtu.trans ?_, ?_, ?_⟩
      · rw [← hidle]
        exact h.writerMtu
      · rw [hbuffer, List.map_append]
        exact hinv
      · refine .asks ?_ ?_ ?_ ?_ ?_ ?_ _ <;> rw [← hidle]
        · exact hpacket
        · exact hinput
        · exact hout
        · exact hwriting
  | full _ houtput _ _ _ _ => simp [houtput, PacketRecvInterface.Pending] at hjob
  | encoder _ _ houtput _ _ _ _ => simp [houtput, PacketRecvInterface.Pending] at hjob
  | writer _ _ houtput _ _ _ => simp [houtput, PacketRecvInterface.Pending] at hjob
  | written _ _ _ houtput _ _ _ _ _ _ => simp [houtput, PacketRecvInterface.Pending] at hjob

/-- The output is done with a packet; the one on its way stays where it is. -/
theorem Inv.output (h : Inv mtu num memory o (p :: held) pending) : o.Asserts .output ∧ passed o .output = [encode p] ∧
    Inv mtu num memory (o.step .output) held pending := by
  obtain ⟨hasserts, hinv, hpassed⟩ := h.buffer.outputHandlerDone
  obtain ⟨hmemory, hreceives⟩ := h.buffer.output_frame
  obtain ⟨hmtu, hbuffer⟩ := asks_frame o o.buffer.outputHandlerDone
  have hplace := h.place
  change o.buffer.outputHandlerDone.buf.buffer = _ at hmemory
  change ∀ dest, _ → o.buffer.outputHandlerDone.receiving = _ at hreceives
  have hidle : o.buffer.receiving = none → o.output = .idle := by
    intro hnone
    cases hplace with
    | full _ houtput _ _ _ _ => exact houtput
    | asked _ hreceiving _ _ _ _ _ => simp [hreceiving] at hnone
    | encoder _ hreceiving _ _ _ _ _ => simp [hreceiving] at hnone
    | writer _ hreceiving _ _ _ _ => simp [hreceiving] at hnone
    | written _ _ hreceiving _ _ _ _ _ _ _ => simp [hreceiving] at hnone
    | framed _ _ hreceiving _ _ _ _ _ _ _ => simp [hreceiving] at hnone
  have hkeeps : ∀ dest, o.buffer.receiving = some dest →
      o.asks o.buffer.outputHandlerDone = { o with buffer := o.buffer.outputHandlerDone } := by
    intro dest hreceiving
    unfold PacketProtoFlow.asks
    rw [hreceiving]
  refine ⟨⟨hasserts, hidle⟩, hpassed, hmtu.trans h.writerMtu, ?_, ?_⟩
  · change PacketBuffer.Inv _ num memory (o.asks o.buffer.outputHandlerDone).buffer _
    rw [hbuffer]
    exact hinv
  · change Place (o.asks o.buffer.outputHandlerDone) pending
    cases hplace with
    | full hreceiving houtput hpacket hinput hout hwriting =>
      exact .asks hreceiving houtput hpacket hinput hout hwriting _
    | asked dest hreceiving houtput hpacket hinput hout hwriting =>
      rw [hkeeps dest hreceiving]
      exact .asked dest (hreceives dest hreceiving) houtput hpacket hinput hout hwriting
    | encoder dest hreceiving houtput hpacket hinput hout hwriting =>
      rw [hkeeps dest hreceiving]
      exact .encoder dest (hreceives dest hreceiving) houtput hpacket hinput hout hwriting
    | writer dest hreceiving houtput hpacket hinput hout =>
      rw [hkeeps dest hreceiving]
      exact .writer dest (hreceives dest hreceiving) houtput hpacket hinput hout
    | written dest p hreceiving houtput hpacket hinput hout hwriting hlen hload =>
      rw [hkeeps dest hreceiving]
      exact .written dest p (hreceives dest hreceiving) houtput hpacket hinput hout hwriting hlen (hmemory ▸ hload)
    | framed dest p hreceiving houtput hpacket hinput hout hwriting hlen hload =>
      rw [hkeeps dest hreceiving]
      exact .framed dest p (hreceives dest hreceiving) houtput hpacket hinput hout hwriting hlen (hmemory ▸ hload)

/-- **What one event does**: no packet is lost, and none comes twice. -/
theorem Inv.step (h : Inv mtu num memory o held pending) (he : o.Allowed e) : o.Asserts e ∧ ∃ held' pending',
    Inv mtu num memory (o.step e) held' pending' ∧
    (held ++ pending ++ offered e).map encode = passed o e ++ (held' ++ pending').map encode := by
  cases e with
  | startPacket => exact ⟨trivial, held, pending, h.startPacket, by simp [offered, passed]⟩
  | write offset data => exact ⟨trivial, held, pending, h.put he.1 (h.writerMtu ▸ he.2), by simp [offered, passed]⟩
  | endPacket data =>
    obtain ⟨hasserts, rfl, hinv⟩ := h.endPacket he.1 (h.writerMtu ▸ he.2)
    exact ⟨hasserts, held, [data], hinv, by simp [offered, passed]⟩
  | inputJob =>
    obtain ⟨hasserts, hinv⟩ := h.inputJob he
    exact ⟨hasserts, held, pending, hinv, by simp [offered, passed]⟩
  | outputJob =>
    obtain ⟨hasserts, held', pending', heq, hinv⟩ := h.outputJob he
    exact ⟨hasserts, held', pending', hinv, by simp [offered, passed, heq]⟩
  | output =>
    rcases held with _ | ⟨p, held⟩
    · have hnone : o.buffer.sending = none := h.buffer.sending
      have hsome : o.buffer.sending.isSome = true := he
      simp [hnone] at hsome
    · obtain ⟨hasserts, hpassed, hinv⟩ := h.output
      exact ⟨hasserts, held, pending, hinv, by simp [offered, hpassed]⟩

/-- Where the packets are that were written. -/
theorem written_run (hinit : init mtu num memory = some o) (hsmall : BLOCK * o.buffer.buf.size ≤ INT_MAX) (es : List Event)
    (hes : Run.Always step Allowed o es) : ∃ sent held pending, Inv mtu num memory (Run.run step o es) held pending ∧
      es.flatMap offered = sent ++ (held ++ pending) ∧ Run.trace step passed o es = sent.map encode := by
  have hstep : ∀ o e l, (∃ held pending, Inv mtu num memory o held pending ∧ l = (held ++ pending).map encode) →
      o.Allowed e → ∃ left, (∃ held pending, Inv mtu num memory (o.step e) held pending ∧
        left = (held ++ pending).map encode) ∧ l ++ (offered e).map encode = passed o e ++ left := by
    rintro o e l ⟨held, pending, h, rfl⟩ he
    obtain ⟨-, held', pending', hinv, heq⟩ := h.step he
    exact ⟨_, ⟨held', pending', hinv, rfl⟩, by rw [← List.map_append, heq]⟩
  obtain ⟨left, ⟨held, pending, hinv, rfl⟩, heq⟩ := Run.exists_held hstep ⟨[], [], Inv.init hinit hsmall, rfl⟩ hes
  rw [List.nil_append, ← List.map_flatMap] at heq
  obtain ⟨sent, waiting, hall, hsent, hwaiting⟩ := List.map_eq_append_iff.1 heq
  obtain rfl := encode_injective.list_map hwaiting
  exact ⟨sent, held, pending, hinv, hall, hsent.symm⟩

/-- **Packets to the client are sent in order**, each once and behind its header. In every run what is asserted holds,
and `BufferWriter_StartPacket` fails only while a job is set or when the buffer holds the packets it was made for. -/
theorem flow_run (hinit : init mtu num memory = some o) (hsmall : BLOCK * o.buffer.buf.size ≤ INT_MAX) (es : List Event)
    (hes : Run.Always step Allowed o es) :
    Run.Always step Asserts o es ∧ ∃ sent waiting,
      es.flatMap offered = sent ++ waiting ∧ Run.trace step passed o es = sent.map encode ∧
      ((Run.run step o es).out = none → ¬ (Run.run step o es).input.Pending → ¬ (Run.run step o es).output.Pending →
        num ≤ waiting.length) := by
  constructor
  · refine Run.Always.of_invariant (I := fun o => ∃ held pending, Inv mtu num memory o held pending) ?_
      ⟨[], [], Inv.init hinit hsmall⟩ hes
    rintro o e ⟨held, pending, h⟩ he
    obtain ⟨hasserts, held', pending', hinv, -⟩ := h.step he
    exact ⟨hasserts, held', pending', hinv⟩
  · obtain ⟨sent, held, pending, hinv, hall, hsent⟩ := written_run hinit hsmall es hes
    refine ⟨sent, held ++ pending, hall, hsent, fun hout hinput houtput => ?_⟩
    have hplace := hinv.place
    cases hplace with
    | full hreceiving _ _ _ _ _ => simpa using hinv.buffer.full hreceiving
    | asked _ _ hpending _ _ _ _ => exact absurd (hpending ▸ trivial) houtput
    | encoder _ _ _ _ hpending _ _ => exact absurd (hpending ▸ trivial) hinput
    | writer _ _ _ _ _ hsome => simp [hsome] at hout
    | written _ _ _ _ _ hpending _ _ _ _ => exact absurd (hpending ▸ trivial) hinput
    | framed _ _ _ hpending _ _ _ _ _ _ => exact absurd (hpending ▸ trivial) houtput

/-- A flow for one packet of at most two bytes. -/
def narrow : PacketProtoFlow :=
  { mtu := 2, out := none, writing := false, input := .idle, outputPacket := none, output := .operationPending 4
    buffer := .receive { buf := .init (fun _ => 0) 4 4, inputMtu := 4, receiving := none, sending := none } }

/-- Two packets, the second of which is written while the first one is being sent. -/
def twoPackets : List Event :=
  [.outputJob, .inputJob, .startPacket, .write 0 [9], .endPacket [1, 2], .inputJob, .outputJob, .outputJob, .inputJob,
    .startPacket, .output, .endPacket [3], .inputJob, .outputJob, .output]

theorem twoPackets_allowed : Run.Always step Allowed narrow twoPackets := by decide

theorem flow_run_twoPackets : Run.Always step Asserts narrow twoPackets :=
  (flow_run (show init 2 1 (fun _ => 0) = some narrow from rfl) (by decide) twoPackets twoPackets_allowed).1

example : Run.trace step passed narrow twoPackets = [[2, 0, 1, 2], [1, 0, 3]] := by decide

theorem step_mtu (o : PacketProtoFlow) (e : Event) : (o.step e).mtu = o.mtu := by
  have hput : ∀ offset data, (o.put offset data).mtu = o.mtu := by
    intro offset data
    unfold put
    split <;> rfl
  cases e with
  | startPacket =>
    change o.startPacket.mtu = o.mtu
    unfold startPacket
    split_ifs <;> rfl
  | write offset data => exact hput offset data
  | endPacket data => exact hput 0 data
  | inputJob =>
    change o.inputJob.mtu = o.mtu
    unfold inputJob
    split
    · rfl
    · unfold encoderHandlerDone
      split <;> rfl
    · rfl
  | outputJob =>
    change o.outputJob.mtu = o.mtu
    unfold outputJob
    split
    · rfl
    · exact (asks_frame _ _).1
    · rfl
  | output => exact (asks_frame _ _).1

theorem offered_le {es : List Event} (hes : Run.Always step Allowed o es) : ∀ p ∈ es.flatMap offered, p.length ≤ o.mtu := by
  induction es generalizing o with
  | nil => simp
  | cons e es ih =>
    intro p hp
    rcases List.mem_append.1 (List.flatMap_cons ▸ hp) with hp | hp
    · cases e <;> simp only [offered, List.mem_singleton, List.not_mem_nil] at hp
      subst hp
      exact hes.1.2
    · exact step_mtu o e ▸ ih hes.2 p hp

/-- **A decoder reads the packets back**, wherever the stream is cut: it hands on the first of those that were written,
and all that were passed on when it waits for more. -/
theorem flow_decodes {mtu' : ℕ} {memory' : ℕ → Byte} (hinit : init mtu num memory = some o)
    (hsmall : BLOCK * o.buffer.buf.size ≤ INT_MAX) (hmtu : mtu ≤ min mtu' PACKETPROTO_MAXPAYLOAD) (es : List Event)
    (hes : Run.Always step Allowed o es) (ds : List PacketProtoDecoder.Event)
    (hds : Run.Always PacketProtoDecoder.Decoding.step PacketProtoDecoder.Decoding.Allowed (PacketProtoDecoder.init mtu' memory') ds)
    (hreceived : ds.flatMap PacketProtoDecoder.Event.bytes = (Run.trace step passed o es).flatten) :
    (Run.run PacketProtoDecoder.Decoding.step (PacketProtoDecoder.init mtu' memory') ds).packets <+: es.flatMap offered ∧
    ∀ room, (Run.run PacketProtoDecoder.Decoding.step (PacketProtoDecoder.init mtu' memory') ds).request = .recv room →
      (Run.run PacketProtoDecoder.Decoding.step (PacketProtoDecoder.init mtu' memory') ds).packets.length =
        (Run.trace step passed o es).length ∧
      (Run.run PacketProtoDecoder.Decoding.step (PacketProtoDecoder.init mtu' memory') ds).failed = false := by
  obtain ⟨sent, held, pending, -, hall, hsent⟩ := written_run hinit hsmall es hes
  have hsizes : ∀ p ∈ sent, p.length ≤ min mtu' PACKETPROTO_MAXPAYLOAD := by
    intro p hp
    have hle := offered_le hes p (hall ▸ List.mem_append_left _ hp)
    rw [(Inv.init hinit hsmall).writerMtu] at hle
    exact hle.trans hmtu
  rw [hsent, ← List.flatMap_def, ← List.append_nil (sent.flatMap encode)] at hreceived
  obtain ⟨hfront, -, hrecv⟩ := (PacketProtoDecoder.decodes_run mtu' memory' ds hds).decoded hsizes
    (.inl (.inl (by decide))) hreceived
  refine ⟨hfront.trans (hall ▸ List.prefix_append _ _), fun room hroom => ?_⟩
  obtain ⟨heq, -, hfailed⟩ := hrecv room hroom
  refine ⟨by rw [heq, hsent, List.length_map], ?_⟩
  by_contra hfail
  have hlong := hfailed.1 (by simpa using hfail)
  exact absurd hlong.1 (by decide)

/-- The two packets, the first one in two pieces. -/
def readsBack : List PacketProtoDecoder.Event :=
  [.input [2, 0, 1], .input [2], .output, .input [1, 0, 3], .output]

theorem readsBack_allowed :
    Run.Always PacketProtoDecoder.Decoding.step PacketProtoDecoder.Decoding.Allowed (PacketProtoDecoder.init 2 fun _ => 0) readsBack :=
  ⟨⟨rfl, by decide, 4, rfl, by decide⟩, ⟨rfl, by decide, 1, rfl, by decide⟩, ⟨rfl, [1, 2], rfl⟩,
    ⟨rfl, by decide, 4, rfl, by decide⟩, ⟨rfl, [3], rfl⟩, trivial⟩

theorem flow_decodes_twoPackets :
    (Run.run PacketProtoDecoder.Decoding.step (PacketProtoDecoder.init 2 fun _ => 0) readsBack).packets <+:
      twoPackets.flatMap offered :=
  (flow_decodes (show init 2 1 (fun _ => 0) = some narrow from rfl) (by decide) (by decide) twoPackets twoPackets_allowed
    readsBack readsBack_allowed (by decide)).1

end PacketProtoFlow

end SmartTunnel
