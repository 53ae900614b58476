import SmartTunnel.Model.PacketBuffer
import SmartTunnel.Model.PacketProtoDecoder

/-!
# `PacketProtoFlow`

What a connection of udpgw sends to the client is written to a `BufferWriter`, gets its header in a
`PacketProtoEncoder` and waits in a `PacketBuffer`. They are joined by two interfaces through which one asks the other
for a packet (`PacketRecvInterface`). A call through an interface is a job that runs later, so a run is a sequence of
jobs and of what the writer's user and the buffer's output do (`Event`).
-/

namespace SmartTunnel

open Jvm

/-- The state of an interface, with what its job was given. -/
inductive PacketRecvInterface
  | idle
  | operationPending (data : ℕ)
  | busy
  | donePending (len : ℕ)
  deriving DecidableEq, Repr

/-- A job is set. -/
def PacketRecvInterface.Pending : PacketRecvInterface → Prop
  | .operationPending _ => True
  | .donePending _ => True
  | _ => False

instance (i : PacketRecvInterface) : Decidable i.Pending := by
  cases i <;> unfold PacketRecvInterface.Pending <;> infer_instance

structure PacketProtoFlow where
  /-- `d_mtu` of the writer. -/
  mtu : ℕ
  /-- Where a packet is to be written, when the writer was asked for one (`out_have`). -/
  out : Option ℕ
  writing : Bool
  /-- Between the writer and the encoder. -/
  input : PacketRecvInterface
  outputPacket : Option ℕ
  /-- Between the encoder and the buffer. -/
  output : PacketRecvInterface
  buffer : PacketBuffer

namespace PacketProtoFlow

/-! ## `BufferWriter` -/

/-- `output_handler_recv` of the writer. -/
def writerHandlerRecv (o : PacketProtoFlow) (data : ℕ) : PacketProtoFlow := { o with out := some data }

/-- `BufferWriter_StartPacket`, which returns 0 when `out` is `none`. -/
def startPacket (o : PacketProtoFlow) : PacketProtoFlow := if o.out.isSome then { o with writing := true } else o

/-- `BufferWriter_EndPacket`. -/
def endPacket (o : PacketProtoFlow) (len : ℕ) : PacketProtoFlow :=
  { o with out := none, input := .donePending len, writing := false }

/-! ## `PacketProtoEncoder` -/

/-- `output_handler_recv` of the encoder. -/
def encoderHandlerRecv (o : PacketProtoFlow) (data : ℕ) : PacketProtoFlow :=
  { o with outputPacket := some data, input := .operationPending (data + PACKETPROTO_HEADER) }

/-- `pp`, a header. -/
def header (len : ℕ) : Bytes := [BitVec.ofNat 8 (len % 256), BitVec.ofNat 8 (len / 256)]

/-- `input_handler_done` of the encoder. -/
def encoderHandlerDone (o : PacketProtoFlow) (inLen : ℕ) : PacketProtoFlow :=
  match o.outputPacket with
  | some dest =>
    { o with
      buffer := o.buffer.put dest (header inLen)
      outputPacket := none
      output := .donePending (PACKETPROTO_ENCLEN inLen) }
  | none => o

/-! ## The jobs -/

/-- The job of the interface between the writer and the encoder. -/
def inputJob (o : PacketProtoFlow) : PacketProtoFlow :=
  match o.input with
  | .operationPending data => { o with input := .busy }.writerHandlerRecv data
  | .donePending len => { o with input := .idle }.encoderHandlerDone len
  | _ => o

/-- When the buffer asks for a packet, a job is set. -/
def asks (o : PacketProtoFlow) (buffer : PacketBuffer) : PacketProtoFlow :=
  match o.buffer.receiving, buffer.receiving with
  | none, some dest => { o with output := .operationPending dest, buffer := buffer }
  | _, _ => { o with buffer := buffer }

/-- The job of the interface between the encoder and the buffer. -/
def outputJob (o : PacketProtoFlow) : PacketProtoFlow :=
  match o.output with
  | .operationPending data => { o with output := .busy }.encoderHandlerRecv data
  | .donePending len =>
    { o with output := .idle, buffer := { o.buffer with receiving := none } }.asks (o.buffer.inputHandlerDone len)
  | _ => o

/-- `PacketProtoFlow_Init`. -/
def init (inputMtu numPackets : ℕ) (memory : ℕ → Byte) : Option PacketProtoFlow :=
  (PacketBuffer.init (PACKETPROTO_ENCLEN inputMtu) numPackets memory).map fun buffer =>
    asks
      { mtu := inputMtu
        out := none
        writing := false
        input := .idle
        outputPacket := none
        output := .idle
        buffer := { buffer with receiving := none } }
      buffer

/-! ## Events -/

inductive Event
  | startPacket
  /-- Some bytes of the packet are written. -/
  | write (offset : ℕ) (data : Bytes)
  /-- The packet is complete. -/
  | endPacket (data : Bytes)
  | inputJob
  | outputJob
  /-- The output is done with the packet it was given. -/
  | output
  deriving DecidableEq, Repr

/-- Bytes go to where the packet is to be written. -/
def put (o : PacketProtoFlow) (offset : ℕ) (data : Bytes) : PacketProtoFlow :=
  match o.out with
  | some dest => { o with buffer := o.buffer.put (dest + offset) data }
  | none => o

def step (o : PacketProtoFlow) : Event → PacketProtoFlow
  | .startPacket => o.startPacket
  | .write offset data => o.put offset data
  | .endPacket data => (o.put 0 data).endPacket data.length
  | .inputJob => o.inputJob
  | .outputJob => o.outputJob
  | .output => o.asks o.buffer.outputHandlerDone

/-- A packet is written from a start that succeeded to its end, within the MTU; a job runs when it is set. -/
def Allowed (o : PacketProtoFlow) : Event → Prop
  | .startPacket => o.writing = false
  | .write offset data => o.writing = true ∧ offset + data.length ≤ o.mtu
  | .endPacket data => o.writing = true ∧ data.length ≤ o.mtu
  | .inputJob => o.input.Pending
  | .outputJob => o.output.Pending
  | .output => o.buffer.sending.isSome = true

instance (o : PacketProtoFlow) (e : Event) : Decidable (o.Allowed e) := by
  cases e <;> unfold Allowed <;> infer_instance

/-- What the handlers assert, with `PacketRecvInterface_Done` and `PacketRecvInterface_Receiver_Recv` where they call
them: the length is within the MTU, and the interface is busy or it is idle. -/
def Asserts (o : PacketProtoFlow) : Event → Prop
  | .endPacket data => data.length ≤ o.mtu ∧ o.out.isSome = true ∧ o.writing = true ∧ o.input = .busy
  | .inputJob =>
    match o.input with
    | .donePending len =>
      o.outputPacket.isSome = true ∧ PACKETPROTO_ENCLEN len ≤ PACKETPROTO_ENCLEN o.mtu ∧ o.output = .busy
    | _ => o.out = none
  | .outputJob =>
    match o.output with
    | .donePending len => ∃ dest, o.buffer.receiving = some dest ∧
        o.buffer.Asserts (.input (Memory.load o.buffer.buf.buffer dest len))
    | _ => o.outputPacket = none ∧ o.input = .idle
  | .output => o.buffer.Asserts .output ∧ (o.buffer.receiving = none → o.output = .idle)
  | _ => True

end PacketProtoFlow

end SmartTunnel
