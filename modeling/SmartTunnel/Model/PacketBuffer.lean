import SmartTunnel.Base.Jvm
import SmartTunnel.Base.Memory

/-!
# `PacketBuffer`

The packets of a connection of udpgw wait in a `ChunkBuffer2`, a ring of blocks of four bytes. A packet takes a block
for its length and as many as its bytes need, and it does not go around the end of the ring: when there is no room
for one of the greatest length behind the last packet, the ring is cut there (`wrap`) and the next packet goes to its
start. `PacketBuffer` lets its input write a packet into the free blocks while its output reads the first one, so a
run is a sequence of what the two do (`Event`).
-/

namespace SmartTunnel

open Jvm

def INT_MAX : ℕ := 2 ^ 31 - 1

/-- `bdivide_up`. -/
def bdivideUp (a b : ℕ) : ℕ := if 0 < a % b then a / b + 1 else a / b

/-- A number as an `int`. -/
def toInt (n : ℤ) : ℤ := (BitVec.ofInt 32 n).toInt

/-- `sizeof(struct ChunkBuffer2_block)`. -/
def BLOCK : ℕ := 4

/-! ## `ChunkBuffer2` -/

/-- The memory is counted in bytes from `buffer` on; the other numbers are of blocks, but for the two of bytes that
are available, with `-1` for none. -/
structure ChunkBuffer2 where
  buffer : ℕ → Byte
  size : ℕ
  wrap : ℕ
  start : ℕ
  used : ℕ
  mtu : ℕ
  inputDest : Option ℕ
  inputAvail : ℤ
  outputDest : Option ℕ
  outputAvail : ℤ

namespace ChunkBuffer2

/-- The bytes of an `int`. -/
def intBytes (n : ℕ) : Bytes :=
  [BitVec.ofNat 8 n, BitVec.ofNat 8 (n / 2 ^ 8), BitVec.ofNat 8 (n / 2 ^ 16), BitVec.ofNat 8 (n / 2 ^ 24)]

def intOf (bytes : Bytes) : ℤ :=
  (BitVec.ofNat 32 (bytes.foldr (fun b n => b.toNat + 2 ^ 8 * n) 0)).toInt

/-- `buf->buffer[i].len`. -/
def lenAt (buf : ChunkBuffer2) (i : ℕ) : ℤ := intOf (Memory.load buf.buffer (BLOCK * i) BLOCK)

/-- The blocks behind the one with the length. -/
def blockLen (buf : ChunkBuffer2) (i : ℕ) : ℕ := bdivideUp (buf.lenAt i).toNat BLOCK

/-- `_ChunkBuffer2_end`. -/
def endBlock (buf : ChunkBuffer2) : ℕ :=
  if buf.wrap - buf.start ≤ buf.used then buf.used - (buf.wrap - buf.start) else buf.start + buf.used

/-- The free blocks from the end on. -/
def free (buf : ChunkBuffer2) : ℤ :=
  if buf.wrap - buf.start ≤ buf.used then (buf.start : ℤ) - buf.endBlock else (buf.size : ℤ) - buf.endBlock

/-- `_ChunkBuffer2_update_input`. -/
def updateInput (buf : ChunkBuffer2) : ChunkBuffer2 :=
  if (buf.size : ℤ) - buf.endBlock - 1 < buf.mtu then { buf with inputDest := none, inputAvail := -1 }
  else if 0 < buf.free then
    { buf with inputDest := some (BLOCK * (buf.endBlock + 1)), inputAvail := toInt ((buf.free - 1) * BLOCK) }
  else { buf with inputDest := none, inputAvail := -1 }

/-- `_ChunkBuffer2_update_output`. -/
def updateOutput (buf : ChunkBuffer2) : ChunkBuffer2 :=
  if 0 < buf.used then { buf with outputDest := some (BLOCK * (buf.start + 1)), outputAvail := buf.lenAt buf.start }
  else { buf with outputDest := none, outputAvail := -1 }

/-- `ChunkBuffer2_calc_blocks`, or nothing where it returns `-1`. -/
def calcBlocks (chunkLen num : ℕ) : Option ℕ :=
  let chunkDataBlocks := bdivideUp chunkLen BLOCK
  if INT_MAX - 1 < chunkDataBlocks then none
  else
    let chunkBlocks := 1 + chunkDataBlocks
    if INT_MAX - 1 < num then none
    else
      let numChunks := num + 1
      if INT_MAX / numChunks < chunkBlocks then none else some (chunkBlocks * numChunks)

/-- `ChunkBuffer2_Init`. -/
def init (buffer : ℕ → Byte) (blocks mtu : ℕ) : ChunkBuffer2 :=
  updateOutput <| updateInput
    { buffer := buffer
      size := blocks
      wrap := blocks
      start := 0
      used := 0
      mtu := bdivideUp mtu BLOCK
      inputDest := none
      inputAvail := -1
      outputDest := none
      outputAvail := -1 }

/-- The length is written and the packet counted. -/
def append (buf : ChunkBuffer2) (len : ℕ) : ChunkBuffer2 :=
  { buf with
    buffer := Memory.store buf.buffer (BLOCK * buf.endBlock) (intBytes len)
    used := buf.used + (1 + bdivideUp len BLOCK) }

/-- The ring is cut behind the last packet, when it does not go around and there is no room for another one. -/
def cut (buf : ChunkBuffer2) (last : ℕ) : ChunkBuffer2 :=
  if buf.used ≤ buf.wrap - buf.start ∧ (buf.size : ℤ) - last - 1 < buf.mtu then { buf with wrap := last } else buf

/-- `ChunkBuffer2_SubmitPacket`. -/
def submitPacket (buf : ChunkBuffer2) (len : ℕ) : ChunkBuffer2 :=
  let blocklen := bdivideUp len BLOCK
  let buf := ((buf.append len).cut (buf.endBlock + 1 + blocklen)).updateInput
  if buf.used = 1 + blocklen then buf.updateOutput else buf

/-- The first packet is left behind. -/
def advance (buf : ChunkBuffer2) : ChunkBuffer2 :=
  let start := buf.start + (1 + buf.blockLen buf.start)
  let buf := { buf with start := start, used := buf.used - (1 + buf.blockLen buf.start) }
  if buf.start = buf.wrap then { buf with start := 0, wrap := buf.size } else buf

/-- `ChunkBuffer2_ConsumePacket`. -/
def consumePacket (buf : ChunkBuffer2) : ChunkBuffer2 :=
  let dataWrapped := decide (buf.wrap - buf.start ≤ buf.used)
  let buf := buf.advance
  (if dataWrapped then buf.updateInput else buf).updateOutput

/-! ### Assertions -/

/-- `_ChunkBuffer2_assert_buffer`. -/
def AssertsBuffer (buf : ChunkBuffer2) : Prop :=
  0 < buf.size ∧ 0 < buf.wrap ∧ buf.wrap ≤ buf.size ∧ buf.start < buf.wrap ∧ buf.used ≤ buf.wrap ∧
  (buf.wrap = buf.size ∨ buf.wrap - buf.start ≤ buf.used)

/-- The first half of `_ChunkBuffer2_assert_io`. -/
def AssertsInput (buf : ChunkBuffer2) : Prop :=
  if (buf.size : ℤ) - buf.endBlock - 1 < buf.mtu then buf.inputDest = none ∧ buf.inputAvail = -1
  else if 0 < buf.free then
    buf.inputDest = some (BLOCK * (buf.endBlock + 1)) ∧ buf.inputAvail = (buf.free - 1) * BLOCK
  else buf.inputDest = none ∧ buf.inputAvail = -1

/-- The second half. -/
def AssertsOutput (buf : ChunkBuffer2) : Prop :=
  if 0 < buf.used then
    0 ≤ buf.lenAt buf.start ∧ buf.blockLen buf.start ≤ buf.used - 1 ∧
    buf.blockLen buf.start ≤ buf.wrap - buf.start - 1 ∧
    buf.outputDest = some (BLOCK * (buf.start + 1)) ∧ buf.outputAvail = buf.lenAt buf.start
  else buf.outputDest = none ∧ buf.outputAvail = -1

/-- `CHUNKBUFFER2_ASSERT_BUFFER` and `CHUNKBUFFER2_ASSERT_IO`. -/
def AssertsAll (buf : ChunkBuffer2) : Prop := buf.AssertsBuffer ∧ buf.AssertsInput ∧ buf.AssertsOutput

/-- Of `ChunkBuffer2_SubmitPacket`, before and after it too. -/
def AssertsSubmit (buf : ChunkBuffer2) (len : ℕ) : Prop :=
  buf.inputDest ≠ none ∧ len ≤ buf.inputAvail ∧ buf.AssertsAll ∧
  (bdivideUp len BLOCK : ℤ) ≤ (buf.size : ℤ) - buf.endBlock - 1 ∧
  (buf.used < buf.wrap - buf.start ∨ (bdivideUp len BLOCK : ℤ) ≤ (buf.start : ℤ) - buf.endBlock - 1) ∧
  ((buf.append len).cut (buf.endBlock + 1 + bdivideUp len BLOCK)).AssertsBuffer ∧ (buf.submitPacket len).AssertsAll

/-- Of `ChunkBuffer2_ConsumePacket`, before and after it too. -/
def AssertsConsume (buf : ChunkBuffer2) : Prop :=
  buf.outputDest ≠ none ∧ buf.AssertsAll ∧ 1 ≤ buf.wrap - buf.start ∧ 1 ≤ buf.used ∧
  buf.blockLen buf.start ≤ buf.wrap - buf.start - 1 ∧ buf.blockLen buf.start ≤ buf.used - 1 ∧
  buf.advance.AssertsBuffer ∧ buf.consumePacket.AssertsAll

end ChunkBuffer2

/-! ## `PacketBuffer` -/

structure PacketBuffer where
  buf : ChunkBuffer2
  inputMtu : ℕ
  /-- Where the input is to put a packet. -/
  receiving : Option ℕ
  /-- Where the packet is that the output is to send, and its length. -/
  sending : Option (ℕ × ℤ)

namespace PacketBuffer

/-- The input is given the free blocks. -/
def receive (b : PacketBuffer) : PacketBuffer := { b with receiving := b.buf.inputDest }

/-- The output is given the first packet. -/
def send (b : PacketBuffer) : PacketBuffer :=
  { b with sending := b.buf.outputDest.map fun dest => (dest, b.buf.outputAvail) }

/-- `input_handler_done`. -/
def inputHandlerDone (b : PacketBuffer) (inLen : ℕ) : PacketBuffer :=
  let wasEmpty := decide (b.buf.outputAvail < 0)
  let b := { b with buf := b.buf.submitPacket inLen, receiving := none }
  let b := if (b.inputMtu : ℤ) ≤ b.buf.inputAvail then b.receive else b
  if wasEmpty then b.send else b

/-- `output_handler_done`. -/
def outputHandlerDone (b : PacketBuffer) : PacketBuffer :=
  let wasFull := decide (b.buf.inputAvail < b.inputMtu)
  let b := { b with buf := b.buf.consumePacket, sending := none }
  let b := if wasFull ∧ (b.inputMtu : ℤ) ≤ b.buf.inputAvail then b.receive else b
  if 0 ≤ b.buf.outputAvail then b.send else b

/-- `PacketBuffer_Init`; `memory` is what was allocated. -/
def init (inputMtu numPackets : ℕ) (memory : ℕ → Byte) : Option PacketBuffer :=
  (ChunkBuffer2.calcBlocks inputMtu numPackets).map fun numBlocks =>
    receive { buf := .init memory numBlocks inputMtu, inputMtu := inputMtu, receiving := none, sending := none }

/-! ### Events -/

inductive Event
  /-- The input writes some of its bytes. -/
  | write (offset : ℕ) (data : Bytes)
  /-- The input is done with a packet. -/
  | input (data : Bytes)
  /-- The output is done with the one it was given. -/
  | output
  deriving DecidableEq, Repr

/-- Bytes go to where the input is to put them. -/
def put (b : PacketBuffer) (dest : ℕ) (data : Bytes) : PacketBuffer :=
  { b with buf := { b.buf with buffer := Memory.store b.buf.buffer dest data } }

def step (b : PacketBuffer) : Event → PacketBuffer
  | .write offset data =>
    match b.receiving with
    | some dest => b.put (dest + offset) data
    | none => b
  | .input data =>
    match b.receiving with
    | some dest => (b.put dest data).inputHandlerDone data.length
    | none => b
  | .output => b.outputHandlerDone

/-- The input writes no more than the MTU, when it was asked to, and the output is done with what it was given. -/
def Allowed (b : PacketBuffer) : Event → Prop
  | .write offset data => b.receiving.isSome = true ∧ offset + data.length ≤ b.inputMtu
  | .input data => b.receiving.isSome = true ∧ data.length ≤ b.inputMtu
  | .output => b.sending.isSome = true

instance (b : PacketBuffer) (e : Event) : Decidable (b.Allowed e) := by
  cases e <;> unfold Allowed <;> infer_instance

/-- What the handlers assert, with `PacketRecvInterface_Receiver_Recv` and `PacketPassInterface_Sender_Send` where
they call them: the pointer is not null, and the input or the output is not busy. -/
def Asserts (b : PacketBuffer) : Event → Prop
  | .write _ _ => True
  | .input data => ∀ dest, b.receiving = some dest →
    let b := b.put dest data
    let buf := b.buf.submitPacket data.length
    data.length ≤ b.inputMtu ∧ b.buf.AssertsSubmit data.length ∧
    (b.inputMtu ≤ buf.inputAvail → buf.inputDest ≠ none) ∧
    (b.buf.outputAvail < 0 → buf.outputDest ≠ none ∧ 0 ≤ buf.outputAvail ∧ buf.outputAvail ≤ b.inputMtu ∧
      b.sending = none)
  | .output =>
    let buf := b.buf.consumePacket
    b.buf.AssertsConsume ∧
    (b.buf.inputAvail < b.inputMtu → b.inputMtu ≤ buf.inputAvail → buf.inputDest ≠ none ∧ b.receiving = none) ∧
    (0 ≤ buf.outputAvail → buf.outputDest ≠ none ∧ buf.outputAvail ≤ b.inputMtu)

end PacketBuffer

end SmartTunnel
