import SmartTunnel.Base.Run
import SmartTunnel.Base.Jvm

/-!
# `PacketProtoDecoder`

The decoder of a udpgw server cuts the stream of a client into packets, each behind a header of two bytes with its
length. What was received and not processed yet is in `buf`, `bufUsed` bytes from `bufStart` on. `processData`
either hands a packet on or asks for more bytes, so a run of the decoder is a sequence of answers to these
requests (`Event`). Memory past the end of `buf` is not there: what would be written to it is lost.
-/

namespace SmartTunnel

open Jvm

/-- `sizeof(struct packetproto_header)`. -/
def PACKETPROTO_HEADER : ℕ := 2

def PACKETPROTO_MAXPAYLOAD : ℕ := 65535

def PACKETPROTO_ENCLEN (len : ℕ) : ℕ := PACKETPROTO_HEADER + len

structure PacketProtoDecoder where
  outputMtu : ℕ
  bufSize : ℕ
  buf : Bytes
  bufStart : ℕ
  bufUsed : ℕ
  deriving DecidableEq, Repr

namespace PacketProtoDecoder

/-- What the decoder waits for: that a packet is taken, or bytes for the free part of the buffer. -/
inductive Request
  | send (data : Bytes)
  | recv (room : ℕ)
  deriving DecidableEq, Repr

/-- `input_handler_done` of `PacketProtoEncoder`: a packet behind its header. -/
def encode (data : Bytes) : Bytes :=
  [BitVec.ofNat 8 (data.length % 256), BitVec.ofNat 8 (data.length / 256)] ++ data

/-- `memcpy`. -/
def readAt (buf : Bytes) (start len : ℕ) : Bytes := (buf.drop start).take len

def writeAt (buf : Bytes) (start : ℕ) (data : Bytes) : Bytes :=
  (buf.take start ++ data ++ buf.drop (start + data.length)).take buf.length

/-- `ltoh16(header.len)`. -/
def headerLen (header : Bytes) : ℕ := (header.getD 0 0).toNat + 256 * (header.getD 1 0).toNat

def reset (enc : PacketProtoDecoder) : PacketProtoDecoder := { enc with bufStart := 0, bufUsed := 0 }

/-- At the end of the buffer what is left goes to its start. -/
def wrap (enc : PacketProtoDecoder) : PacketProtoDecoder :=
  if enc.bufStart + enc.bufUsed = enc.bufSize then
    { enc with buf := writeAt enc.buf 0 (readAt enc.buf enc.bufStart enc.bufUsed), bufStart := 0 }
  else enc

/-- The request for as many bytes as there is room for. -/
def receive (enc : PacketProtoDecoder) : Request := .recv (enc.bufSize - (enc.bufStart + enc.bufUsed))

/-- `process_data`, and whether it reports an error. -/
def processData (enc : PacketProtoDecoder) : Request × Bool × PacketProtoDecoder :=
  if enc.bufUsed < PACKETPROTO_HEADER then (enc.wrap.receive, false, enc.wrap)
  else
    let dataLen := headerLen (readAt enc.buf enc.bufStart PACKETPROTO_HEADER)
    let left := enc.bufUsed - PACKETPROTO_HEADER
    if enc.outputMtu < dataLen then (enc.reset.receive, true, enc.reset)
    else if left < dataLen then (enc.wrap.receive, false, enc.wrap)
    else
      (.send (readAt enc.buf (enc.bufStart + PACKETPROTO_HEADER) dataLen), false,
        { enc with
          bufStart := enc.bufStart + (PACKETPROTO_HEADER + dataLen)
          bufUsed := enc.bufUsed - (PACKETPROTO_HEADER + dataLen) })

/-- `input_handler_done`, with the bytes that were written to the buffer. -/
def inputHandlerDone (data : Bytes) (enc : PacketProtoDecoder) : Request × Bool × PacketProtoDecoder :=
  processData { enc with
    buf := writeAt enc.buf (enc.bufStart + enc.bufUsed) data
    bufUsed := enc.bufUsed + data.length }

/-- `output_handler_done`. -/
def outputHandlerDone (enc : PacketProtoDecoder) : Request × Bool × PacketProtoDecoder := processData enc

/-- A decoder, the request it made last, and what it handed on. -/
structure Decoding where
  enc : PacketProtoDecoder
  request : Request
  packets : List Bytes
  failed : Bool
  deriving DecidableEq, Repr

/-- `PacketProtoDecoder_Init`; `memory` is what `malloc` returned. -/
def init (mtu : ℕ) (memory : ℕ → Byte) : Decoding :=
  let outputMtu := min mtu PACKETPROTO_MAXPAYLOAD
  let bufSize := PACKETPROTO_ENCLEN outputMtu
  { enc := ⟨outputMtu, bufSize, (List.range bufSize).map memory, 0, 0⟩
    request := .recv bufSize
    packets := []
    failed := false }

inductive Event
  | input (data : Bytes)
  | output
  deriving DecidableEq, Repr

/-- What the decoder did, noted down. -/
def Decoding.note (s : Decoding) : Request × Bool × PacketProtoDecoder → Decoding
  | (.send data, error, enc) => ⟨enc, .send data, s.packets ++ [data], error⟩
  | (.recv room, error, enc) => ⟨enc, .recv room, s.packets, error⟩

def Decoding.step (s : Decoding) : Event → Decoding
  | .input data => s.note (s.enc.inputHandlerDone data)
  | .output => s.note s.enc.outputHandlerDone

/-- The stream gives at least one byte and at most as many as were asked for, a packet is done once it was sent,
and after an error there is nothing more. -/
def Decoding.Allowed (s : Decoding) : Event → Prop
  | .input data => s.failed = false ∧ data ≠ [] ∧ ∃ room, s.request = .recv room ∧ data.length ≤ room
  | .output => s.failed = false ∧ ∃ data, s.request = .send data

/-- The bytes that came in. -/
def Event.bytes : Event → Bytes
  | .input data => data
  | .output => []

end PacketProtoDecoder

end SmartTunnel
