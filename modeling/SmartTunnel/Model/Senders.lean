import SmartTunnel.Model.TCPController

/-!
# The threads that send to the client

A packet to the client is made by `makeTcpPacket`, which reads `mRemoteSeqNumber`, and then sent
by `sendToLocal`, which writes it; no lock holds the two together. Here they are steps of their
own, taken by the remote reader, the packet processor, the keep-alive thread and the thread of
the channel in any order. The keep-alive first decrements the number.

`position` counts where `mRemoteSeqNumber` stands without wrapping, and `segments` keeps the
chunks that were sent; no method reads them.
-/

namespace SmartTunnel

open Jvm

namespace TCPController

inductive Sender
  | reader
  | processor
  | keepAlive
  | writer
  deriving DecidableEq, Repr

/-- What a packet is made for. -/
inductive Outgoing
  /-- `packetFromRemote`. -/
  | chunk (data : Bytes) (push : Bool)
  | ack (option : Option TCPOption)
  | handshake
  | fin
  | rst
  | keepAlive
  deriving DecidableEq, Repr

namespace Outgoing

/-- The threads that make it; any of them may close the channel. -/
def madeBy : Outgoing → Sender → Bool
  | .chunk _ _, t => t = .reader
  | .ack _, t => t = .processor
  | .handshake, t => t = .writer
  | .fin, t => t = .reader ∨ t = .processor
  | .rst, _ => true
  | .keepAlive, t => t = .keepAlive

/-- What is assigned before the packet is made. -/
def prepare : Outgoing → Java TCPController Unit
  | .handshake => setState .SYN_RECEIVED
  | .fin => do setState (if (← get).mState = .ESTABLISHED then .FIN_WAIT_1 else .LAST_ACK)
  | _ => pure ()

/-- The payload and the flags of a FIN or a RST. -/
def closing (c : TCPController) (flag : TCPFlag) : Option Bytes × TCPFlag × Option TCPOption :=
  match c.lastData with
  | none => (none, flag, none)
  | some data => (data, { flag with PSH := 1 }, none)

/-- The arguments of `makeTcpPacket`. -/
def arguments (c : TCPController) : Outgoing → Option Bytes × TCPFlag × Option TCPOption
  | .chunk data push => (some data, if push then TCPFlag.ACKOnly else TCPFlag.PSH_ACK, none)
  | .ack option => (none, TCPFlag.ACKOnly, option)
  | .handshake => (none, TCPFlag.SYN_ACK, some (serverOption {}))
  | .fin => closing c TCPFlag.FIN_ACK
  | .rst => closing c TCPFlag.RST_ACK
  | .keepAlive => (some [0], TCPFlag.ACKOnly, none)

def make (o : Outgoing) : Java TCPController PacketV4 := do
  o.prepare
  let (data, flag, option) := o.arguments (← get)
  makeTcpPacket data flag option

end Outgoing

/-- How many sequence numbers `sendToLocal` counts for a packet. -/
def packetCount (packet : PacketV4) : ℕ :=
  match packet.mTransmissionProtocol with
  | .udp _ => 0
  | .tcp tcp =>
    match tcp.mFlag with
    | none => 0
    | some flag => if flag.SYN = 1 ∨ flag.FIN = 1 then 1 else packet.dataLength

/-- A packet that is made and not sent yet. -/
structure Made where
  outgoing : Outgoing
  packet : PacketV4
  /-- Where `mRemoteSeqNumber` stood. -/
  position : ℤ
  /-- The chunks that were sent before. -/
  seen : ℕ
  deriving DecidableEq, Repr

/-- A chunk that was sent. -/
structure DataSegment where
  position : ℤ
  packet : PacketV4
  deriving DecidableEq, Repr

/-- The position after it. -/
def DataSegment.finish (segment : DataSegment) : ℤ := segment.position + segment.packet.dataLength

structure Senders where
  controller : TCPController
  made : Sender → Option Made := fun _ => none
  /-- The keep-alive has decremented `mRemoteSeqNumber` and not made its packet. -/
  decremented : Bool := false
  position : ℤ := 0
  segments : List DataSegment := []

namespace Senders

inductive Event
  /-- `mRemoteSeqNumber -= 1` of `sendKeepAlivePacket`. -/
  | decrement
  | make (t : Sender) (o : Outgoing)
  | send (t : Sender)
  deriving DecidableEq, Repr

/-- A thread is between two packets; the keep-alive packet follows its decrement. -/
def canMake (s : Senders) (t : Sender) (o : Outgoing) : Bool :=
  s.made t = none ∧ o.madeBy t ∧ (o = .keepAlive ↔ t = .keepAlive ∧ s.decremented)

/-- The chunks that were sent, when `m` is. -/
def segmentsAfter (s : Senders) (m : Made) : List DataSegment :=
  match m.outgoing with
  | .chunk _ _ => s.segments ++ [⟨m.position, m.packet⟩]
  | _ => s.segments

def step (s : Senders) : Event → Senders
  | .decrement =>
    if s.made .keepAlive = none ∧ s.decremented = false then
      { s with
        controller := { s.controller with mRemoteSeqNumber := s.controller.mRemoteSeqNumber - 1 }
        position := s.position - 1
        decremented := true }
    else s
  | .make t o =>
    if s.canMake t o then
      let s := if o = .keepAlive then { s with decremented := false } else s
      match Java.exec o.make s.controller with
      | (.ok packet, c) => { s with
          controller := c
          made := Function.update s.made t (some {
            outgoing := o
            packet := packet
            position := s.position
            seen := s.segments.length }) }
      | (.error _, c) => { s with controller := c }
    else s
  | .send t =>
    match s.made t with
    | none => s
    | some m =>
      let s := { s with made := Function.update s.made t none }
      match Java.exec (sendToLocal m.packet) s.controller with
      | (.ok _, c) => { s with
          controller := c
          position := m.position + packetCount m.packet
          segments := s.segmentsAfter m }
      | (.error _, c) => { s with controller := c }

end Senders

end TCPController

end SmartTunnel
