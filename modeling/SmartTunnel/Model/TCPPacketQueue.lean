import SmartTunnel.Base.Jvm

/-!
# `TCPPacketWrapper` and `TCPPacketQueue`

The queue is ordered by the signed sequence number. A wrapper without a packet is a
placeholder: it marks where the next packet is expected, and `poll` waits at it.

`SharedQueue` is the queue between two threads, one that calls `put` and one that calls `poll`.
`put` holds the lock of `mPackets` to its end, and notifies under `peakLock`; `poll` looks at the head
under the lock of `mPackets`, gives it back, and then waits under `peakLock` or takes the head under the
lock of `mPackets` again.
-/

namespace SmartTunnel

open Jvm

structure TCPPacketWrapper (π : Type) where
  mPacket : Option π
  sequenceNumber : BitVec 32
  nextSequenceNumber : BitVec 32 := 0
  acknowledgeNumber : BitVec 32 := 0
  push : Bool := false
  deriving DecidableEq, Repr

/-- What `compareTo` compares. -/
def TCPPacketWrapper.order {π : Type} (w : TCPPacketWrapper π) : ℤ := w.sequenceNumber.toInt

namespace TCPPacketQueue

variable {π : Type}

/-- Two wrappers are equal when their sequence numbers are. -/
def indexOf (mPackets : List (TCPPacketWrapper π)) (packetWrapper : TCPPacketWrapper π) : Option ℕ :=
  mPackets.findIdx? fun w => w.sequenceNumber == packetWrapper.sequenceNumber

/-- `Collections.sort(mPackets)`. -/
def sort (mPackets : List (TCPPacketWrapper π)) : List (TCPPacketWrapper π) :=
  mPackets.insertionSort fun a b => a.order ≤ b.order

def put (packetWrapper : TCPPacketWrapper π) (mPackets : List (TCPPacketWrapper π)) :
    List (TCPPacketWrapper π) :=
  sort (match indexOf mPackets packetWrapper with
    | some pos => mPackets.set pos packetWrapper
    | none => mPackets ++ [packetWrapper])

/-- `poll` when it need not wait: the first wrapper, if it holds a packet. -/
def poll : List (TCPPacketWrapper π) → Option (TCPPacketWrapper π × List (TCPPacketWrapper π))
  | [] => none
  | w :: mPackets => if w.mPacket.isSome then some (w, mPackets) else none

end TCPPacketQueue

/-! ## Two threads -/

/-- Where the thread that polls is. -/
inductive Poll (π : Type)
  /-- Before the first block of `poll`. -/
  | inspects
  /-- The head held no packet, and `wait` is still to be called. -/
  | leaves
  /-- In `peakLock.wait()`. -/
  | waits
  /-- The head was `packetWrapper`, with a packet, and `mPackets.poll()` is still to be called. -/
  | takes (packetWrapper : TCPPacketWrapper π)
  deriving DecidableEq, Repr

structure SharedQueue (π : Type) where
  mPackets : List (TCPPacketWrapper π) := []
  /-- A `put` is in progress, and `peakLock.notify()` is still to be called. -/
  notifies : Bool := false
  poll : Poll π := .inspects
  /-- What was put since `poll` looked at the head; no method reads it. -/
  putSince : List (TCPPacketWrapper π) := []
  deriving DecidableEq, Repr

namespace SharedQueue

variable {π : Type}

inductive Event (π : Type)
  /-- `put` up to its notification. -/
  | put (packetWrapper : TCPPacketWrapper π)
  | notify
  /-- The first block of `poll`. -/
  | inspect
  | startWait
  /-- `mPackets.poll()`. -/
  | take
  deriving DecidableEq, Repr

/-- The first wrapper holds a packet. -/
def headReady (mPackets : List (TCPPacketWrapper π)) : Bool := mPackets.head?.any fun w => w.mPacket.isSome

/-- What `poll` does with the head it finds. -/
def afterPeek (mPackets : List (TCPPacketWrapper π)) : Poll π :=
  match mPackets with
  | [] => .leaves
  | w :: _ => if w.mPacket.isSome then .takes w else .leaves

/-- A step is taken if its thread is there and gets its lock; otherwise nothing happens. -/
def step (s : SharedQueue π) : Event π → SharedQueue π
  | .put packetWrapper =>
    if s.notifies then s
    else
      let mPackets := TCPPacketQueue.put packetWrapper s.mPackets
      { s with mPackets := mPackets, notifies := headReady mPackets, putSince := s.putSince ++ [packetWrapper] }
  | .notify =>
    if s.notifies then
      { s with
        notifies := false
        poll := match s.poll with
          | .waits => .inspects
          | p => p }
    else s
  | .inspect =>
    match s.poll with
    | .inspects => if s.notifies then s else { s with poll := afterPeek s.mPackets, putSince := [] }
    | _ => s
  | .startWait =>
    match s.poll with
    | .leaves => { s with poll := .waits }
    | _ => s
  | .take =>
    match s.poll with
    | .takes _ => if s.notifies then s else { s with mPackets := s.mPackets.tail, poll := .inspects }
    | _ => s

end SharedQueue

end SmartTunnel
