import SmartTunnel.Base.Collections
import SmartTunnel.Base.Jvm

/-!
# `PacketPassFairQueue`

The connections of a udpgw client share its way out: each of them is a flow, and the queue gives the output one packet
at a time. A flow has a time, what was sent of it so far, and the queued flow with the least time is next. A flow that
comes back after a pause takes the current time, so it has nothing left from before.

Flows are told apart by their addresses (`flow` is the memory there), and the tree of the queued flows is the list of
them in its order. What happens at the output, at the inputs of the flows and to the scheduled job is an `Event`.
-/

namespace SmartTunnel

open Jvm

/-- `UINT64_MAX`. -/
def FAIRQUEUE_MAX_TIME : BitVec 64 := BitVec.allOnes 64

structure PacketPassFairQueueFlow where
  time : BitVec 64
  isQueued : Bool
  /-- The packet that is queued or was queued last, with its length. -/
  queued : Bytes
  /-- A packet was sent to `input`, and it is not done. -/
  busy : Bool
  deriving DecidableEq, Repr

structure PacketPassFairQueue where
  /-- The MTU of `output`. -/
  mtu : ℕ
  packetWeight : ℕ
  sendingFlow : Option ℕ
  sendingLen : ℕ
  previousFlow : Option ℕ
  queuedTree : List ℕ
  flowsList : List ℕ
  /-- `schedule_job` is set. -/
  scheduleJob : Bool
  /-- The packet that `output` is to send, until it is done. -/
  output : Option Bytes
  flow : ℕ → PacketPassFairQueueFlow

namespace PacketPassFairQueue

/-- `compare_flows`. -/
def compareFlows (m : PacketPassFairQueue) : ℕ → ℕ → Ordering :=
  compareLex (compareOn fun f => (m.flow f).time.toNat) compare

/-- A change of a flow. -/
def modifyFlow (m : PacketPassFairQueue) (f : ℕ) (change : PacketPassFairQueueFlow → PacketPassFairQueueFlow) :
    PacketPassFairQueue :=
  { m with flow := Function.update m.flow f (change (m.flow f)) }

/-- `PacketPassFairQueue__Tree_GetFirst`. -/
def firstFlow (m : PacketPassFairQueue) : Option ℕ := m.queuedTree.head?

/-- `get_current_time`. -/
def getCurrentTime (m : PacketPassFairQueue) : BitVec 64 :=
  match m.sendingFlow with
  | some f => (m.flow f).time
  | none =>
    match m.firstFlow, m.previousFlow with
    | some f, some p => if (m.flow p).time < (m.flow f).time then (m.flow p).time else (m.flow f).time
    | some f, none => (m.flow f).time
    | none, some p => (m.flow p).time
    | none, none => 0

/-- The time that is subtracted when the time of a flow would overflow. -/
def subtracted (m : PacketPassFairQueue) (f : ℕ) : BitVec 64 :=
  match m.firstFlow with
  | none => (m.flow f).time
  | some first => (m.flow first).time

/-- A round of the loop in `increment_sent_flow`. -/
def subtractFrom (f : ℕ) (subtract : BitVec 64) (m : PacketPassFairQueue) (someflow : ℕ) : PacketPassFairQueue :=
  m.modifyFlow someflow fun x =>
    if x.time < subtract ∧ someflow ≠ f then { x with time := 0 } else { x with time := x.time - subtract }

/-- `increment_sent_flow`. -/
def incrementSentFlow (m : PacketPassFairQueue) (f : ℕ) (amount : BitVec 64) : PacketPassFairQueue :=
  let m :=
    if FAIRQUEUE_MAX_TIME - (m.flow f).time < amount then m.flowsList.foldl (subtractFrom f (m.subtracted f)) m
    else m
  m.modifyFlow f fun x => { x with time := x.time + amount }

/-- `schedule`. -/
def schedule (m : PacketPassFairQueue) : PacketPassFairQueue :=
  match m.firstFlow with
  | none => m
  | some qflow =>
    { m.modifyFlow qflow fun x => { x with isQueued := false } with
      queuedTree := m.queuedTree.erase qflow
      output := some (m.flow qflow).queued
      sendingFlow := some qflow
      sendingLen := (m.flow qflow).queued.length }

/-- `schedule_job_handler`. -/
def scheduleJobHandler (m : PacketPassFairQueue) : PacketPassFairQueue :=
  let m := { m with scheduleJob := false, previousFlow := none }
  if m.queuedTree ≠ [] then m.schedule else m

/-- The time of a flow that has a packet again. -/
def raiseTime (m : PacketPassFairQueue) (f : ℕ) : PacketPassFairQueue :=
  if m.previousFlow = some f then { m with previousFlow := none }
  else m.modifyFlow f fun x => { x with time := if m.getCurrentTime < x.time then x.time else m.getCurrentTime }

/-- The flow goes into the tree. -/
def enqueue (m : PacketPassFairQueue) (f : ℕ) (data : Bytes) : PacketPassFairQueue :=
  { m.modifyFlow f fun x => { x with queued := data, isQueued := true, busy := true } with
    queuedTree := TreeSet.add m.compareFlows f m.queuedTree }

/-- `input_handler_send`. -/
def inputHandlerSend (f : ℕ) (data : Bytes) (m : PacketPassFairQueue) : PacketPassFairQueue :=
  let m := (m.raiseTime f).enqueue f data
  if m.sendingFlow = none ∧ m.scheduleJob = false then m.schedule else m

/-- `output_handler_done`. -/
def outputHandlerDone (m : PacketPassFairQueue) : PacketPassFairQueue :=
  match m.sendingFlow with
  | none => m
  | some f =>
    let m := { m with sendingFlow := none, previousFlow := some f, output := none }
    let m := m.incrementSentFlow f (BitVec.ofNat 64 (m.packetWeight + m.sendingLen))
    { m.modifyFlow f fun x => { x with busy := false } with scheduleJob := true }

/-- `PacketPassFairQueue_Init`; `memory` is what there is at the addresses. -/
def init (mtu packetWeight : ℕ) (memory : ℕ → PacketPassFairQueueFlow) : Option PacketPassFairQueue :=
  if mtu ≤ FAIRQUEUE_MAX_TIME.toNat ∧ packetWeight ≤ FAIRQUEUE_MAX_TIME.toNat - mtu then
    some
      { mtu := mtu
        packetWeight := packetWeight
        sendingFlow := none
        sendingLen := 0
        previousFlow := none
        queuedTree := []
        flowsList := []
        scheduleJob := false
        output := none
        flow := memory }
  else none

/-- `PacketPassFairQueueFlow_Init`. -/
def flowInit (f : ℕ) (m : PacketPassFairQueue) : PacketPassFairQueue :=
  { m.modifyFlow f fun x => { x with busy := false, time := 0, isQueued := false } with
    flowsList := m.flowsList ++ [f] }

/-- `PacketPassFairQueueFlow_Free`. -/
def flowFree (f : ℕ) (m : PacketPassFairQueue) : PacketPassFairQueue :=
  { m with
    sendingFlow := if m.sendingFlow = some f then none else m.sendingFlow
    previousFlow := if m.previousFlow = some f then none else m.previousFlow
    queuedTree := if (m.flow f).isQueued then m.queuedTree.erase f else m.queuedTree
    flowsList := m.flowsList.erase f }

/-! ## Events -/

inductive Event
  | flowInit (f : ℕ)
  | flowFree (f : ℕ)
  /-- A packet comes to the input of a flow. -/
  | send (f : ℕ) (data : Bytes)
  /-- The output is done with its packet. -/
  | done
  /-- The scheduled job runs. -/
  | job
  deriving DecidableEq, Repr

def step (m : PacketPassFairQueue) : Event → PacketPassFairQueue
  | .flowInit f => m.flowInit f
  | .flowFree f => m.flowFree f
  | .send f data => m.inputHandlerSend f data
  | .done => m.outputHandlerDone
  | .job => m.scheduleJobHandler

/-- What the users of the queue keep to: a flow has one packet at a time, of at most the MTU, and is not freed while
it is sent; the output is done with what it was given, and a job runs when it is set. -/
def Allowed (m : PacketPassFairQueue) : Event → Prop
  | .flowInit f => f ∉ m.flowsList
  | .flowFree f => f ∈ m.flowsList ∧ m.sendingFlow ≠ some f
  | .send f data => f ∈ m.flowsList ∧ (m.flow f).busy = false ∧ data.length ≤ m.mtu
  | .done => m.output.isSome = true
  | .job => m.scheduleJob = true

instance (m : PacketPassFairQueue) (e : Event) : Decidable (m.Allowed e) := by
  cases e <;> unfold Allowed <;> infer_instance

/-! ## Assertions -/

/-- Of `get_current_time`, and wherever the first flow is looked at. -/
def AssertsFirst (m : PacketPassFairQueue) : Prop := ∀ f, m.firstFlow = some f → (m.flow f).isQueued = true

/-- Of `schedule`, and of the output that is given the packet. -/
def AssertsSchedule (m : PacketPassFairQueue) : Prop :=
  m.sendingFlow = none ∧ m.previousFlow = none ∧ m.queuedTree ≠ [] ∧ m.AssertsFirst ∧ m.output = none ∧
  ∀ f, m.firstFlow = some f → (m.flow f).queued.length ≤ m.mtu

/-- Of `increment_sent_flow`. -/
def AssertsIncrement (m : PacketPassFairQueue) (f amount : ℕ) : Prop :=
  amount ≤ FAIRQUEUE_MAX_TIME.toNat ∧ (m.flow f).isQueued = false ∧ m.AssertsFirst ∧
  (FAIRQUEUE_MAX_TIME - (m.flow f).time < BitVec.ofNat 64 amount →
    ∀ someflow ∈ m.flowsList, (m.flow someflow).time < m.subtracted f → someflow ≠ f →
      (m.flow someflow).isQueued = false)

/-- What the handlers assert, and `PacketPassInterface` where they call it. -/
def Asserts (m : PacketPassFairQueue) : Event → Prop
  | .flowInit _ => True
  | .flowFree f => m.sendingFlow ≠ some f
  | .send f data =>
    m.sendingFlow ≠ some f ∧ (m.flow f).isQueued = false ∧ m.AssertsFirst ∧
    (∀ g ∈ m.queuedTree, (m.raiseTime f).compareFlows f g ≠ .eq) ∧
    (m.sendingFlow = none → m.scheduleJob = false → ((m.raiseTime f).enqueue f data).AssertsSchedule)
  | .done =>
    m.previousFlow = none ∧ m.scheduleJob = false ∧
    ∃ f, m.sendingFlow = some f ∧ (m.flow f).isQueued = false ∧ (m.flow f).busy = true ∧
      m.AssertsIncrement f (m.packetWeight + m.sendingLen)
  | .job =>
    m.sendingFlow = none ∧
    (m.queuedTree ≠ [] → ({ m with scheduleJob := false, previousFlow := none } : PacketPassFairQueue).AssertsSchedule)

end PacketPassFairQueue

end SmartTunnel
