import SmartTunnel.Base.Run

/-!
# `KeepAliveThread`

The thread sleeps up to `triggerTime`, calls `doWork`, and when the time comes a second time without a
`resetTimer()` in between it leaves its loop and calls `onTimeOut`. `resetTimer()`, `cancel()` and
`interrupt()` come from other threads, between any two steps of the loop. Times are readings of
`System.currentTimeMillis()`, in any order; no sum of a reading and an interval comes near the bounds of a
`long`.
-/

namespace SmartTunnel

/-- The next thing that the thread does, with the locals it needs. -/
inductive KeepAliveAt
  | notStarted
  /-- Sets `triggerTime` for the first time. -/
  | starting
  /-- `while (!mStop)` -/
  | checking
  /-- Reads `triggerTime` for `sleep`. -/
  | reading
  /-- Reads the clock for `sleep`. -/
  | computing (triggerTime : ℤ)
  | sleeping
  /-- `if (mKeepAliveSent)` -/
  | checkingSent
  /-- `mKeepAliveSent = true` -/
  | sending
  /-- Reads the clock in `resetTimer(false)`. -/
  | resetting
  /-- Sets `triggerTime` in `resetTimer(false)`. -/
  | triggering (now : ℤ)
  /-- Calls `doWork`. -/
  | working (now : ℤ)
  /-- `doWork` runs. -/
  | inWork
  /-- Calls `onTimeOut`. -/
  | timingOut
  /-- `onTimeOut` was called, or an exception has ended the thread. -/
  | ended
  deriving DecidableEq, Repr

/-- What can be seen of the thread, in its order. -/
inductive KeepAliveAction
  /-- The loop reads the clock for `sleep`. -/
  | clock (now : ℤ)
  /-- `doWork` is called, the timer having been set at `now`. -/
  | doWork (now : ℤ)
  | onTimeOut
  | resetTimer
  | cancel
  deriving DecidableEq, Repr

structure KeepAliveThread where
  mStop : Bool := false
  triggerTime : ℤ := 0
  mKeepAliveSent : Bool := false
  loop : KeepAliveAt := .notStarted
  interrupted : Bool := false
  trace : List KeepAliveAction := []
  deriving DecidableEq, Repr

namespace KeepAliveThread

inductive Event
  | start
  /-- The next step of `run`, with the time if it reads the clock. -/
  | run (now : ℤ)
  /-- `doWork` raises. -/
  | raise
  | interrupt
  | resetTimer (now : ℤ)
  | cancel
  deriving DecidableEq, Repr

def act (a : KeepAliveAction) (s : KeepAliveThread) : KeepAliveThread := { s with trace := s.trace ++ [a] }

/-- `mIntervalSecond * 1000L` -/
def interval (mIntervalSecond : ℤ) : ℤ := mIntervalSecond * 1000

/-- A step of `run`. A sleep ends when its time is over or the thread is interrupted, and the loop goes on. -/
def runStep (mIntervalSecond now : ℤ) (s : KeepAliveThread) : KeepAliveThread :=
  match s.loop with
  | .notStarted => s
  | .starting => { s with triggerTime := now + interval mIntervalSecond, loop := .checking }
  -- behind the loop is `onTimeOut`, whatever has ended it
  | .checking => { s with loop := if s.mStop then .timingOut else .reading }
  | .reading => { s with loop := .computing s.triggerTime }
  | .computing triggerTime =>
    { s.act (.clock now) with loop := if triggerTime - now > 0 then .sleeping else .checkingSent }
  | .sleeping => { s with interrupted := false, loop := .checking }
  | .checkingSent => { s with loop := if s.mKeepAliveSent then .timingOut else .sending }
  | .sending => { s with mKeepAliveSent := true, loop := .resetting }
  -- `resetTimer(false)`: the clock is read, then `triggerTime` is written
  | .resetting => { s with loop := .triggering now }
  | .triggering now => { s with triggerTime := now + interval mIntervalSecond, loop := .working now }
  | .working now => { s.act (.doWork now) with loop := .inWork }
  | .inWork => { s with loop := .checking }
  | .timingOut => { s.act .onTimeOut with loop := .ended }
  | .ended => s

/-- `resetTimer(true)` -/
def resetTimer (mIntervalSecond now : ℤ) (s : KeepAliveThread) : KeepAliveThread :=
  { s.act .resetTimer with mKeepAliveSent := false, triggerTime := now + interval mIntervalSecond }

def cancel (s : KeepAliveThread) : KeepAliveThread := { s.act .cancel with mStop := true, triggerTime := 0 }

def step (mIntervalSecond : ℤ) (s : KeepAliveThread) : Event → KeepAliveThread
  | .start => if s.loop = .notStarted then { s with loop := .starting } else s
  | .run now => s.runStep mIntervalSecond now
  | .raise => if s.loop = .inWork then { s with loop := .ended } else s
  | .interrupt => { s with interrupted := true }
  | .resetTimer now => s.resetTimer mIntervalSecond now
  | .cancel => s.cancel

end KeepAliveThread

end SmartTunnel
