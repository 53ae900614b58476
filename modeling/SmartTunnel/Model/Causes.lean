import SmartTunnel.Base.Halting
import SmartTunnel.Base.Text

/-!
# The messages of caught exceptions

`ChannelV4TCP.run` and `MyVpnService.connect` look for a message along the causes of the exception they
caught, each with a loop of its own, and go on with `close()` and `retry()`.
-/

namespace SmartTunnel

open Jvm

/-- An exception, with the chain of its causes. -/
inductive Throwable
  | root (message : Option String)
  | causedBy (message : Option String) (cause : Throwable)
  deriving DecidableEq, Repr

namespace Throwable

def getMessage : Throwable → Option String
  | root message => message
  | causedBy message _ => message

def getCause : Throwable → Option Throwable
  | root _ => none
  | causedBy _ cause => some cause

end Throwable

/-- What the handlers do. -/
inductive Handled
  | logError (message : String)
  | logMessage (message : String)
  | close
  | retry
  deriving DecidableEq, Repr

/-- The variables `message` and `t` of the loops. -/
structure MessageLoop where
  message : Option String
  t : Option Throwable
  deriving DecidableEq, Repr

namespace ChannelV4TCP

/-- One round of the loop in `run`. -/
def messageRound (e : Throwable) (s : MessageLoop) : Fueled.Next MessageLoop :=
  let message := s.t.bind Throwable.getMessage
  if message.isSome then .leave { s with message := message }
  -- `t = e.getCause()`, not that of `t`
  else .goOn ⟨message, e.getCause⟩

/-- The loop in the handler of `run`. -/
def messageOf (fuel : ℕ) (e : Throwable) : Fueled (Option String) := do
  let s ← Fueled.whileDo (fun s => s.t.isSome) (messageRound e) fuel ⟨none, some e⟩
  return s.message

/-- The handler of `run`. -/
def caught (fuel : ℕ) (e : Throwable) : Fueled (List Handled) := do
  let message ← messageOf fuel e
  return (message.map .logError).toList ++ [.close]

end ChannelV4TCP

namespace MyVpnService

/-- One round of the loop in `connect`. -/
def messageRound (e : Throwable) (s : MessageLoop) : Fueled.Next MessageLoop :=
  let message := match s.t with
    | some t => t.getMessage
    | none => s.message
  -- a null `t` does not end the loop, which goes on to the cause of `e`
  .goOn ⟨message, if message.isNone then e.getCause else s.t⟩

/-- The loop in the handler of `connect`. -/
def messageOf (fuel : ℕ) (e : Throwable) : Fueled (Option String) := do
  let s ← Fueled.whileDo (fun s => s.message.isNone) (messageRound e) fuel ⟨none, some e⟩
  return s.message

/-- The text that is logged is a format string, without arguments. -/
def errorText (message : Option String) : Except JavaException String :=
  format ("Error in connection : " ++ message.getD "null")

/-- The handler of `connect`, when the network is there and it was not the authentication that failed. -/
def caught (fuel : ℕ) (e : Throwable) : Fueled (List Handled) := do
  let message ← messageOf fuel e
  let text ← Fueled.lift (errorText message)
  return [.logMessage text, .retry]

end MyVpnService

end SmartTunnel
