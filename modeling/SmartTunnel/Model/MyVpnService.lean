import Mathlib

/-!
# `MyVpnService`

The service takes commands one at a time on its handler thread; `Config.connect` runs there and
can take long. Meanwhile the UI thread delivers network changes, the delayed `RetryRunnable` and
revocations, and a running config calls back from its own threads. Every entry point is one
step. An attempt in progress is not: its tunnel, its report and its failure are steps of their
own, and a callback that a config has made is in flight until it runs.

`log` records the ends of `disconnect`, the CONNECT commands handled and the tunnels opened.
-/

namespace SmartTunnel

namespace MyVpnService

inductive Status
  | CONNECTED
  | CONNECTING
  | DISCONNECTED
  | NETWORK_ERROR
  | DISCONNECTING
  | RETRYING
  deriving DecidableEq, Repr

/-- `connect_mod` of a CONNECT command. -/
inductive ConnectMode
  | MODE_CONNECT
  | MODE_RECONNECT
  deriving DecidableEq, Repr

/-- An intent of `onStartCommand`. -/
inductive Command
  | CONNECT (configId configType : Option String) (mode : ConnectMode)
  | DISCONNECT (byUser : Bool)
  | RECONNECT
  deriving DecidableEq, Repr

inductive ConfigClass
  | SSHConfig
  | OpenVpnConfig
  deriving DecidableEq, Repr

/-- What a running OpenVPN engine makes its config do. -/
inductive Callback
  | openTun
  | onConnect
  | onReconnecting
  deriving DecidableEq, Repr

/-- `Config.connect` in progress on the service thread. -/
structure Connecting where
  ref : ℕ
  getClass : ConfigClass
  tunOpened : Bool := false
  deriving DecidableEq, Repr

/-- What `connect` gets from storage: `ConfigsUtil.loadConfig` and then `loadProxy`. -/
inductive Loaded
  | config (getClass : ConfigClass)
  | null
  /-- `loadConfig` raised. -/
  | noConfig
  /-- `loadProxy` raised; the config was already assigned. -/
  | noProxy
  deriving DecidableEq, Repr

inductive Effect
  /-- `disconnect` completed. -/
  | disconnected
  | handledConnect (mode : ConnectMode)
  | openTun
  deriving DecidableEq, Repr

end MyVpnService

open MyVpnService

structure MyVpnService where
  mStatus : Status := .DISCONNECTED
  mStopService : Bool := false
  mConfigId : Option String := none
  mConfigType : Option String := none
  retryWaitTime : ℕ := 0
  retryCount : ℕ := 0
  /-- `mCurrentConfig`, by the identity of the object. -/
  mCurrentConfig : Option ℕ := none
  /-- The messages of `mServiceHandler`. -/
  messages : List Command := []
  /-- The `RetryRunnable` that `mUiThreadHandler` holds. -/
  retryRunnable : Option (Option String × Option String) := none
  connecting : Option Connecting := none
  /-- Configs that connected and were not cancelled. -/
  running : List (ℕ × ConfigClass) := []
  /-- Callbacks that configs have made and that have not run yet. -/
  inFlight : List Callback := []
  /-- The identity of the next config. -/
  nextRef : ℕ := 0
  log : List Effect := []
  deriving DecidableEq, Repr

namespace MyVpnService

/-- `TextUtils.isEmpty`. -/
def isEmpty (text : Option String) : Bool := text.getD "" == ""

/-- `mStatus = status`; the broadcast and the notification are not modelled. -/
def sendStatusChangedSignal (status : Status) (s : MyVpnService) : MyVpnService := { s with mStatus := status }

/-- `mCurrentConfig.cancel()`: an engine stops, an attempt in progress does not. -/
def terminate (s : MyVpnService) : MyVpnService :=
  { s with running := s.running.filter fun config => s.mCurrentConfig ≠ some config.1 }

/-! ## Disconnecting and retrying -/

def disconnect (byUser : Bool) (s : MyVpnService) : MyVpnService :=
  if s.mStatus = .NETWORK_ERROR ∧ byUser = false then s
  else
    let s := sendStatusChangedSignal .DISCONNECTING s
    let s := { s with mStopService := true, retryCount := 0, retryWaitTime := 0, retryRunnable := none }
    let s := terminate s
    let s := sendStatusChangedSignal .DISCONNECTED s
    { s with log := s.log ++ [.disconnected] }

def forceDisconnect (s : MyVpnService) : MyVpnService := disconnect true s

def retry (s : MyVpnService) : MyVpnService :=
  if isEmpty s.mConfigId then forceDisconnect s
  else if s.mStatus = .DISCONNECTING ∨ s.mStatus = .DISCONNECTED ∨ s.mStatus = .RETRYING then s
  else if s.mStopService then s
  else
    let s := sendStatusChangedSignal .RETRYING s
    let s := { s with
      retryWaitTime := if s.retryCount % 3 = 0 then s.retryWaitTime + 2 else s.retryWaitTime
      retryCount := s.retryCount + 1 }
    let s := terminate s
    { s with retryRunnable := some (s.mConfigId, s.mConfigType) }

/-- `RetryRunnable.run`: a CONNECT command is started, unless there is no use for it. -/
def runRetryRunnable (s : MyVpnService) : MyVpnService :=
  match s.retryRunnable with
  | none => s
  | some (configId, configType) =>
    let s := { s with retryRunnable := none }
    if s.mStatus = .DISCONNECTING ∨ s.mStatus = .DISCONNECTED ∨ s.mStatus = .NETWORK_ERROR then s
    else { s with messages := s.messages ++ [.CONNECT configId configType .MODE_RECONNECT] }

/-! ## Connecting -/

/-- `connect`, up to `mCurrentConfig.connect()`. -/
def connect (isConnected : Bool) (loaded : Loaded) (s : MyVpnService) : MyVpnService :=
  if s.mStatus = .NETWORK_ERROR ∨ isConnected = false then { s with mStatus := .NETWORK_ERROR }
  else if s.mConfigType = none ∨ s.mConfigId = none then s
  else if s.mStopService then s
  else if s.mStatus = .CONNECTED then s
  else
    let s := sendStatusChangedSignal .CONNECTING s
    match loaded with
    | .noConfig => forceDisconnect s
    | .noProxy => forceDisconnect { s with mCurrentConfig := some s.nextRef, nextRef := s.nextRef + 1 }
    | .null => forceDisconnect { s with mCurrentConfig := none }
    | .config getClass => { s with
        mCurrentConfig := some s.nextRef
        connecting := some { ref := s.nextRef, getClass := getClass }
        nextRef := s.nextRef + 1 }

def onConnect (s : MyVpnService) : MyVpnService :=
  sendStatusChangedSignal .CONNECTED { s with retryCount := 0, retryWaitTime := 0 }

def onReconnecting (s : MyVpnService) : MyVpnService := sendStatusChangedSignal .RETRYING s

def openTun (s : MyVpnService) : MyVpnService := { s with log := s.log ++ [.openTun] }

/-- The attempt in progress returned, and its config runs. -/
def connected (c : Connecting) (s : MyVpnService) : MyVpnService :=
  { s with connecting := none, running := s.running ++ [(c.ref, c.getClass)] }

/-- `SSHConfig.connect` opens the tunnel before it reports. -/
def connectOpensTun (s : MyVpnService) : MyVpnService :=
  match s.connecting with
  | some c =>
    if c.getClass = .SSHConfig ∧ c.tunOpened = false then
      openTun { s with connecting := some { c with tunOpened := true } }
    else s
  | none => s

/-- `Config.connect` returns: `SSHConfig` has called `onConnect`, an OpenVPN engine will. -/
def connectReturns (s : MyVpnService) : MyVpnService :=
  match s.connecting with
  | some c =>
    match c.getClass with
    | .SSHConfig => if c.tunOpened then connected c (onConnect s) else s
    | .OpenVpnConfig => connected c s
  | none => s

/-- `Config.connect` raised a `ConfigException`. -/
def connectFails (authFailed isConnected : Bool) (s : MyVpnService) : MyVpnService :=
  match s.connecting with
  | none => s
  | some _ =>
    let s := { s with connecting := none }
    if s.mStatus = .NETWORK_ERROR ∨ isConnected = false then s
    else if authFailed then forceDisconnect s
    else retry s

/-! ## Callbacks and commands -/

def onNetworkDisconnected (s : MyVpnService) : MyVpnService :=
  if s.mStatus = .DISCONNECTED ∨ s.mStatus = .DISCONNECTING then s
  else terminate (sendStatusChangedSignal .NETWORK_ERROR { s with retryCount := 0, retryWaitTime := 0 })

def onNetworkConnected (changed : Bool) (s : MyVpnService) : MyVpnService :=
  if changed ∧ s.mStatus = .CONNECTED then retry s
  else if s.mStatus = .NETWORK_ERROR then retry s
  else s

def runCallback (callback : Callback) (s : MyVpnService) : MyVpnService :=
  match callback with
  | .openTun => openTun s
  | .onConnect => onConnect s
  | .onReconnecting => onReconnecting s

def handleMessage (isConnected : Bool) (loaded : Loaded) (command : Command) (s : MyVpnService) : MyVpnService :=
  match command with
  | .CONNECT configId configType mode =>
    let s := { s with
      mConfigId := configId
      mConfigType := configType
      mStopService := if mode = .MODE_CONNECT then false else s.mStopService
      log := s.log ++ [.handledConnect mode] }
    connect isConnected loaded s
  | .DISCONNECT byUser => disconnect byUser s
  | .RECONNECT => retry s

inductive Event
  /-- `onStartCommand`. -/
  | startCommand (command : Command)
  /-- The service thread takes its next message; the flags are what the network and the
  storage answer. -/
  | handle (isConnected : Bool) (loaded : Loaded)
  | connectOpensTun
  | connectReturns
  | connectFails (authFailed isConnected : Bool)
  /-- The engine of a config that connects or runs makes a callback. -/
  | engine (ref : ℕ) (callback : Callback)
  /-- A running config lost its connection and asks to reconnect. -/
  | configDisconnected (ref : ℕ)
  /-- A callback in flight runs. -/
  | deliver (i : ℕ)
  /-- The delay of the `RetryRunnable` has passed. -/
  | retryRunnable
  | networkDisconnected
  | networkConnected (changed : Bool)
  /-- `onRevoke`, on another thread. -/
  | forceDisconnect
  deriving DecidableEq, Repr

/-- Configs whose OpenVPN engine may call back. -/
def engines (s : MyVpnService) : List ℕ :=
  (s.running ++ (s.connecting.map fun c => (c.ref, c.getClass)).toList).filterMap fun config =>
    if config.2 = .OpenVpnConfig then some config.1 else none

def step (s : MyVpnService) : Event → MyVpnService
  | .startCommand command => { s with messages := s.messages ++ [command] }
  | .handle isConnected loaded =>
    -- an attempt in progress keeps the thread busy
    match s.connecting, s.messages with
    | none, command :: messages => handleMessage isConnected loaded command { s with messages := messages }
    | _, _ => s
  | .connectOpensTun => MyVpnService.connectOpensTun s
  | .connectReturns => MyVpnService.connectReturns s
  | .connectFails authFailed isConnected => MyVpnService.connectFails authFailed isConnected s
  | .engine ref callback =>
    if ref ∈ s.engines then { s with inFlight := s.inFlight ++ [callback] } else s
  | .configDisconnected ref =>
    if ref ∈ s.running.map Prod.fst then { s with messages := s.messages ++ [.RECONNECT] } else s
  | .deliver i =>
    match s.inFlight[i]? with
    | none => s
    | some callback => runCallback callback { s with inFlight := s.inFlight.eraseIdx i }
  | .retryRunnable => runRetryRunnable s
  | .networkDisconnected => onNetworkDisconnected s
  | .networkConnected changed => onNetworkConnected changed s
  | .forceDisconnect => MyVpnService.forceDisconnect s

end MyVpnService

end SmartTunnel
