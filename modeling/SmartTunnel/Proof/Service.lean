import SmartTunnel.Base.Run
import SmartTunnel.Model.MyVpnService

/-!
# Disconnecting and reconnecting

`mStopService` is set exactly from the end of a `disconnect` to the next CONNECT command with
MODE_CONNECT. Commands, retries and network changes look at it or at the status (`Keeps`);
tunnels, reports and a missing network do not (`Unchecked`), and these are the only steps after
which a disconnect is not final (`disconnect_final_iff`).

`retry` takes the status RETRYING for an attempt that is pending. `retry` itself makes it so, and
what it schedules stays pending until the status changes (`Accounted`); `onReconnecting` sets the
status alone. `reconnects_not_lost`: without it no reconnect request is lost.
-/

namespace SmartTunnel

namespace MyVpnService

variable {s s' : MyVpnService} {e : Event}

/-! ## Disconnect is final -/

/-- A `disconnect` completed, and no CONNECT command with MODE_CONNECT was handled since. -/
def stopped (log : List Effect) : Bool :=
  log.foldl (fun b e => match e with
    | .disconnected => true
    | .handledConnect .MODE_CONNECT => false
    | .handledConnect .MODE_RECONNECT => b
    | .openTun => b) false

/-- After a disconnect the status is DISCONNECTED, and no tunnel was opened. -/
structure Final (s : MyVpnService) : Prop where
  status : stopped s.log = true → s.mStatus = .DISCONNECTED
  tunnels : ∀ before later, s.log = before ++ .openTun :: later → stopped before = false

/-- A step of a config, or of a CONNECT command without network, that does not look at
`mStopService`. -/
def Unchecked (s : MyVpnService) : Event → Prop
  | .connectOpensTun => ∃ c, s.connecting = some c ∧ c.getClass = .SSHConfig ∧ c.tunOpened = false
  | .connectReturns => ∃ c, s.connecting = some c ∧ c.getClass = .SSHConfig ∧ c.tunOpened = true
  | .deliver i => i < s.inFlight.length
  | .handle isConnected _ => isConnected = false ∧ s.connecting = none ∧
      ∃ configId configType messages, s.messages = .CONNECT configId configType .MODE_RECONNECT :: messages
  | _ => False

@[simp] theorem stopped_append (log : List Effect) (e : Effect) :
    stopped (log ++ [e]) = match e with
      | .disconnected => true
      | .handledConnect .MODE_CONNECT => false
      | .handledConnect .MODE_RECONNECT => stopped log
      | .openTun => stopped log := by
  simp only [stopped, List.foldl_append, List.foldl_cons, List.foldl_nil]

/-- The log says what `mStopService` says, and a stopped service is disconnected. -/
structure Consistent (s : MyVpnService) : Prop where
  stopped : stopped s.log = s.mStopService
  status : s.mStopService = true → s.mStatus = .DISCONNECTED
  tunnels : ∀ before later, s.log = before ++ .openTun :: later → MyVpnService.stopped before = false

theorem Consistent.final (h : Consistent s) : Final s :=
  ⟨fun hs => h.status (h.stopped ▸ hs), h.tunnels⟩

/-- From `s` to `s'` a stopped service stays disconnected, or a `disconnect` completes. -/
def Keeps (s s' : MyVpnService) : Prop :=
  (s'.log = s.log ∧ s'.mStopService = s.mStopService ∧
    (s.mStopService = true → s.mStatus = .DISCONNECTED → s'.mStatus = .DISCONNECTED)) ∨
  (s'.log = s.log ++ [.disconnected] ∧ s'.mStopService = true ∧ s'.mStatus = .DISCONNECTED)

theorem Keeps.refl (s : MyVpnService) : Keeps s s := .inl ⟨rfl, rfl, fun _ h => h⟩

theorem tunnels_append {log : List Effect} {e : Effect} (he : e = .openTun → stopped log = false)
    (h : ∀ before later, log = before ++ .openTun :: later → stopped before = false) :
    ∀ before later, log ++ [e] = before ++ .openTun :: later → stopped before = false := by
  intro before later heq
  rcases List.eq_nil_or_concat later with rfl | ⟨later', x, rfl⟩
  · obtain ⟨rfl, hlast⟩ := List.append_inj' heq rfl
    exact he (List.singleton_inj.1 hlast)
  · rw [List.concat_eq_append, ← List.cons_append, ← List.append_assoc] at heq
    exact h before later' (List.append_inj' heq rfl).1

theorem Consistent.keeps (h : Consistent s) (hk : Keeps s s') : Consistent s' := by
  rcases hk with ⟨hlog, hstop, hstatus⟩ | ⟨hlog, hstop, hstatus⟩
  · refine ⟨by rw [hlog, hstop, h.stopped], ?_, hlog ▸ h.tunnels⟩
    intro hs
    rw [hstop] at hs
    exact hstatus hs (h.status hs)
  · refine ⟨by rw [hlog, stopped_append, hstop], fun _ => hstatus, ?_⟩
    rw [hlog]
    exact tunnels_append (fun he => nomatch he) h.tunnels

theorem disconnect_keeps (byUser : Bool) (s : MyVpnService) : Keeps s (disconnect byUser s) := by
  unfold disconnect
  split_ifs
  · exact .refl s
  · exact .inr ⟨rfl, rfl, rfl⟩

theorem forceDisconnect_spec (s : MyVpnService) :
    (forceDisconnect s).log = s.log ++ [.disconnected] ∧ (forceDisconnect s).mStopService = true ∧
      (forceDisconnect s).mStatus = .DISCONNECTED := by
  rw [forceDisconnect, disconnect, if_neg (by simp)]
  exact ⟨rfl, rfl, rfl⟩

theorem retry_keeps (s : MyVpnService) : Keeps s (retry s) := by
  unfold retry
  split_ifs with hid hstatus hstop
  · exact disconnect_keeps true s
  · exact .refl s
  · exact .refl s
  · exact .inl ⟨rfl, rfl, fun hs => absurd hs hstop⟩

theorem runRetryRunnable_keeps (s : MyVpnService) : Keeps s (runRetryRunnable s) := by
  unfold runRetryRunnable
  split
  · exact .refl s
  · simp only
    split_ifs
    · exact .inl ⟨rfl, rfl, fun _ h => h⟩
    · exact .inl ⟨rfl, rfl, fun _ h => h⟩

theorem onNetworkDisconnected_keeps (s : MyVpnService) : Keeps s (onNetworkDisconnected s) := by
  unfold onNetworkDisconnected
  split_ifs with hstatus
  · exact .refl s
  · exact .inl ⟨rfl, rfl, fun _ h => absurd (.inl h) hstatus⟩

theorem onNetworkConnected_keeps (changed : Bool) (s : MyVpnService) : Keeps s (onNetworkConnected changed s) := by
  unfold onNetworkConnected
  split_ifs
  · exact retry_keeps s
  · exact retry_keeps s
  · exact .refl s

theorem connectFails_keeps (authFailed isConnected : Bool) (s : MyVpnService) :
    Keeps s (connectFails authFailed isConnected s) := by
  unfold connectFails
  split
  · exact .refl s
  · simp only
    split_ifs
    · exact .inl ⟨rfl, rfl, fun _ h => h⟩
    · exact disconnect_keeps true { s with connecting := none }
    · exact retry_keeps { s with connecting := none }

/-- A stopped service connects to nothing, if there is a network. -/
theorem connect_keeps {isConnected : Bool} (loaded : Loaded) (h : s.mStopService = true → isConnected = true) :
    Keeps s (connect isConnected loaded s) := by
  unfold connect
  split_ifs with hnet hconfig hstop hconnected
  · refine .inl ⟨rfl, rfl, fun hs hstatus => ?_⟩
    rcases hnet with hnet | hnet
    · rw [hstatus] at hnet
      cases hnet
    · rw [h hs] at hnet
      cases hnet
  · exact .refl s
  · exact .refl s
  · exact .refl s
  · have hkeep : ∀ t : MyVpnService, t.log = s.log → Keeps s (forceDisconnect t) := by
      intro t hlog
      have hspec := forceDisconnect_spec t
      rw [hlog] at hspec
      exact .inr hspec
    cases loaded with
    | config getClass => exact .inl ⟨rfl, rfl, fun hs => absurd hs hstop⟩
    | null => exact hkeep _ rfl
    | noConfig => exact hkeep _ rfl
    | noProxy => exact hkeep _ rfl

theorem handleMessage_consistent (h : Consistent s) {isConnected : Bool} {loaded : Loaded} {command : Command}
    (hg : s.mStopService = true → ∀ configId configType, command = .CONNECT configId configType .MODE_RECONNECT →
      isConnected = true) : Consistent (handleMessage isConnected loaded command s) := by
  cases command with
  | CONNECT configId configType mode =>
    cases mode with
    | MODE_CONNECT =>
      refine Consistent.keeps ⟨?_, ?_, ?_⟩ (connect_keeps loaded ?_)
      · exact stopped_append _ _
      · intro hs
        cases hs
      · exact tunnels_append (fun he => nomatch he) h.tunnels
      · intro hs
        cases hs
    | MODE_RECONNECT =>
      refine Consistent.keeps ⟨?_, ?_, ?_⟩ (connect_keeps loaded ?_)
      · exact (stopped_append _ _).trans h.stopped
      · exact h.status
      · exact tunnels_append (fun he => nomatch he) h.tunnels
      · intro hs
        exact hg hs configId configType rfl
  | DISCONNECT byUser => exact h.keeps (disconnect_keeps byUser s)
  | RECONNECT => exact h.keeps (retry_keeps s)

/-- A service that is not stopped opens a tunnel. -/
theorem openTun_consistent (h : Consistent s) (hs : s.mStopService = false) : Consistent (openTun s) := by
  refine ⟨(stopped_append _ _).trans h.stopped, h.status, ?_⟩
  exact tunnels_append (fun _ => h.stopped.trans hs) h.tunnels

/-- **A step that looks at `mStopService`, or comes while it is not set, keeps the service
consistent.** -/
theorem step_consistent (h : Consistent s) (hg : s.mStopService = true → ¬ Unchecked s e) :
    Consistent (step s e) := by
  -- a report while the service is not stopped
  have hreport : ∀ t : MyVpnService, t.log = s.log → t.mStopService = s.mStopService →
      s.mStopService = false → Consistent t := by
    intro t hlog hstop hs
    refine h.keeps (.inl ⟨hlog, hstop, fun hs' => ?_⟩)
    rw [hs] at hs'
    cases hs'
  have hopen : Unchecked s e → s.mStopService = false := by
    intro hu
    by_contra hs
    exact hg (by simpa using hs) hu
  cases e with
  | startCommand command => exact h.keeps (.inl ⟨rfl, rfl, fun _ h => h⟩)
  | handle isConnected loaded =>
    simp only [step]
    split
    · rename_i command messages hconnecting hmessages
      have hpop : Consistent { s with messages := messages } := h.keeps (.inl ⟨rfl, rfl, fun _ h => h⟩)
      refine handleMessage_consistent hpop ?_
      rintro hs configId configType rfl
      by_contra hnet
      exact hg hs ⟨by simpa using hnet, hconnecting, configId, configType, messages, hmessages⟩
    · exact h
  | connectOpensTun =>
    simp only [step, connectOpensTun]
    split
    · rename_i c hc
      split_ifs with hssh
      · have hs := hopen ⟨c, hc, hssh⟩
        exact openTun_consistent (s := { s with connecting := _ }) (h.keeps (.inl ⟨rfl, rfl, fun _ h => h⟩)) hs
      · exact h
    · exact h
  | connectReturns =>
    simp only [step, connectReturns]
    split
    · rename_i c hc
      split
      · rename_i hssh
        split_ifs with htun
        · exact hreport _ rfl rfl (hopen ⟨c, hc, hssh, htun⟩)
        · exact h
      · exact h.keeps (.inl ⟨rfl, rfl, fun _ h => h⟩)
    · exact h
  | connectFails authFailed isConnected => exact h.keeps (connectFails_keeps authFailed isConnected s)
  | engine ref callback =>
    simp only [step]
    split_ifs
    · exact h.keeps (.inl ⟨rfl, rfl, fun _ h => h⟩)
    · exact h
  | configDisconnected ref =>
    simp only [step]
    split_ifs
    · exact h.keeps (.inl ⟨rfl, rfl, fun _ h => h⟩)
    · exact h
  | deliver i =>
    simp only [step]
    split
    · exact h
    · rename_i callback hcallback
      have hs := hopen (List.getElem?_eq_some_iff.1 hcallback).1
      cases callback with
      | openTun =>
        exact openTun_consistent (s := { s with inFlight := _ }) (h.keeps (.inl ⟨rfl, rfl, fun _ h => h⟩)) hs
      | onConnect => exact hreport _ rfl rfl hs
      | onReconnecting => exact hreport _ rfl rfl hs
  | retryRunnable => exact h.keeps (runRetryRunnable_keeps s)
  | networkDisconnected => exact h.keeps (onNetworkDisconnected_keeps s)
  | networkConnected changed => exact h.keeps (onNetworkConnected_keeps changed s)
  | forceDisconnect => exact h.keeps (disconnect_keeps true s)

/-- A stopped service that opens a tunnel is not final. -/
theorem not_final_of_openTun (h : Consistent s) (hs : s.mStopService = true)
    (hlog : s'.log = s.log ++ [.openTun]) : ¬ Final s' := by
  intro hf
  have hfalse := hf.tunnels s.log [] hlog
  rw [h.stopped, hs] at hfalse
  cases hfalse

/-- A stopped service with another status is not final. -/
theorem not_final_of_status (hlog : stopped s'.log = true) (hstatus : s'.mStatus ≠ .DISCONNECTED) :
    ¬ Final s' := fun hf => hstatus (hf.status hlog)

/-- **A step of a stopped service that does not look at `mStopService` is not final.** -/
theorem not_final_of_unchecked (h : Consistent s) (hs : s.mStopService = true) (hu : Unchecked s e) :
    ¬ Final (step s e) := by
  have hstopped : stopped s.log = true := h.stopped.trans hs
  cases e with
  | connectOpensTun =>
    obtain ⟨c, hc, hssh⟩ := hu
    apply not_final_of_openTun h hs
    simp only [step, connectOpensTun, hc, if_pos hssh]
    rfl
  | connectReturns =>
    obtain ⟨c, hc, hssh, htun⟩ := hu
    apply not_final_of_status
    · simp only [step, connectReturns, hc, hssh, htun, if_true]
      exact hstopped
    · simp only [step, connectReturns, hc, hssh, htun, if_true]
      exact fun hne => nomatch hne
  | deliver i =>
    have hget := List.getElem?_eq_getElem hu
    cases hcallback : s.inFlight[i] with
    | openTun =>
      apply not_final_of_openTun h hs
      simp only [step, hget, hcallback]
      rfl
    | onConnect =>
      apply not_final_of_status
      · simp only [step, hget, hcallback]
        exact hstopped
      · simp only [step, hget, hcallback]
        exact fun hne => nomatch hne
    | onReconnecting =>
      apply not_final_of_status
      · simp only [step, hget, hcallback]
        exact hstopped
      · simp only [step, hget, hcallback]
        exact fun hne => nomatch hne
  | handle isConnected loaded =>
    obtain ⟨rfl, hc, configId, configType, messages, hm⟩ := hu
    apply not_final_of_status
    · simp only [step, hc, hm, handleMessage, connect, or_true, if_true, stopped_append]
      exact hstopped
    · simp only [step, hc, hm, handleMessage, connect, or_true, if_true]
      exact fun hne => nomatch hne
  | startCommand command => exact hu.elim
  | connectFails authFailed isConnected => exact hu.elim
  | engine ref callback => exact hu.elim
  | configDisconnected ref => exact hu.elim
  | retryRunnable => exact hu.elim
  | networkDisconnected => exact hu.elim
  | networkConnected changed => exact hu.elim
  | forceDisconnect => exact hu.elim

theorem consistent_new : Consistent {} where
  stopped := rfl
  status := fun h => nomatch h
  tunnels := by
    intro before later h
    exact absurd h (by simp)

/-- **A disconnect is final in every state of a run exactly if no unchecked step comes while
`mStopService` is set.** -/
theorem disconnect_final_iff (es : List Event) :
    Run.Always step (fun s e => Final (step s e)) {} es ↔
      Run.Always step (fun s e => s.mStopService = true → ¬ Unchecked s e) {} es := by
  refine Run.Always.iff_of_invariant ?_ ?_ consistent_new
  · intro s e h hg
    have hnext := step_consistent h hg
    exact ⟨hnext.final, hnext⟩
  · intro s e h hf hs hu
    exact not_final_of_unchecked h hs hu hf

/-- The VPN is revoked while an SSH config connects: the tunnel is opened and the service is
connected. -/
theorem revoked_attempt_not_final :
    ¬ Run.Always step (fun s e => Final (step s e)) {}
      [.startCommand (.CONNECT (some "1") (some "SSH") .MODE_CONNECT), .handle true (.config .SSHConfig),
        .forceDisconnect, .connectOpensTun, .connectReturns] := by
  intro h
  have hfinal := h.2.2.2.2.1
  exact absurd (hfinal.status (by decide)) (by decide)

/-! ## Reconnect requests -/

/-- A `RetryRunnable` is scheduled, or a CONNECT command is queued or being handled. -/
def Pending (s : MyVpnService) : Prop :=
  s.retryRunnable.isSome ∨ s.connecting.isSome ∨
    ∃ configId configType mode, .CONNECT configId configType mode ∈ s.messages

/-- A `RetryRunnable` is scheduled, or a CONNECT command with a config id is queued. -/
def Scheduled (s : MyVpnService) : Prop :=
  s.retryRunnable.isSome ∨ ∃ configId configType mode, .CONNECT (some configId) configType mode ∈ s.messages

/-- The service thread handles a RECONNECT command that asks for an attempt. -/
def HandlesReconnect (s : MyVpnService) : Event → Prop
  | .handle _ _ => s.connecting = none ∧ (∃ messages, s.messages = .RECONNECT :: messages) ∧
      isEmpty s.mConfigId = false ∧ s.mStopService = false ∧
      s.mStatus ≠ .DISCONNECTING ∧ s.mStatus ≠ .DISCONNECTED
  | _ => False

/-- `onReconnecting` runs only where an attempt is pending, and CONNECT commands have a type. -/
def Backed (s : MyVpnService) : Event → Prop
  | .startCommand (.CONNECT _ configType _) => configType ≠ none
  | .deliver i => s.inFlight[i]? = some .onReconnecting → s.mStopService = false → Scheduled s
  | _ => True

/-- Config ids come with types. -/
structure Typed (s : MyVpnService) : Prop where
  config : s.mConfigId ≠ none → s.mConfigType ≠ none
  messages : ∀ configId configType mode, .CONNECT configId configType mode ∈ s.messages → configType ≠ none
  runnable : ∀ configId configType, s.retryRunnable = some (configId, configType) →
    configId ≠ none ∧ configType ≠ none

/-- The status RETRYING stands for an attempt that is pending. -/
structure Accounted (s : MyVpnService) : Prop extends Typed s where
  retrying : s.mStatus = .RETRYING → s.mStopService = false → s.mConfigId ≠ none → Scheduled s

theorem ne_none_of_not_isEmpty {text : Option String} (h : isEmpty text = false) : text ≠ none := by
  rintro rfl
  cases h

/-- Fields that `Accounted` does not read. -/
theorem Accounted.congr (h : Accounted s) (hid : s'.mConfigId = s.mConfigId) (htype : s'.mConfigType = s.mConfigType)
    (hmessages : s'.messages = s.messages) (hrunnable : s'.retryRunnable = s.retryRunnable)
    (hstop : s'.mStopService = s.mStopService) (hstatus : s'.mStatus = .RETRYING → s.mStatus = .RETRYING) :
    Accounted s' where
  config := by
    rw [hid, htype]
    exact h.config
  messages := by
    rw [hmessages]
    exact h.messages
  runnable := by
    rw [hrunnable]
    exact h.runnable
  retrying := by
    intro hs
    rw [hstop, hid, Scheduled, hmessages, hrunnable]
    exact h.retrying (hstatus hs)

theorem disconnect_accounted (byUser : Bool) (h : Accounted s) : Accounted (disconnect byUser s) := by
  unfold disconnect
  split_ifs
  · exact h
  · exact ⟨⟨h.config, h.messages, fun _ _ hr => nomatch hr⟩, fun hs => nomatch hs⟩

theorem Typed.forceDisconnect (h : Typed s) : Accounted (forceDisconnect s) := by
  rw [MyVpnService.forceDisconnect, disconnect, if_neg (by simp)]
  exact ⟨⟨h.config, h.messages, fun _ _ hr => nomatch hr⟩, fun hs => nomatch hs⟩

theorem retry_accounted (h : Accounted s) : Accounted (retry s) := by
  unfold retry
  split_ifs with hid hstatus hstop
  · exact disconnect_accounted true h
  · exact h
  · exact h
  · have hne := ne_none_of_not_isEmpty (by simpa using hid)
    refine ⟨⟨h.config, h.messages, ?_⟩, fun _ _ _ => .inl rfl⟩
    intro configId configType hr
    cases hr
    exact ⟨hne, h.config hne⟩

/-- After `retry` something is scheduled, if the status allowed it. -/
theorem retry_scheduled (h : Accounted s) (hid : isEmpty s.mConfigId = false) (hstop : s.mStopService = false)
    (h1 : s.mStatus ≠ .DISCONNECTING) (h2 : s.mStatus ≠ .DISCONNECTED) : Scheduled (retry s) := by
  unfold retry
  rw [if_neg (by simp [hid])]
  split_ifs with hstatus hs
  · -- only RETRYING makes `retry` return, and it stands for something scheduled
    rcases hstatus with hs | hs | hs
    · exact absurd hs h1
    · exact absurd hs h2
    · exact h.retrying hs hstop (ne_none_of_not_isEmpty hid)
  · rw [hstop] at hs
    cases hs
  · exact .inl rfl

/-- A CONNECT command leaves no status RETRYING that nothing stands for. -/
theorem connect_accounted (h : Typed s) (htype : s.mConfigType ≠ none) (isConnected : Bool) (loaded : Loaded) :
    Accounted (connect isConnected loaded s) := by
  unfold connect
  split_ifs with hnet hconfig hstop hconnected
  · exact ⟨⟨h.config, h.messages, h.runnable⟩, fun hs => nomatch hs⟩
  · -- a config id comes with a type, so this is a command without an id
    refine ⟨h, fun _ _ hid => ?_⟩
    rcases hconfig with hnone | hnone
    · exact absurd hnone htype
    · exact absurd hnone hid
  · refine ⟨h, fun _ hs => ?_⟩
    rw [hstop] at hs
    cases hs
  · refine ⟨h, fun hs => ?_⟩
    rw [hconnected] at hs
    cases hs
  · cases loaded with
    | config getClass => exact ⟨⟨h.config, h.messages, h.runnable⟩, fun hs => nomatch hs⟩
    | null => exact Typed.forceDisconnect ⟨h.config, h.messages, h.runnable⟩
    | noConfig => exact Typed.forceDisconnect ⟨h.config, h.messages, h.runnable⟩
    | noProxy => exact Typed.forceDisconnect ⟨h.config, h.messages, h.runnable⟩

/-- A message that is no CONNECT command is taken. -/
theorem Accounted.pop (h : Accounted s) {command : Command} {messages : List Command}
    (hm : s.messages = command :: messages)
    (hc : ∀ configId configType mode, command ≠ .CONNECT configId configType mode) :
    Accounted { s with messages := messages } := by
  refine ⟨⟨h.config, ?_, h.runnable⟩, ?_⟩
  · intro configId configType mode hmem
    exact h.messages configId configType mode (hm ▸ List.mem_cons_of_mem _ hmem)
  · intro hs hstop hid
    rcases h.retrying hs hstop hid with hr | ⟨configId, configType, mode, hmem⟩
    · exact .inl hr
    · rw [hm] at hmem
      rcases List.mem_cons.1 hmem with heq | hmem
      · exact absurd heq.symm (hc _ _ _)
      · exact .inr ⟨configId, configType, mode, hmem⟩

theorem handleMessage_accounted (h : Accounted s) {command : Command} {messages : List Command}
    (hm : s.messages = command :: messages) (isConnected : Bool) (loaded : Loaded) :
    Accounted (handleMessage isConnected loaded command { s with messages := messages }) := by
  cases command with
  | CONNECT configId configType mode =>
    have htype := h.messages configId configType mode (hm ▸ List.mem_cons_self)
    rw [handleMessage]
    apply connect_accounted _ htype
    refine ⟨fun _ => htype, ?_, h.runnable⟩
    intro configId' configType' mode' hmem
    exact h.messages configId' configType' mode' (hm ▸ List.mem_cons_of_mem _ hmem)
  | DISCONNECT byUser => exact disconnect_accounted byUser (h.pop hm (by simp))
  | RECONNECT => exact retry_accounted (h.pop hm (by simp))

/-- A message is queued. -/
theorem Accounted.push (h : Accounted s) {command : Command}
    (hc : ∀ configId configType mode, command = .CONNECT configId configType mode → configType ≠ none) :
    Accounted { s with messages := s.messages ++ [command] } := by
  refine ⟨⟨h.config, ?_, h.runnable⟩, ?_⟩
  · intro configId configType mode hmem
    rcases List.mem_append.1 hmem with hmem | hmem
    · exact h.messages configId configType mode hmem
    · exact hc _ _ _ (List.mem_singleton.1 hmem).symm
  · intro hs hstop hid
    rcases h.retrying hs hstop hid with hr | ⟨configId, configType, mode, hmem⟩
    · exact .inl hr
    · exact .inr ⟨configId, configType, mode, List.mem_append_left _ hmem⟩

theorem runRetryRunnable_accounted (h : Accounted s) : Accounted (runRetryRunnable s) := by
  unfold runRetryRunnable
  split
  · exact h
  · rename_i configId configType hr
    obtain ⟨hid, htype⟩ := h.runnable configId configType hr
    simp only
    split_ifs with hstatus
    · refine ⟨⟨h.config, h.messages, fun _ _ hr => nomatch hr⟩, fun hs => ?_⟩
      rcases hstatus with h' | h' | h' <;> rw [show s.mStatus = .RETRYING from hs] at h' <;> cases h'
    · -- the command takes the place of the runnable
      refine ⟨⟨h.config, ?_, fun _ _ hr => nomatch hr⟩, fun _ _ _ => ?_⟩
      · intro configId' configType' mode' hmem
        rcases List.mem_append.1 hmem with hmem | hmem
        · exact h.messages configId' configType' mode' hmem
        · cases List.mem_singleton.1 hmem
          exact htype
      · obtain ⟨id, rfl⟩ := Option.ne_none_iff_exists'.1 hid
        exact .inr ⟨id, configType, .MODE_RECONNECT, List.mem_append_right _ (List.mem_singleton_self _)⟩

/-- **A step keeps the status RETRYING accounted for, unless `onReconnecting` sets it.** -/
theorem step_accounted (h : Accounted s) (hb : Backed s e) : Accounted (step s e) := by
  cases e with
  | startCommand command =>
    refine h.push ?_
    rintro configId configType mode rfl
    exact hb
  | handle isConnected loaded =>
    simp only [step]
    split
    · rename_i command messages _ hm
      exact handleMessage_accounted h hm isConnected loaded
    · exact h
  | connectOpensTun =>
    simp only [step, connectOpensTun]
    split
    · split_ifs
      · exact h.congr rfl rfl rfl rfl rfl fun hs => hs
      · exact h
    · exact h
  | connectReturns =>
    simp only [step, connectReturns]
    split
    · split
      · split_ifs
        · exact h.congr rfl rfl rfl rfl rfl fun hs => nomatch hs
        · exact h
      · exact h.congr rfl rfl rfl rfl rfl fun hs => hs
    · exact h
  | connectFails authFailed isConnected =>
    simp only [step, connectFails]
    split
    · exact h
    · rename_i c hc
      have hidle : Accounted { s with connecting := none } := h.congr rfl rfl rfl rfl rfl fun hs => hs
      split_ifs
      · exact hidle
      · exact disconnect_accounted true hidle
      · exact retry_accounted hidle
  | engine ref callback =>
    simp only [step]
    split_ifs
    · exact h.congr rfl rfl rfl rfl rfl fun hs => hs
    · exact h
  | configDisconnected ref =>
    simp only [step]
    split_ifs
    · exact h.push (by simp)
    · exact h
  | deliver i =>
    -- the guard is there for `onReconnecting`, the one callback that sets RETRYING
    simp only [step]
    split
    · exact h
    · rename_i callback hcallback
      cases callback with
      | openTun => exact h.congr rfl rfl rfl rfl rfl fun hs => hs
      | onConnect => exact h.congr rfl rfl rfl rfl rfl fun hs => nomatch hs
      | onReconnecting => exact ⟨⟨h.config, h.messages, h.runnable⟩, fun _ hstop _ => hb hcallback hstop⟩
  | retryRunnable => exact runRetryRunnable_accounted h
  | networkDisconnected =>
    simp only [step, onNetworkDisconnected]
    split_ifs
    · exact h
    · exact h.congr rfl rfl rfl rfl rfl fun hs => nomatch hs
  | networkConnected changed =>
    simp only [step, onNetworkConnected]
    split_ifs
    · exact retry_accounted h
    · exact retry_accounted h
    · exact h
  | forceDisconnect => exact disconnect_accounted true h

theorem Scheduled.pending (h : Scheduled s) : Pending s := by
  rcases h with hr | ⟨configId, configType, mode, hmem⟩
  · exact .inl hr
  · exact .inr (.inr ⟨_, _, _, hmem⟩)

/-- A reconnect request is not lost while the status is accounted for. -/
theorem pending_of_handlesReconnect (h : Accounted s) (hr : HandlesReconnect s e) : Pending (step s e) := by
  cases e with
  | handle isConnected loaded =>
    obtain ⟨hc, ⟨messages, hm⟩, hid, hstop, h1, h2⟩ := hr
    have hstep : step s (.handle isConnected loaded) = retry { s with messages := messages } := by
      simp only [step]
      split
      · rename_i command messages' _ hm'
        obtain ⟨rfl, rfl⟩ := List.cons.inj (hm.symm.trans hm')
        exact rfl
      · rename_i hbusy
        exact (hbusy _ _ hc hm).elim
    rw [hstep]
    exact (retry_scheduled (h.pop hm (by simp)) hid hstop h1 h2).pending
  | _ => exact hr.elim

/-- **In every run in which `onReconnecting` comes only where an attempt is pending, no
reconnect request is lost.** -/
theorem reconnects_not_lost (es : List Event) (hes : Run.Always step Backed {} es) :
    Run.Always step (fun s e => HandlesReconnect s e → Pending (step s e)) {} es := by
  refine Run.Always.of_invariant ?_ (?_ : Accounted {}) hes
  · intro s e h hb
    exact ⟨pending_of_handlesReconnect h, step_accounted h hb⟩
  · exact ⟨⟨fun h => absurd rfl h, by simp, by simp⟩, by simp⟩

/-- An OpenVPN config reconnects of its own accord, its process ends, and nothing is pending
after the RECONNECT command. -/
theorem reconnecting_engine_lost :
    ¬ Run.Always step (fun s e => HandlesReconnect s e → Pending (step s e)) {}
      [.startCommand (.CONNECT (some "1") (some "OpenVPN") .MODE_CONNECT), .handle true (.config .OpenVpnConfig),
        .connectReturns, .engine 0 .onConnect, .deliver 0, .engine 0 .onReconnecting, .deliver 0,
        .configDisconnected 0, .handle true .null] := by
  intro h
  have hlast := h.2.2.2.2.2.2.2.2.1
  have hpending := hlast ⟨by decide, ⟨[], by decide⟩, by decide, by decide, by decide, by decide⟩
  rcases hpending with hr | hc | ⟨configId, configType, mode, hm⟩
  · exact absurd hr (by decide)
  · exact absurd hc (by decide)
  · exact absurd hm List.not_mem_nil

/-- An OpenVPN config that loses its connection is connected again. -/
theorem lost_connection_not_lost :
    Run.Always step (fun s e => HandlesReconnect s e → Pending (step s e)) {}
      [.startCommand (.CONNECT (some "1") (some "OpenVPN") .MODE_CONNECT), .handle true (.config .OpenVpnConfig),
        .connectReturns, .engine 0 .onConnect, .deliver 0, .configDisconnected 0, .handle true .null] := by
  refine reconnects_not_lost _ ⟨by simp [Backed], trivial, trivial, trivial, ?_, trivial, trivial, trivial⟩
  intro h
  exact absurd h (by decide)

end MyVpnService

end SmartTunnel
