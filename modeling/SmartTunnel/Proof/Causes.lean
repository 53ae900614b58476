import SmartTunnel.Model.Causes

/-!
# Which handlers come to their end

Both loops take the next exception from `e` and not from `t`, so they look at the exception and at its cause
and no further: a loop that has found no message in these two goes on for ever. Without a cause the loop of
`ChannelV4TCP.run` ends and the one of `MyVpnService.connect` does not (`causeWalks_iff`).
-/

namespace SmartTunnel

open Jvm Fueled

/-- The first message along the chain. -/
def Throwable.firstMessage : Throwable → Option String
  | root message => message
  | causedBy message cause => message.or cause.firstMessage

/-- The first message of the exception and its cause. -/
def Throwable.messageOfTwo (e : Throwable) : Option String := e.getMessage.or (e.getCause.bind getMessage)

variable {e : Throwable} {message : String}

theorem Throwable.firstMessage_of_two (h : e.messageOfTwo = some message) : e.firstMessage = some message := by
  cases e with
  | root m => simpa [messageOfTwo, firstMessage, getMessage, getCause] using h
  | causedBy m cause =>
    cases m with
    | some m => simpa [messageOfTwo, firstMessage, getMessage] using h
    | none =>
      have hc : cause.getMessage = some message := by simpa [messageOfTwo, getMessage, getCause] using h
      cases cause with
      | root m => simpa [firstMessage, getMessage] using hc
      | causedBy m cause =>
        obtain rfl : m = some message := hc
        rfl

/-! ## `ChannelV4TCP.run` -/

namespace ChannelV4TCP

/-- The handler does what it is for: the first message is logged, if there is one, and the channel closed. -/
def Handles (e : Throwable) : Prop :=
  Ends (fun n => messageOf n e) (.ok e.firstMessage) ∧
    Ends (fun n => caught n e) (.ok ((e.firstMessage.map .logError).toList ++ [.close]))

theorem handles_iff_messageOf : Handles e ↔ Ends (fun n => messageOf n e) (.ok e.firstMessage) := by
  refine ⟨fun h => h.1, fun h => ⟨h, ?_⟩⟩
  unfold caught
  exact ends_bind_iff.2 ⟨e.firstMessage, h, rfl⟩

/-- The loop, from a state of its variables. -/
abbrev walk (e : Throwable) (s : MessageLoop) (n : ℕ) : Fueled MessageLoop :=
  whileDo (fun s => s.t.isSome) (messageRound e) n s

theorem messageOf_ends_iff {m : Option String} :
    Ends (fun n => messageOf n e) (.ok m) ↔ ∃ s, Ends (walk e ⟨none, some e⟩) (.ok s) ∧ s.message = m := by
  unfold messageOf
  exact ends_map_iff

/-- **The handler of `run` comes to its end** iff the exception or its cause has a message, or there is no cause. -/
theorem handles_iff (e : Throwable) : Handles e ↔ e.messageOfTwo.isSome ∨ e.getCause = none := by
  rw [handles_iff_messageOf, messageOf_ends_iff]
  cases hm : e.getMessage with
  | some m =>
    have htwo : e.messageOfTwo = some m := by simp [Throwable.messageOfTwo, hm]
    have hleave : Ends (walk e ⟨none, some e⟩) (.ok ⟨some m, some e⟩) :=
      whileDo_leave rfl (by simp [messageRound, hm])
    refine ⟨fun _ => .inl (by simp [htwo]), fun _ => ⟨_, hleave, ?_⟩⟩
    rw [Throwable.firstMessage_of_two htwo]
  | none =>
    -- the first round goes on to the cause
    have hround : messageRound e ⟨none, some e⟩ = .goOn ⟨none, e.getCause⟩ := by simp [messageRound, hm]
    cases hc : e.getCause with
    | none =>
      rw [hc] at hround
      have hends : Ends (walk e ⟨none, some e⟩) (.ok ⟨none, none⟩) := whileDo_goOn rfl hround (whileDo_done rfl)
      refine ⟨fun _ => .inr rfl, fun _ => ⟨_, hends, ?_⟩⟩
      cases e with
      | root m => exact hm.symm
      | causedBy m cause => cases hc
    | some cause =>
      rw [hc] at hround
      cases hm' : cause.getMessage with
      | some m =>
        have htwo : e.messageOfTwo = some m := by simp [Throwable.messageOfTwo, hm, hc, hm']
        have hleave : Ends (walk e ⟨none, some cause⟩) (.ok ⟨some m, some cause⟩) :=
          whileDo_leave rfl (by simp [messageRound, hm'])
        have hends : Ends (walk e ⟨none, some e⟩) (.ok ⟨some m, some cause⟩) := whileDo_goOn rfl hround hleave
        refine ⟨fun _ => .inl (by simp [htwo]), fun _ => ⟨_, hends, ?_⟩⟩
        rw [Throwable.firstMessage_of_two htwo]
      | none =>
        -- and from the cause to the cause
        have hstuck : messageRound e ⟨none, some cause⟩ = .goOn ⟨none, some cause⟩ := by
          simp [messageRound, hm', hc]
        have hdiv : Diverges (walk e ⟨none, some e⟩) := whileDo_goOn_diverges rfl hround (whileDo_stuck rfl hstuck)
        have htwo : e.messageOfTwo = none := by simp [Throwable.messageOfTwo, hm, hc, hm']
        constructor
        · rintro ⟨s, hs, -⟩
          exact absurd hs (hdiv.not_ends _)
        · rintro (hsome | hnone)
          · rw [htwo] at hsome
            cases hsome
          · cases hnone

end ChannelV4TCP

/-! ## `MyVpnService.connect` -/

namespace MyVpnService

/-- The handler does what it is for: the first message is logged and the connection tried again. -/
def Handles (e : Throwable) : Prop :=
  Ends (fun n => messageOf n e) (.ok e.firstMessage) ∧
    ∃ done, Ends (fun n => caught n e) (.ok done) ∧ .retry ∈ done

/-- The loop, from a state of its variables. -/
abbrev walk (e : Throwable) (s : MessageLoop) (n : ℕ) : Fueled MessageLoop :=
  whileDo (fun s => s.message.isNone) (messageRound e) n s

theorem messageOf_ends_iff {m : Option String} :
    Ends (fun n => messageOf n e) (.ok m) ↔ ∃ s, Ends (walk e ⟨none, some e⟩) (.ok s) ∧ s.message = m := by
  unfold messageOf
  exact ends_map_iff

/-- What the loop knows: it has no message yet and looks at the exception, or at the cause of one without a message,
or it has the message of the two. -/
def Knows (e : Throwable) (s : MessageLoop) : Prop :=
  (s.message = none ∧ (s.t = some e ∨ (e.getMessage = none ∧ s.t = e.getCause))) ∨
    (s.message.isSome ∧ s.message = e.messageOfTwo)

theorem Knows.round {s s' : MessageLoop} (h : Knows e s) (hc : s.message.isNone = true)
    (hb : messageRound e s = .goOn s') : Knows e s' := by
  obtain ⟨hnone, ht⟩ | ⟨hsome, -⟩ := h
  · obtain rfl : _ = s' := by simpa [messageRound] using hb
    -- it looks at the exception, or at its cause
    rcases ht with ht | ⟨hm, ht⟩
    · cases hm : e.getMessage with
      | some m => exact .inr (by simp [ht, hm, Throwable.messageOfTwo])
      | none => exact .inl (by simp [ht, hm])
    · cases hc' : e.getCause with
      | none => exact .inl (by simp [ht, hm, hc', hnone])
      | some cause =>
        cases hm' : cause.getMessage with
        | some m => exact .inr (by simp [ht, hm, hc', hm', Throwable.messageOfTwo])
        | none => exact .inl (by simp [ht, hm, hc', hm'])
  · rw [Option.isNone_iff_eq_none] at hc
    rw [hc] at hsome
    cases hsome

/-- A message the loop ends with is the one of the two. -/
theorem messageOfTwo_of_ends {m : Option String} (h : Ends (fun n => messageOf n e) (.ok m)) :
    m.isSome ∧ e.messageOfTwo = m := by
  obtain ⟨s, hs, rfl⟩ := messageOf_ends_iff.1 h
  have hknows := whileDo_invariant (fun _ _ hI hc hb => Knows.round hI hc hb) (.inl ⟨rfl, .inl rfl⟩) hs
  rcases hknows with ⟨⟨hnone, -⟩ | ⟨hsome, hm⟩, hdone⟩ | ⟨u, -, -, hleave⟩
  · rw [hnone] at hdone
    cases hdone
  · exact ⟨hsome, hm.symm⟩
  · cases hleave

/-- With a message in the two the loop ends. -/
theorem messageOf_ends (h : e.messageOfTwo = some message) :
    Ends (fun n => messageOf n e) (.ok (some message)) := by
  rw [messageOf_ends_iff]
  cases hm : e.getMessage with
  | some m =>
    obtain rfl : m = message := by simpa [Throwable.messageOfTwo, hm] using h
    have hround : messageRound e ⟨none, some e⟩ = .goOn ⟨some m, some e⟩ := by simp [messageRound, hm]
    exact ⟨_, whileDo_goOn rfl hround (whileDo_done rfl), rfl⟩
  | none =>
    obtain ⟨cause, hc, hm'⟩ : ∃ cause, e.getCause = some cause ∧ cause.getMessage = some message := by
      simpa [Throwable.messageOfTwo, hm, Option.bind_eq_some_iff] using h
    have hfirst : messageRound e ⟨none, some e⟩ = .goOn ⟨none, some cause⟩ := by simp [messageRound, hm, hc]
    have hsecond : messageRound e ⟨none, some cause⟩ = .goOn ⟨some message, some cause⟩ := by
      simp [messageRound, hm']
    exact ⟨_, whileDo_goOn rfl hfirst (whileDo_goOn rfl hsecond (whileDo_done rfl)), rfl⟩

theorem caught_ends_iff {done : List Handled} : Ends (fun n => caught n e) (.ok done) ↔
    ∃ m text, Ends (fun n => messageOf n e) (.ok m) ∧ errorText m = .ok text ∧
      done = [.logMessage text, .retry] := by
  unfold caught
  rw [ends_bind_iff]
  constructor
  · rintro ⟨m, hm, hrun⟩
    cases ht : errorText m with
    | error x =>
      rw [ht] at hrun
      cases hrun
    | ok text =>
      rw [ht] at hrun
      cases hrun
      exact ⟨m, text, hm, ht, rfl⟩
  · rintro ⟨m, text, hm, ht, rfl⟩
    exact ⟨m, hm, by rw [ht]; rfl⟩

/-- **The handler of `connect` comes to its end** iff the exception or its cause has a message, and the text with
the first one is a format without arguments. -/
theorem handles_iff (e : Throwable) :
    Handles e ↔ ∃ message, e.messageOfTwo = some message ∧ ∃ text, errorText (some message) = .ok text := by
  constructor
  · rintro ⟨-, done, hdone, -⟩
    obtain ⟨m, text, hm, ht, -⟩ := caught_ends_iff.1 hdone
    obtain ⟨hsome, htwo⟩ := messageOfTwo_of_ends hm
    obtain ⟨message, rfl⟩ := Option.isSome_iff_exists.1 hsome
    exact ⟨message, htwo, text, ht⟩
  · rintro ⟨message, htwo, text, ht⟩
    have hends := messageOf_ends htwo
    have hfirst := Throwable.firstMessage_of_two htwo
    exact ⟨by rw [hfirst]; exact hends, _, caught_ends_iff.2 ⟨_, text, hends, ht, rfl⟩, by simp⟩

end MyVpnService

/-- **When the walks along the causes come to their end**: the one of `run` finds a message in the exception or its
cause, or there is no cause; the one of `connect` finds a message there, and it can be formatted. -/
theorem causeWalks_iff (e : Throwable) :
    (ChannelV4TCP.Handles e ↔ e.messageOfTwo.isSome ∨ e.getCause = none) ∧
    (MyVpnService.Handles e ↔
      ∃ message, e.messageOfTwo = some message ∧ ∃ text, MyVpnService.errorText (some message) = .ok text) :=
  ⟨ChannelV4TCP.handles_iff e, MyVpnService.handles_iff e⟩

/-- Three exceptions, the last with the message: neither walk gets there. -/
theorem causeWalks_third :
    let e : Throwable := .causedBy none (.causedBy none (.root (some "Connection reset")))
    e.firstMessage = some "Connection reset" ∧ (Diverges fun n => ChannelV4TCP.messageOf n e) ∧
      (Diverges fun n => ChannelV4TCP.caught n e) ∧ (Diverges fun n => MyVpnService.messageOf n e) ∧
      Diverges fun n => MyVpnService.caught n e := by
  intro e
  have hrun : Diverges (ChannelV4TCP.walk e ⟨none, some e⟩) := whileDo_goOn_diverges rfl rfl (whileDo_stuck rfl rfl)
  have hconnect : Diverges (MyVpnService.walk e ⟨none, some e⟩) :=
    whileDo_goOn_diverges rfl rfl (whileDo_stuck rfl rfl)
  have hmessageOf : Diverges fun n => ChannelV4TCP.messageOf n e := hrun.bind
  have hmessageOf' : Diverges fun n => MyVpnService.messageOf n e := hconnect.bind
  exact ⟨rfl, hmessageOf, hmessageOf.bind, hmessageOf', hmessageOf'.bind⟩

end SmartTunnel
