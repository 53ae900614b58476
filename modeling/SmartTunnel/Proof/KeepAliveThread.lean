import SmartTunnel.Model.KeepAliveThread

/-!
# The law of the keep-alive timer

`onTimeOut` is for a peer that has not answered: it comes at most once, an interval after a `doWork` that no
`resetTimer()` followed, and never after `cancel()` (`Lawful`). The loop is left on two ways, and behind it
`onTimeOut` is called on both, so a `cancel()` of a running thread calls it; and a `resetTimer()` that comes
when the loop has been left comes too late. Without these two the law holds (`Inv.step`), and with one of them it
can always be broken (`Inv.unlawful`).
-/

namespace SmartTunnel.KeepAliveThread

variable {mIntervalSecond : ℤ} {trace : List KeepAliveAction} {s : KeepAliveThread}

/-! ## The law -/

/-- The timer was set at `t`, for the last `doWork`, and not reset since; `rest` is what has happened since. -/
def Since (t : ℤ) (rest trace : List KeepAliveAction) : Prop :=
  ∃ front, trace = front ++ .doWork t :: rest ∧ .resetTimer ∉ rest

/-- A full interval has passed since the last `doWork`, without a `resetTimer()`. -/
def Expired (mIntervalSecond : ℤ) (trace : List KeepAliveAction) : Prop :=
  ∃ t rest, Since t rest trace ∧ ∃ now, .clock now ∈ rest ∧ t + interval mIntervalSecond ≤ now

/-- **The law of the timer**, over what can be seen of it. -/
structure Lawful (mIntervalSecond : ℤ) (trace : List KeepAliveAction) : Prop where
  once : trace.count .onTimeOut ≤ 1
  timely : ∀ before after, trace = before ++ .onTimeOut :: after → Expired mIntervalSecond before
  quiet : ∀ before after, trace = before ++ .cancel :: after → .onTimeOut ∉ after ∧ ∀ t, .doWork t ∉ after

variable {t : ℤ} {rest : List KeepAliveAction} {a b : KeepAliveAction}

theorem Since.concat (h : Since t rest trace) (ha : a ≠ .resetTimer) : Since t (rest ++ [a]) (trace ++ [a]) := by
  obtain ⟨front, rfl, hrest⟩ := h
  refine ⟨front, by simp, ?_⟩
  simp only [List.mem_append, List.mem_singleton, not_or]
  exact ⟨hrest, ha.symm⟩

/-- Where an action stands in a trace with one more. -/
theorem concat_eq_split {before after : List KeepAliveAction} (h : trace ++ [a] = before ++ b :: after) :
    (trace = before ∧ a = b ∧ after = []) ∨ ∃ after', trace = before ++ b :: after' ∧ after = after' ++ [a] := by
  rcases List.eq_nil_or_concat after with rfl | ⟨after', c, rfl⟩
  · obtain ⟨hfront, hlast⟩ := List.append_inj' h rfl
    exact .inl ⟨hfront, by simpa using hlast, rfl⟩
  · rw [List.concat_eq_append, ← List.cons_append, ← List.append_assoc] at h
    obtain ⟨hfront, hlast⟩ := List.append_inj' h rfl
    obtain rfl : a = c := by simpa using hlast
    exact .inr ⟨after', hfront, by simp⟩

/-- An action that obeys the law: `onTimeOut` in its time, and nothing after `cancel()`. -/
theorem Lawful.concat (h : Lawful mIntervalSecond trace)
    (htimeOut : a = .onTimeOut → .onTimeOut ∉ trace ∧ Expired mIntervalSecond trace)
    (hquiet : (a = .onTimeOut ∨ ∃ t, a = .doWork t) → .cancel ∉ trace) : Lawful mIntervalSecond (trace ++ [a]) := by
  constructor
  · rw [List.count_append, List.count_singleton]
    by_cases ha : a = .onTimeOut
    · rw [List.count_eq_zero.2 (htimeOut ha).1]
      split <;> omega
    · have honce := h.once
      simpa [ha] using honce
  · intro before after hsplit
    rcases concat_eq_split hsplit with ⟨rfl, ha, -⟩ | ⟨after', htrace, -⟩
    · exact (htimeOut ha).2
    · exact h.timely before after' htrace
  · intro before after hsplit
    rcases concat_eq_split hsplit with ⟨-, -, rfl⟩ | ⟨after', htrace, rfl⟩
    · simp
    · obtain ⟨hout, hwork⟩ := h.quiet before after' htrace
      have hcancel : .cancel ∈ trace := by simp [htrace]
      constructor
      · intro hmem
        rcases List.mem_append.1 hmem with hmem | hmem
        · exact hout hmem
        · exact hquiet (.inl (List.mem_singleton.1 hmem).symm) hcancel
      · intro t hmem
        rcases List.mem_append.1 hmem with hmem | hmem
        · exact hwork t hmem
        · exact hquiet (.inr ⟨t, (List.mem_singleton.1 hmem).symm⟩) hcancel

/-! ## The invariant -/

/-- What `mKeepAliveSent` says, at each place of the loop: the timer runs from the last `doWork`. -/
def Flagged (mIntervalSecond : ℤ) (s : KeepAliveThread) : Prop :=
  match s.loop with
  | .notStarted | .starting | .sending => False
  | .resetting | .triggering _ | .timingOut | .ended => True
  | .working now => s.triggerTime = now + interval mIntervalSecond
  | .checking | .reading | .sleeping | .inWork =>
    ∃ t rest, Since t rest s.trace ∧ s.triggerTime = t + interval mIntervalSecond
  | .computing triggerTime =>
    ∃ t rest, Since t rest s.trace ∧ s.triggerTime = t + interval mIntervalSecond ∧ triggerTime = s.triggerTime
  | .checkingSent => Expired mIntervalSecond s.trace

/-- The thread is on its way. -/
def Alive (s : KeepAliveThread) : Prop := s.loop ≠ .notStarted ∧ s.loop ≠ .ended

structure Inv (mIntervalSecond : ℤ) (s : KeepAliveThread) : Prop where
  lawful : Lawful mIntervalSecond s.trace
  stopped : s.mStop = true ↔ .cancel ∈ s.trace
  quiet : s.mStop = true → ¬ s.Alive
  once : .onTimeOut ∈ s.trace → s.loop = .ended
  expired : s.loop = .timingOut → Expired mIntervalSecond s.trace
  flagged : s.mKeepAliveSent = true → Flagged mIntervalSecond s

/-- **The condition.** A stopped thread is not started, only a thread that is not on its way is stopped, and the timer
is not reset when the loop has been left. -/
def Guard (s : KeepAliveThread) : Event → Prop
  | .start => s.loop = .notStarted → s.mStop = false
  | .cancel => ¬ s.Alive
  | .resetTimer _ => s.loop ≠ .timingOut
  | _ => True

instance (s : KeepAliveThread) : Decidable s.Alive := inferInstanceAs (Decidable (_ ∧ _))

instance (s : KeepAliveThread) (e : Event) : Decidable (s.Guard e) :=
  match e with
  | .start => inferInstanceAs (Decidable (_ → _))
  | .cancel => inferInstanceAs (Decidable (¬ _))
  | .resetTimer _ => inferInstanceAs (Decidable (_ ≠ _))
  | .run _ | .raise | .interrupt => inferInstanceAs (Decidable True)

theorem Inv.init : Inv mIntervalSecond {} := by
  refine ⟨⟨by simp, by simp, by simp⟩, by simp, by simp, by simp, by simp, by simp⟩

theorem Inv.open (h : Inv mIntervalSecond s) (halive : s.Alive) : s.mStop = false := by
  by_contra hstop
  exact h.quiet (by simpa using hstop) halive

/-- A step of a thread on its way that cannot be seen. -/
theorem Inv.goesOn {s' : KeepAliveThread} (h : Inv mIntervalSecond s) (halive : s.Alive) (hstop : s'.mStop = s.mStop)
    (htrace : s'.trace = s.trace) (hexpired : s'.loop = .timingOut → Expired mIntervalSecond s.trace)
    (hflag : s'.mKeepAliveSent = true → Flagged mIntervalSecond s') : Inv mIntervalSecond s' := by
  have hopen := h.open halive
  constructor
  · rw [htrace]
    exact h.lawful
  · rw [hstop, htrace]
    exact h.stopped
  · rw [hstop, hopen]
    intro hfalse
    cases hfalse
  · rw [htrace]
    intro hmem
    exact absurd (h.once hmem) halive.2
  · rw [htrace]
    exact hexpired
  · exact hflag

/-- A step of a thread on its way that can be seen. -/
theorem Inv.acts {s' : KeepAliveThread} (h : Inv mIntervalSecond s) (halive : s.Alive) (hstop : s'.mStop = s.mStop)
    (htrace : s'.trace = s.trace ++ [a]) (ha : a ≠ .cancel)
    (htimeOut : a = .onTimeOut → s'.loop = .ended ∧ Expired mIntervalSecond s.trace) (hloop : s'.loop ≠ .timingOut)
    (hflag : s'.mKeepAliveSent = true → Flagged mIntervalSecond s') : Inv mIntervalSecond s' := by
  have hopen := h.open halive
  have hcancel : .cancel ∉ s.trace := by
    rw [← h.stopped, hopen]
    simp
  have hnone : .onTimeOut ∉ s.trace := fun hmem => halive.2 (h.once hmem)
  constructor
  · rw [htrace]
    exact h.lawful.concat (fun ha => ⟨hnone, (htimeOut ha).2⟩) fun _ => hcancel
  · rw [hstop, htrace, hopen]
    simp [hcancel, ha.symm]
  · rw [hstop, hopen]
    intro hfalse
    cases hfalse
  · rw [htrace]
    intro hmem
    rcases List.mem_append.1 hmem with hmem | hmem
    · exact absurd hmem hnone
    · exact (htimeOut (List.mem_singleton.1 hmem).symm).1
  · exact fun h => absurd h hloop
  · exact hflag

/-! ## One step -/

/-- **What the steps of `run` keep.** -/
theorem Inv.runStep (h : Inv mIntervalSecond s) (now : ℤ) : Inv mIntervalSecond (s.runStep mIntervalSecond now) := by
  have hflagged := h.flagged
  unfold Flagged at hflagged
  unfold KeepAliveThread.runStep
  cases hl : s.loop with
  | notStarted => exact h
  | ended => exact h
  | starting =>
    have halive : s.Alive := by simp [Alive, hl]
    rw [hl] at hflagged
    exact h.goesOn halive rfl rfl (by simp) fun hsent => absurd hsent hflagged
  | checking =>
    have halive : s.Alive := by simp [Alive, hl]
    rw [hl] at hflagged
    -- a thread on its way is not stopped
    have hopen := h.open halive
    rw [hopen]
    exact h.goesOn halive hopen.symm rfl (by simp) hflagged
  | reading =>
    have halive : s.Alive := by simp [Alive, hl]
    rw [hl] at hflagged
    refine h.goesOn halive rfl rfl (by simp) fun hsent => ?_
    obtain ⟨t, rest, hsince, htrigger⟩ := hflagged hsent
    exact ⟨t, rest, hsince, htrigger, rfl⟩
  | computing triggerTime =>
    have halive : s.Alive := by simp [Alive, hl]
    rw [hl] at hflagged
    by_cases hpos : triggerTime - now > 0
    · simp only [if_pos hpos]
      refine h.acts halive rfl rfl (by simp) (by simp) (by simp) fun hsent => ?_
      obtain ⟨t, rest, hsince, htrigger, -⟩ := hflagged hsent
      exact ⟨t, _, hsince.concat (by simp), htrigger⟩
    · simp only [if_neg hpos]
      refine h.acts halive rfl rfl (by simp) (by simp) (by simp) fun hsent => ?_
      obtain ⟨t, rest, hsince, htrigger, hread⟩ := hflagged hsent
      exact ⟨t, _, hsince.concat (by simp), now, by simp, by omega⟩
  | sleeping =>
    have halive : s.Alive := by simp [Alive, hl]
    rw [hl] at hflagged
    exact h.goesOn halive rfl rfl (by simp) hflagged
  | checkingSent =>
    have halive : s.Alive := by simp [Alive, hl]
    rw [hl] at hflagged
    by_cases hsent : s.mKeepAliveSent = true
    · simp only [if_pos hsent]
      exact h.goesOn halive rfl rfl (fun _ => hflagged hsent) fun _ => trivial
    · simp only [if_neg hsent]
      exact h.goesOn halive rfl rfl (by simp) fun hsent' => absurd hsent' hsent
  | sending =>
    have halive : s.Alive := by simp [Alive, hl]
    exact h.goesOn halive rfl rfl (by simp) fun _ => trivial
  | resetting =>
    have halive : s.Alive := by simp [Alive, hl]
    exact h.goesOn halive rfl rfl (by simp) fun _ => trivial
  | triggering now =>
    have halive : s.Alive := by simp [Alive, hl]
    exact h.goesOn halive rfl rfl (by simp) fun _ => rfl
  | working now =>
    have halive : s.Alive := by simp [Alive, hl]
    rw [hl] at hflagged
    refine h.acts halive rfl rfl (by simp) (by simp) (by simp) fun hsent => ?_
    exact ⟨now, [], ⟨s.trace, rfl, by simp⟩, hflagged hsent⟩
  | inWork =>
    have halive : s.Alive := by simp [Alive, hl]
    rw [hl] at hflagged
    exact h.goesOn halive rfl rfl (by simp) hflagged
  | timingOut =>
    have halive : s.Alive := by simp [Alive, hl]
    exact h.acts halive rfl rfl (by simp) (fun _ => ⟨rfl, h.expired hl⟩) (by simp) fun _ => trivial

/-- **Every step that meets the condition keeps the invariant.** -/
theorem Inv.step (h : Inv mIntervalSecond s) (e : Event) (hg : s.Guard e) : Inv mIntervalSecond (s.step mIntervalSecond e) := by
  cases e with
  | run now => exact h.runStep now
  | interrupt => exact ⟨h.lawful, h.stopped, h.quiet, h.once, h.expired, h.flagged⟩
  | start =>
    simp only [KeepAliveThread.step]
    split
    · rename_i hl
      have hflagged := h.flagged
      simp only [Flagged, hl] at hflagged
      have hopen := hg hl
      refine ⟨h.lawful, h.stopped, fun hstop => ?_, fun hmem => ?_, by simp, fun hsent => absurd hsent hflagged⟩
      · rw [hopen] at hstop
        cases hstop
      · have hended := h.once hmem
        rw [hl] at hended
        cases hended
    · exact h
  | raise =>
    simp only [KeepAliveThread.step]
    split
    · rename_i hl
      have halive : s.Alive := by simp [Alive, hl]
      exact h.goesOn halive rfl rfl (by simp) fun _ => trivial
    · exact h
  | resetTimer now =>
    refine ⟨h.lawful.concat (by simp) (by simp), ?_, h.quiet, ?_, fun hl => absurd hl hg, fun hsent => by cases hsent⟩
    · simpa [KeepAliveThread.step, resetTimer, act] using h.stopped
    · simpa [KeepAliveThread.step, resetTimer, act] using h.once
  | cancel =>
    have hl : s.loop = .notStarted ∨ s.loop = .ended := by
      by_contra hnot
      exact hg (not_or.1 hnot)
    refine ⟨h.lawful.concat (by simp) (by simp), ?_, fun _ => hg, ?_, ?_, fun hsent => ?_⟩
    · simp [KeepAliveThread.step, cancel, act]
    · simpa [KeepAliveThread.step, cancel, act] using h.once
    · intro htimingOut
      rcases hl with hl | hl
      · cases hl.symm.trans htimingOut
      · cases hl.symm.trans htimingOut
    · have hflagged := h.flagged hsent
      rcases hl with hl | hl
      · simp [Flagged, hl] at hflagged
      · simp [Flagged, KeepAliveThread.step, cancel, act, hl]

/-! ## Beyond the condition -/

/-- The thread can still call `onTimeOut`. -/
def CallsTimeOut (mIntervalSecond : ℤ) (s : KeepAliveThread) : Prop :=
  ∃ es after, (Run.run (step mIntervalSecond) s es).trace = s.trace ++ after ∧ .onTimeOut ∈ after

theorem runStep_trace (now : ℤ) (s : KeepAliveThread) :
    ∃ acts, (s.runStep mIntervalSecond now).trace = s.trace ++ acts := by
  unfold runStep
  split
  all_goals first | exact ⟨[], (List.append_nil _).symm⟩ | exact ⟨[_], rfl⟩

theorem CallsTimeOut.of_step (h : CallsTimeOut mIntervalSecond (s.runStep mIntervalSecond 0)) :
    CallsTimeOut mIntervalSecond s := by
  obtain ⟨es, after, htrace, hmem⟩ := h
  obtain ⟨acts, hacts⟩ : ∃ acts, (s.runStep mIntervalSecond 0).trace = s.trace ++ acts := runStep_trace 0 s
  refine ⟨.run 0 :: es, acts ++ after, ?_, by simp [hmem]⟩
  rw [Run.run_cons]
  change (Run.run _ (s.runStep mIntervalSecond 0) es).trace = _
  rw [htrace, hacts, List.append_assoc]

/-- **A stopped thread on its way calls `onTimeOut`**, whatever it is at. -/
theorem callsTimeOut_of_stopped (hstop : s.mStop = true) (halive : s.Alive) : CallsTimeOut mIntervalSecond s := by
  have htimingOut : ∀ s : KeepAliveThread, s.loop = .timingOut → CallsTimeOut mIntervalSecond s := by
    intro s hl
    exact ⟨[.run 0], [.onTimeOut], by simp [step, runStep, hl, act], by simp⟩
  -- back from the end of `run` to its start
  have hchecking : ∀ s : KeepAliveThread, s.mStop = true → s.loop = .checking → CallsTimeOut mIntervalSecond s :=
    fun s hstop hl => .of_step (htimingOut _ (by simp [runStep, hl, hstop]))
  have hworking : ∀ (s : KeepAliveThread) now, s.mStop = true → s.loop = .working now → CallsTimeOut mIntervalSecond s :=
    fun s now hstop hl => .of_step (.of_step (hchecking _ (by simp [runStep, hl, hstop, act]) (by simp [runStep, hl])))
  have hresetting : ∀ s : KeepAliveThread, s.mStop = true → s.loop = .resetting → CallsTimeOut mIntervalSecond s :=
    fun s hstop hl =>
      .of_step (.of_step (hworking _ 0 (by simp [runStep, hl, hstop]) (by simp [runStep, hl])))
  have hsending : ∀ s : KeepAliveThread, s.mStop = true → s.loop = .sending → CallsTimeOut mIntervalSecond s :=
    fun s hstop hl => .of_step (hresetting _ (by simp [runStep, hl, hstop]) (by simp [runStep, hl]))
  have hcheckingSent : ∀ s : KeepAliveThread, s.mStop = true → s.loop = .checkingSent → CallsTimeOut mIntervalSecond s := by
    intro s hstop hl
    cases hsent : s.mKeepAliveSent with
    | true => exact .of_step (htimingOut _ (by simp [runStep, hl, hsent]))
    | false => exact .of_step (hsending _ (by simp [runStep, hl, hstop]) (by simp [runStep, hl, hsent]))
  have hsleeping : ∀ s : KeepAliveThread, s.mStop = true → s.loop = .sleeping → CallsTimeOut mIntervalSecond s :=
    fun s hstop hl => .of_step (hchecking _ (by simp [runStep, hl, hstop]) (by simp [runStep, hl]))
  have hcomputing : ∀ (s : KeepAliveThread) now, s.mStop = true → s.loop = .computing now →
      CallsTimeOut mIntervalSecond s := by
    intro s now hstop hl
    by_cases hpos : now - 0 > 0
    · exact .of_step (hsleeping _ (by simp [runStep, hl, hstop, act]) (by simp [runStep, hl]; omega))
    · exact .of_step (hcheckingSent _ (by simp [runStep, hl, hstop, act]) (by simp [runStep, hl]; omega))
  cases hl : s.loop with
  | notStarted => exact absurd hl halive.1
  | ended => exact absurd hl halive.2
  | starting => exact .of_step (hchecking _ (by simp [runStep, hl, hstop]) (by simp [runStep, hl]))
  | checking => exact hchecking s hstop hl
  | reading => exact .of_step (hcomputing _ s.triggerTime (by simp [runStep, hl, hstop]) (by simp [runStep, hl]))
  | computing now => exact hcomputing s now hstop hl
  | sleeping => exact hsleeping s hstop hl
  | checkingSent => exact hcheckingSent s hstop hl
  | sending => exact hsending s hstop hl
  | resetting => exact hresetting s hstop hl
  | triggering now => exact .of_step (hworking _ now (by simp [runStep, hl, hstop]) (by simp [runStep, hl]))
  | working now => exact hworking s now hstop hl
  | inWork => exact .of_step (hchecking _ (by simp [runStep, hl, hstop]) (by simp [runStep, hl]))
  | timingOut => exact htimingOut s hl

/-- Behind `cancel()`, `onTimeOut` breaks the law. -/
theorem CallsTimeOut.unlawful (h : CallsTimeOut mIntervalSecond s) (hcancel : .cancel ∈ s.trace) :
    ∃ es, ¬ Lawful mIntervalSecond (Run.run (step mIntervalSecond) s es).trace := by
  obtain ⟨es, after, htrace, hmem⟩ := h
  obtain ⟨front, back, hsplit⟩ := List.append_of_mem hcancel
  refine ⟨es, fun hlawful => ?_⟩
  have hquiet := (hlawful.quiet front (back ++ after) (by rw [htrace, hsplit]; simp)).1
  exact hquiet (List.mem_append_right _ hmem)

/-- A `resetTimer()` at the end of a trace is one since the last `doWork`. -/
theorem not_expired_of_reset : ¬ Expired mIntervalSecond (trace ++ [.resetTimer]) := by
  rintro ⟨t, rest, ⟨front, hsplit, hrest⟩, now, hnow, -⟩
  rcases concat_eq_split hsplit with ⟨-, ha, -⟩ | ⟨after', -, rfl⟩
  · cases ha
  · simp at hrest

/-- **A step that does not meet the condition can be followed by one that breaks the law.** -/
theorem Inv.unlawful (h : Inv mIntervalSecond s) (e : Event) (hg : ¬ s.Guard e) :
    ∃ es, ¬ Lawful mIntervalSecond (Run.run (KeepAliveThread.step mIntervalSecond) s (e :: es)).trace := by
  cases e with
  | start =>
    simp only [Guard, Classical.not_imp, Bool.not_eq_false] at hg
    obtain ⟨hl, hstop⟩ := hg
    have hstep : s.step mIntervalSecond .start = { s with loop := .starting } := by simp [KeepAliveThread.step, hl]
    have hcancel : .cancel ∈ s.trace := h.stopped.1 hstop
    simp only [Run.run_cons, hstep]
    have halive : Alive { s with loop := .starting } := ⟨by simp, by simp⟩
    exact (callsTimeOut_of_stopped (s := { s with loop := .starting }) hstop halive).unlawful hcancel
  | cancel =>
    -- a thread on its way leaves the loop and calls `onTimeOut`
    have halive : s.Alive := not_not.1 hg
    exact (callsTimeOut_of_stopped (s := s.cancel) rfl halive).unlawful (by simp [cancel, act])
  | resetTimer now =>
    -- the reset comes too late for the `onTimeOut` behind the loop
    have hl : s.loop = .timingOut := not_not.1 hg
    refine ⟨[.run now], fun hlawful => ?_⟩
    have htrace : (Run.run (KeepAliveThread.step mIntervalSecond) s [.resetTimer now, .run now]).trace =
        s.trace ++ [.resetTimer] ++ [.onTimeOut] := by
      simp [KeepAliveThread.step, resetTimer, KeepAliveThread.runStep, act, hl]
    rw [htrace] at hlawful
    exact not_expired_of_reset (hlawful.timely _ [] rfl)
  | run now => exact absurd trivial hg
  | raise => exact absurd trivial hg
  | interrupt => exact absurd trivial hg

/-- **The law of the keep-alive timer holds along every run whose steps meet the condition**, and every other step
can be followed by one that breaks it. -/
theorem keepAlive_law (mIntervalSecond : ℤ) (es : List Event) (hg : Run.Always (step mIntervalSecond) Guard {} es) :
    Lawful mIntervalSecond (Run.run (step mIntervalSecond) {} es).trace ∧
      ∀ e, ¬ (Run.run (step mIntervalSecond) {} es).Guard e →
        ∃ es', ¬ Lawful mIntervalSecond (Run.run (step mIntervalSecond) {} (es ++ e :: es')).trace := by
  have hinv : Inv mIntervalSecond (Run.run (step mIntervalSecond) {} es) :=
    Run.invariant_run (fun _ e h hg => h.step e hg) .init hg
  refine ⟨hinv.lawful, fun e hne => ?_⟩
  obtain ⟨es', hes'⟩ := hinv.unlawful e hne
  refine ⟨es', ?_⟩
  rw [Run.run_append]
  exact hes'

/-- The peer answers after the first `doWork`, and the thread is stopped when it has ended. -/
def answered : List Event :=
  [.start, .run 0, .run 0, .run 0, .run 0, .resetTimer 3, .run 7, .run 7, .run 7, .run 10050, .run 10050, .run 10050,
    .run 10051, .run 10051, .run 10051, .raise, .cancel]

theorem keepAlive_law_answered :
    Lawful 10 (Run.run (step 10) {} answered).trace ∧
      ∀ e, ¬ (Run.run (step 10) {} answered).Guard e →
        ∃ es', ¬ Lawful 10 (Run.run (step 10) {} (answered ++ e :: es')).trace :=
  keepAlive_law 10 answered (by decide)

/-- `terminate()` cancels and interrupts the thread while it sleeps: `onTimeOut` is called. -/
theorem keepAlive_unlawful :
    let s := Run.run (step 45) {} [.start, .run 0, .run 0, .run 0, .run 0, .cancel, .interrupt, .run 1, .run 1, .run 1]
    s.trace = [.clock 0, .cancel, .onTimeOut] ∧ ¬ Lawful 45 s.trace := by
  intro s
  have htrace : s.trace = [.clock 0, .cancel, .onTimeOut] := by decide
  refine ⟨htrace, fun hlawful => ?_⟩
  have hquiet := (hlawful.quiet [.clock 0] [.onTimeOut] htrace).1
  exact hquiet (by simp)

end SmartTunnel.KeepAliveThread
