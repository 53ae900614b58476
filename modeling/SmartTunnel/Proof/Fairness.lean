import SmartTunnel.Base.Run
import SmartTunnel.Proof.PacketPassFairQueue

/-!
# The fair queue

In any run all that the queue asserts holds, and the output does not wait while a packet does (`queue_run`). The
packets of a flow go out in the order they came in (`queue_order`). And over any time in which a flow has packets no
other one is sent more than it, but for one packet (`queue_fair`).
-/

namespace SmartTunnel

open Jvm

namespace PacketPassFairQueue

variable {m m' : PacketPassFairQueue} {f g a b : ℕ} {data : Bytes} {e : Event}
variable {mtu packetWeight : ℕ} {memory : ℕ → PacketPassFairQueueFlow} {es : List Event}

theorem inv_run (hinit : PacketPassFairQueue.init mtu packetWeight memory = some m) (hes : Run.Always step Allowed m es) :
    Inv (Run.run step m es) :=
  Run.invariant_run (fun _ e h he => (h.step e he).1) (Inv.init hinit) hes

/-- **What the queue asserts holds**, at every step of any run; and when packets wait the output has one, or the job
that gives it the next one is set. -/
theorem queue_run (hinit : PacketPassFairQueue.init mtu packetWeight memory = some m) (es : List Event)
    (hes : Run.Always step Allowed m es) :
    Run.Always step Asserts m es ∧ ((Run.run step m es).queuedTree ≠ [] →
      (Run.run step m es).output.isSome = true ∨ (Run.run step m es).scheduleJob = true) := by
  refine ⟨Run.Always.of_invariant (fun m e h he => ⟨(h.step e he).2.1, (h.step e he).1⟩) (Inv.init hinit) hes, ?_⟩
  have h := inv_run hinit hes
  intro hne
  rcases hs : (Run.run step m es).sendingFlow with _ | f
  · right
    by_contra hjob
    exact hne (h.waits hs (by simpa using hjob))
  · left
    rw [(h.sends f hs).output]
    rfl

/-- A queue for packets of up to three bytes. -/
def start : PacketPassFairQueue :=
  { mtu := 3
    packetWeight := 1
    sendingFlow := none
    sendingLen := 0
    previousFlow := none
    queuedTree := []
    flowsList := []
    scheduleJob := false
    output := none
    flow := fun _ => ⟨0, false, [], false⟩ }

/-- Two flows with packets, and the second one waits. -/
def rivals : List Event := [.flowInit 1, .flowInit 2, .send 1 [7, 7, 7], .send 2 [8]]

theorem init_start : PacketPassFairQueue.init 3 1 (fun _ => ⟨0, false, [], false⟩) = some start := rfl

theorem rivals_allowed : Run.Always step Allowed start rivals := by decide

theorem queue_run_rivals : Run.Always step Asserts start rivals := (queue_run init_start rivals rivals_allowed).1

/-! ## Order -/

/-- The packet of the flow that is not done yet. -/
def pending (f : ℕ) (m : PacketPassFairQueue) : List Bytes :=
  if (m.flow f).busy = true then [(m.flow f).queued] else []

/-- The packets that come to the input of the flow. -/
def offered (f : ℕ) : Event → List Bytes
  | .send g data => if g = f then [data] else []
  | _ => []

theorem pending_congr (hbusy : (m'.flow f).busy = (m.flow f).busy) (hqueued : (m'.flow f).queued = (m.flow f).queued) :
    pending f m' = pending f m := by
  unfold pending
  rw [hbusy, hqueued]

theorem pending_modifyFlow (change : PacketPassFairQueueFlow → PacketPassFairQueueFlow)
    (hbusy : (change (m.flow g)).busy = (m.flow g).busy) (hqueued : (change (m.flow g)).queued = (m.flow g).queued) :
    pending f (m.modifyFlow g change) = pending f m := by
  by_cases hf : f = g
  · subst hf
    exact pending_congr (by rw [modifyFlow_self, hbusy]) (by rw [modifyFlow_self, hqueued])
  · exact pending_congr (by rw [modifyFlow_ne hf]) (by rw [modifyFlow_ne hf])

theorem pending_schedule (f : ℕ) (m : PacketPassFairQueue) : pending f m.schedule = pending f m := by
  rcases hl : m.queuedTree with _ | ⟨g, l⟩
  · unfold schedule firstFlow
    rw [hl]
    rfl
  · rw [schedule_eq hl]
    exact pending_modifyFlow (m := m) (fun x => { x with isQueued := false }) rfl rfl

theorem pending_raiseTime (f g : ℕ) (m : PacketPassFairQueue) : pending f (m.raiseTime g) = pending f m := by
  obtain ⟨t, p, heq, -⟩ := raiseTime_eq m g
  rw [heq]
  rfl

theorem pending_enqueue (f g : ℕ) (data : Bytes) (m : PacketPassFairQueue) :
    pending f (m.enqueue g data) = if g = f then [data] else pending f m := by
  unfold pending enqueue
  by_cases hf : f = g
  · subst hf
    simp [modifyFlow_self]
  · simp [modifyFlow_ne hf, Ne.symm hf]

/-- What packets and jobs do not change. -/
def frame (m : PacketPassFairQueue) : ℕ × ℕ × List ℕ := (m.mtu, m.packetWeight, m.flowsList)

theorem frame_schedule (m : PacketPassFairQueue) : frame m.schedule = frame m := by
  unfold schedule
  rcases m.firstFlow with _ | f <;> rfl

theorem frame_inputHandlerSend (f : ℕ) (data : Bytes) (m : PacketPassFairQueue) :
    frame (m.inputHandlerSend f data) = frame m := by
  obtain ⟨t, p, heq, -⟩ := raiseTime_eq m f
  have hraised : frame (m.raiseTime f) = frame m := by
    rw [heq]
    rfl
  unfold inputHandlerSend
  simp only
  split_ifs
  · exact (frame_schedule _).trans hraised
  · exact hraised

theorem frame_scheduleJobHandler (m : PacketPassFairQueue) : frame m.scheduleJobHandler = frame m := by
  unfold scheduleJobHandler
  simp only
  split_ifs
  · exact frame_schedule _
  · rfl

theorem Inv.frame_done (h : Inv m) (he : m.Allowed .done) : frame m.outputHandlerDone = frame m := by
  obtain ⟨f, hf⟩ := h.sending he
  obtain ⟨t, sub, hm, -⟩ := h.done_eq hf
  rw [hm]
  rfl

/-- A flow is one from when it is initialized until it is freed, and the queue keeps its parameters. -/
theorem Inv.frame_step (h : Inv m) (he : m.Allowed e) :
    (m.step e).mtu = m.mtu ∧ (m.step e).packetWeight = m.packetWeight ∧
      (∀ f ∈ m.flowsList, e ≠ .flowFree f → f ∈ (m.step e).flowsList) ∧
      ∀ f ∈ (m.step e).flowsList, f ∈ m.flowsList ∨ e = .flowInit f := by
  have hof : ∀ m' : PacketPassFairQueue, frame m' = frame m → m'.mtu = m.mtu ∧ m'.packetWeight = m.packetWeight ∧
      (∀ f ∈ m.flowsList, e ≠ .flowFree f → f ∈ m'.flowsList) ∧ ∀ f ∈ m'.flowsList, f ∈ m.flowsList ∨ e = .flowInit f := by
    intro m' hframe
    simp only [frame, Prod.mk.injEq] at hframe
    obtain ⟨h1, h2, h3⟩ := hframe
    exact ⟨h1, h2, fun f hf _ => h3 ▸ hf, fun f hf => .inl (h3 ▸ hf)⟩
  cases e with
  | flowInit g =>
    refine ⟨rfl, rfl, fun f hf _ => List.mem_append_left _ hf, fun f hf => ?_⟩
    rcases List.mem_append.1 hf with hf | hf
    · exact .inl hf
    · exact .inr (congrArg _ (List.mem_singleton.1 hf).symm)
  | flowFree g =>
    refine ⟨rfl, rfl, fun f hf hne => ?_, fun f hf => .inl (List.mem_of_mem_erase hf)⟩
    exact (List.mem_erase_of_ne fun heq => hne (congrArg _ heq.symm)).2 hf
  | send g data => exact hof _ (frame_inputHandlerSend g data m)
  | done => exact hof _ (h.frame_done he)
  | job => exact hof _ (frame_scheduleJobHandler m)

/-- **A step keeps the packets of a flow in order.** -/
theorem Inv.pending_step (h : Inv m) (hf : f ∈ m.flowsList) (he : m.Allowed e) :
    pending f m ++ offered f e = passed f m e ++ pending f (m.step e) := by
  cases e with
  | flowInit g =>
    have hne : f ≠ g := fun heq => he (heq ▸ hf)
    have hflow : (m.flowInit g).flow f = m.flow f := Function.update_of_ne hne _ _
    exact (List.append_nil _).trans (pending_congr (congrArg _ hflow) (congrArg _ hflow)).symm
  | flowFree g => exact List.append_nil _
  | send g data =>
    have hpending : pending f (m.inputHandlerSend g data) = if g = f then [data] else pending f m := by
      have hin : pending f ((m.raiseTime g).enqueue g data) = if g = f then [data] else pending f m := by
        rw [pending_enqueue, pending_raiseTime]
      unfold inputHandlerSend
      simp only
      split_ifs at hin ⊢ <;> first | exact hin | exact (pending_schedule f _).trans hin
    change pending f m ++ (if g = f then [data] else []) = pending f (m.inputHandlerSend g data)
    rw [hpending]
    by_cases hg : g = f
    · subst hg
      rw [if_pos rfl, if_pos rfl]
      unfold pending
      rw [he.2.1]
      rfl
    · rw [if_neg hg, if_neg hg, List.append_nil]
  | done =>
    obtain ⟨q, hq⟩ := h.sending he
    obtain ⟨t, sub, hm, -⟩ := h.done_eq hq
    have hs := h.sends q hq
    change pending f m ++ [] = (if m.sendingFlow = some f then m.output.toList else []) ++ pending f m.outputHandlerDone
    rw [hm, hq, hs.output, List.append_nil]
    unfold pending
    by_cases hf : f = q
    · subst hf
      simp [modifyFlow_self, hs.busy]
    · have hne : ¬ some q = some f := fun heq => hf (Option.some.inj heq).symm
      simp only [modifyFlow_ne hf, if_neg hne]
      rfl
  | job =>
    change pending f m ++ [] = pending f m.scheduleJobHandler
    unfold scheduleJobHandler
    simp only
    split_ifs
    · exact (List.append_nil _).trans (pending_schedule f { m with scheduleJob := false, previousFlow := none }).symm
    · exact List.append_nil _

/-- **The packets of a flow go out in order**, each once: from any point of a run on, as long as the flow is not
freed, what the output is done with is what came in, but for the packet that waits or is sent. -/
theorem queue_order (hinit : PacketPassFairQueue.init mtu packetWeight memory = some m)
    (hes : Run.Always step Allowed m es) (hf : f ∈ (Run.run step m es).flowsList) (es' : List Event)
    (hes' : Run.Always step (fun m e => m.Allowed e ∧ e ≠ .flowFree f) (Run.run step m es) es') :
    pending f (Run.run step m es) ++ es'.flatMap (offered f) =
      Run.trace step (passed f) (Run.run step m es) es' ++ pending f (Run.run step (Run.run step m es) es') := by
  refine Run.held_trace (I := fun m => Inv m ∧ f ∈ m.flowsList) ?_ ⟨inv_run hinit hes, hf⟩ hes'
  rintro m e ⟨h, hf⟩ ⟨he, hfree⟩
  exact ⟨⟨(h.step e he).1, (h.frame_step he).2.2.1 f hf hfree⟩, h.pending_step hf he⟩

theorem queue_order_rivals : pending 1 (Run.run step start rivals) ++ [[9]] =
    Run.trace step (passed 1) (Run.run step start rivals) [.done, .job, .send 1 [9]] ++
      pending 1 (Run.run step (Run.run step start rivals) [.done, .job, .send 1 [9]]) :=
  queue_order init_start rivals_allowed (show 1 ∈ [1, 2] by decide) [.done, .job, .send 1 [9]] (by decide)

/-! ## Fairness -/

theorem Inv.cost_le (h : Inv m) (he : m.Allowed e) (f : ℕ) :
    cost m.packetWeight (passed f m e) ≤ m.packetWeight + m.mtu ∧
      (cost m.packetWeight (passed f m e) ≠ 0 → now m = timeOf m f) := by
  cases e with
  | done =>
    obtain ⟨q, hq⟩ := h.sending he
    have hs := h.sends q hq
    have hfits := hs.fits
    rw [cost_passed_done h hq, hs.len]
    by_cases hf : f = q
    · subst hf
      rw [if_pos rfl]
      exact ⟨by omega, fun _ => now_sending hq⟩
    · rw [if_neg hf]
      exact ⟨Nat.zero_le _, fun hne => absurd rfl hne⟩
  | _ => exact ⟨Nat.zero_le _, fun hne => absurd rfl hne⟩

/-- The time of a flow, or the current time if that is later. What is no flow yet will start at the current time. -/
def entry (a : ℕ) (m : PacketPassFairQueue) : ℕ := if a ∈ m.flowsList then max (timeOf m a) (now m) else now m

/-- How far the time of a flow, or the current time if that is later, is ahead of the time of another one. -/
def ahead (a b : ℕ) (m : PacketPassFairQueue) : ℤ := (entry a m : ℤ) - timeOf m b

theorem entry_of_mem (ha : a ∈ m.flowsList) : entry a m = max (timeOf m a) (now m) := if_pos ha

theorem now_le_entry (a : ℕ) (m : PacketPassFairQueue) : now m ≤ entry a m := by
  unfold entry
  split
  · exact le_max_right _ _
  · exact le_rfl

/-- What was no flow has the current time behind a step: it starts with zero. -/
theorem Inv.entry_step (h : Inv m) (he : m.Allowed e) (ha : a ∉ m.flowsList) : entry a (m.step e) = now (m.step e) := by
  unfold entry
  split
  · rename_i hmem
    rcases (h.frame_step he).2.2.2 a hmem with hold | rfl
    · exact absurd hold ha
    · have hzero : timeOf (m.flowInit a) a = 0 := by
        unfold timeOf PacketPassFairQueue.flowInit
        simp only [modifyFlow_self]
        rfl
      change max (timeOf (m.flowInit a) a) _ = _
      rw [hzero]
      exact max_eq_right (Nat.zero_le _)
  · rfl

/-- What is no flow is not sent. -/
theorem Inv.cost_eq_zero (h : Inv m) (he : m.Allowed e) (ha : a ∉ m.flowsList) :
    cost m.packetWeight (passed a m e) = 0 := by
  cases e with
  | done =>
    obtain ⟨q, hq⟩ := h.sending he
    rw [cost_passed_done h hq, if_neg]
    rintro rfl
    exact ha (h.sends a hq).mem
  | _ => rfl

/-- **A step counts what is sent**, while `b` has packets: a flow that is sent more is further ahead, and it is not
sent while it is ahead of `b`. -/
theorem Inv.ahead_step (h : Inv m) (he : m.Allowed e) (hfree : e ≠ .flowFree a) (hb : m.Backlogged b)
    (hb' : (m.step e).Backlogged b) :
    ahead a b m + cost m.packetWeight (passed a m e) ≤ ahead a b (m.step e) + cost m.packetWeight (passed b m e) ∧
      ahead a b (m.step e) ≤ max (ahead a b m) (m.packetWeight + m.mtu : ℕ) := by
  obtain ⟨hinv, -, sub, hshift⟩ := h.step e he
  have htb := hshift.backlogged b hb hb'
  have hnow := h.now_le hb
  have hnow' := hinv.now_le hb'
  -- the current time does not go back
  have hmono : now m ≤ now (m.step e) + sub := by
    obtain ⟨g, hg, hg'⟩ := exists_now hb'
    rw [hg']
    rcases hshift.joins g hg with hback | hle
    · have := hshift.backlogged g hback hg
      have := h.now_le hback
      omega
    · exact hle
  unfold ahead
  by_cases ha : a ∈ m.flowsList
  · have hlower := hshift.lower a ha
    have hupper := hshift.upper a ha
    obtain ⟨hcost, hsending⟩ := h.cost_le he a
    rw [entry_of_mem ha, entry_of_mem ((h.frame_step he).2.2.1 a ha hfree)]
    by_cases hzero : cost m.packetWeight (passed a m e) = 0
    · omega
    · have := hsending hzero
      omega
  · have hentry : entry a m = now m := if_neg ha
    rw [hentry, h.entry_step he ha, h.cost_eq_zero he ha]
    omega

theorem ahead_run (a b mtu packetWeight : ℕ) (m : PacketPassFairQueue) (e : Event)
    (h : Inv m ∧ m.Backlogged b ∧ m.mtu = mtu ∧ m.packetWeight = packetWeight)
    (he : m.Allowed e ∧ e ≠ .flowFree a ∧ (m.step e).Backlogged b) :
    (Inv (m.step e) ∧ (m.step e).Backlogged b ∧ (m.step e).mtu = mtu ∧ (m.step e).packetWeight = packetWeight) ∧
    ahead a b m + ((passed a m e).map fun data => packetWeight + data.length).sum ≤
      ahead a b (m.step e) + ((passed b m e).map fun data => packetWeight + data.length).sum ∧
    ahead a b (m.step e) ≤ max (ahead a b m) (packetWeight + mtu : ℕ) := by
  obtain ⟨hinv, hb, rfl, rfl⟩ := h
  obtain ⟨hallowed, hfree, hb'⟩ := he
  obtain ⟨h1, h2, -⟩ := hinv.frame_step hallowed
  exact ⟨⟨(hinv.step e hallowed).1, hb', h1, h2⟩, hinv.ahead_step hallowed hfree hb hb'⟩

/-- The queue keeps the parameters it was made with. -/
theorem parameters_run (hinit : PacketPassFairQueue.init mtu packetWeight memory = some m)
    (hes : Run.Always step Allowed m es) :
    (Run.run step m es).mtu = mtu ∧ (Run.run step m es).packetWeight = packetWeight := by
  have h := Inv.init hinit
  have hstart : m.mtu = mtu ∧ m.packetWeight = packetWeight := by
    unfold PacketPassFairQueue.init at hinit
    rw [Option.ite_none_right_eq_some, Option.some.injEq] at hinit
    obtain ⟨-, rfl⟩ := hinit
    exact ⟨rfl, rfl⟩
  refine (Run.invariant_run (I := fun m => Inv m ∧ m.mtu = mtu ∧ m.packetWeight = packetWeight) ?_ ⟨h, hstart⟩ hes).2
  rintro m e ⟨h, hmtu, hweight⟩ he
  obtain ⟨h1, h2, -⟩ := h.frame_step he
  exact ⟨(h.step e he).1, h1.trans hmtu, h2.trans hweight⟩

/-- **The queue is fair.** From when a packet of `b` is at the output on, as long as `b` has packets, no other flow
is sent more than `b`, with the weight of each packet, but for one packet of the greatest length. It may be a flow then
or be initialized later; it is not freed. -/
theorem queue_fair (hinit : PacketPassFairQueue.init mtu packetWeight memory = some m)
    (hes : Run.Always step Allowed m es) (hb : (Run.run step m es).sendingFlow = some b) (a : ℕ) (es' : List Event)
    (hes' : Run.Always step (fun m e => m.Allowed e ∧ e ≠ .flowFree a ∧ (m.step e).Backlogged b) (Run.run step m es) es') :
    cost packetWeight (Run.trace step (passed a) (Run.run step m es) es') ≤
      cost packetWeight (Run.trace step (passed b) (Run.run step m es) es') + (packetWeight + mtu) := by
  have hinv := inv_run hinit hes
  obtain ⟨hmtu, hweight⟩ := parameters_run hinit hes
  have hstart : 0 ≤ ahead a b (Run.run step m es) := by
    have := now_sending hb
    have := now_le_entry a (Run.run step m es)
    unfold ahead
    omega
  have hbound := Run.trace_sum_le
    (I := fun m => Inv m ∧ m.Backlogged b ∧ m.mtu = mtu ∧ m.packetWeight = packetWeight)
    (ahead_run a b mtu packetWeight) ⟨hinv, .inr (.inl hb), hmtu, hweight⟩ hes'
  rw [Run.trace_map, Run.trace_map] at hbound
  unfold cost
  omega

/-- The first one has the next packet at once, and a longer one. A third one comes in. -/
def rivalry : List Event :=
  [.flowInit 3, .send 3 [9, 9], .done, .send 1 [7, 7, 7], .job, .done, .send 2 [8], .job, .done]

theorem queue_fair_rivals : cost 1 (Run.trace step (passed 3) (Run.run step start rivals) rivalry) ≤
    cost 1 (Run.trace step (passed 1) (Run.run step start rivals) rivalry) + 4 :=
  queue_fair init_start rivals_allowed rfl 3 rivalry (by decide)

/-- Once no flow has packets the current time is zero, so a flow that comes back waits for all that another one was
sent less before. -/
example :
    let m := Run.run step start [.flowInit 1, .flowInit 2, .send 1 [7, 7, 7], .done, .send 1 [7, 7, 7], .job, .done, .job,
      .send 2 [8, 8, 8], .send 1 [7]]
    let es : List Event := [.done, .send 2 [8, 8, 8], .job, .done]
    Run.Always step (fun m e => m.Allowed e ∧ (m.step e).Backlogged 1) m es ∧
      cost 1 (Run.trace step (passed 2) m es) = 8 ∧ cost 1 (Run.trace step (passed 1) m es) = 0 := by decide

end PacketPassFairQueue

end SmartTunnel
