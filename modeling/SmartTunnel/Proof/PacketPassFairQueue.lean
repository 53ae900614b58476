import SmartTunnel.Model.PacketPassFairQueue

/-!
# Steps of the fair queue

The invariant (`Inv`) says where a flow stands: in the tree, at the output, or sent last. It gives what the handlers
assert (`Inv.step`). An overflow of the time of a flow takes the same from all the flows that have packets, so only the
differences of times count (`Shifts`).
-/

namespace SmartTunnel

open Jvm

namespace PacketPassFairQueue

variable {m m' : PacketPassFairQueue} {f g a b : ℕ} {data : Bytes} {e : Event}

/-! ## Times -/

def timeOf (m : PacketPassFairQueue) (f : ℕ) : ℕ := (m.flow f).time.toNat

/-- Other times, and all else as before. -/
def withTimes (m : PacketPassFairQueue) (t : ℕ → BitVec 64) : PacketPassFairQueue :=
  { m with flow := fun f => { m.flow f with time := t f } }

theorem timeOf_lt (m : PacketPassFairQueue) (f : ℕ) : timeOf m f < 2 ^ 64 := (m.flow f).time.isLt

@[simp] theorem timeOf_withTimes (m : PacketPassFairQueue) (t : ℕ → BitVec 64) (f : ℕ) :
    timeOf (m.withTimes t) f = (t f).toNat := rfl

@[simp] theorem withTimes_withTimes (m : PacketPassFairQueue) (t t' : ℕ → BitVec 64) :
    (m.withTimes t).withTimes t' = m.withTimes t' := rfl

theorem modifyFlow_time (m : PacketPassFairQueue) (f : ℕ) (t : BitVec 64 → BitVec 64) :
    m.modifyFlow f (fun x => { x with time := t x.time }) =
      m.withTimes (Function.update (fun g => (m.flow g).time) f (t (m.flow f).time)) := by
  unfold modifyFlow withTimes
  congr
  funext g
  by_cases h : g = f
  · subst h
    simp
  · simp [h]

theorem modifyFlow_self (m : PacketPassFairQueue) (f : ℕ) (change : PacketPassFairQueueFlow → PacketPassFairQueueFlow) :
    (m.modifyFlow f change).flow f = change (m.flow f) := Function.update_self ..

theorem modifyFlow_ne (h : g ≠ f) (change : PacketPassFairQueueFlow → PacketPassFairQueueFlow) :
    (m.modifyFlow f change).flow g = m.flow g := Function.update_of_ne h ..

section

variable (m f) (change : PacketPassFairQueueFlow → PacketPassFairQueueFlow)

@[simp] theorem modifyFlow_mtu : (m.modifyFlow f change).mtu = m.mtu := rfl
@[simp] theorem modifyFlow_packetWeight : (m.modifyFlow f change).packetWeight = m.packetWeight := rfl
@[simp] theorem modifyFlow_flowsList : (m.modifyFlow f change).flowsList = m.flowsList := rfl

end

/-! ## The tree -/

instance (m : PacketPassFairQueue) : Std.TransCmp m.compareFlows :=
  inferInstanceAs (Std.TransCmp (compareLex (compareOn fun f => (m.flow f).time.toNat) compare))

instance (m : PacketPassFairQueue) : Std.LawfulEqCmp m.compareFlows where
  eq_of_compare h := Std.LawfulEqCmp.eq_of_compare (compareLex_eq_eq.1 h).2

theorem compareFlows_lt : m.compareFlows f g = .lt ↔ timeOf m f < timeOf m g ∨ timeOf m f = timeOf m g ∧ f < g := by
  unfold compareFlows compareLex compareOn
  simp [Ordering.then_eq_lt, timeOf, Nat.compare_eq_lt]

/-- The tree and the list of the flows: what is queued is in order, each flow with its one packet. -/
structure Tree (m : PacketPassFairQueue) : Prop where
  flows : m.flowsList.Nodup
  sorted : m.queuedTree.Pairwise fun f g => m.compareFlows f g = .lt
  mem : ∀ f, f ∈ m.queuedTree ↔ f ∈ m.flowsList ∧ (m.flow f).isQueued = true
  waiting : ∀ f ∈ m.queuedTree, (m.flow f).busy = true ∧ (m.flow f).queued.length ≤ m.mtu

theorem firstFlow_eq_some : m.firstFlow = some f ↔ ∃ l, m.queuedTree = f :: l := by
  unfold firstFlow
  rw [List.head?_eq_some_iff]

theorem firstFlow_mem (h : m.firstFlow = some f) : f ∈ m.queuedTree := by
  obtain ⟨l, hl⟩ := firstFlow_eq_some.1 h
  rw [hl]
  exact List.mem_cons_self

theorem Tree.first_le (h : Tree m) (hf : m.firstFlow = some f) (hg : g ∈ m.queuedTree) : timeOf m f ≤ timeOf m g := by
  obtain ⟨l, hl⟩ := firstFlow_eq_some.1 hf
  have hsorted := h.sorted
  rw [hl] at hg hsorted
  rcases List.mem_cons.1 hg with rfl | hg
  · exact le_rfl
  · have := compareFlows_lt.1 ((List.pairwise_cons.1 hsorted).1 g hg)
    omega

theorem Tree.assertsFirst (h : Tree m) : m.AssertsFirst := fun f hf => ((h.mem f).1 (firstFlow_mem hf)).2

theorem Tree.nodup (h : Tree m) : m.queuedTree.Nodup := by
  refine h.sorted.imp ?_
  rintro f _ hlt rfl
  have := compareFlows_lt.1 hlt
  omega

/-- The order is by differences of times only. -/
theorem Tree.withTimes (h : Tree m) {t : ℕ → BitVec 64} (sub : ℕ)
    (ht : ∀ f ∈ m.queuedTree, (t f).toNat + sub = timeOf m f) : Tree (m.withTimes t) := by
  refine ⟨h.flows, ?_, h.mem, h.waiting⟩
  refine h.sorted.imp_of_mem ?_
  intro f g hf hg hlt
  have h1 := ht f hf
  have h2 := ht g hg
  rw [compareFlows_lt] at hlt ⊢
  simp only [timeOf_withTimes]
  omega

/-- A change of a flow that is not in the tree. -/
theorem Tree.modifyFlow (h : Tree m) (hf : f ∉ m.queuedTree) {change : PacketPassFairQueueFlow → PacketPassFairQueueFlow}
    (hchange : (change (m.flow f)).isQueued = false) : Tree (m.modifyFlow f change) := by
  have hother : ∀ g ∈ m.queuedTree, (m.modifyFlow f change).flow g = m.flow g :=
    fun g hg => modifyFlow_ne (fun heq : g = f => hf (heq ▸ hg)) change
  refine ⟨h.flows, ?_, ?_, ?_⟩
  · refine h.sorted.imp_of_mem ?_
    intro g g' hg hg' hlt
    rw [compareFlows_lt] at hlt ⊢
    unfold timeOf at hlt ⊢
    rw [hother g hg, hother g' hg']
    exact hlt
  · intro g
    by_cases heq : g = f
    · subst heq
      rw [modifyFlow_self, hchange]
      exact iff_of_false hf (by simp)
    · rw [modifyFlow_ne heq]
      exact h.mem g
  · intro g hg
    rw [hother g hg]
    exact h.waiting g hg

/-! ## The invariant -/

/-- The flow whose packet is at the output. -/
structure Sends (m : PacketPassFairQueue) (f : ℕ) : Prop where
  mem : f ∈ m.flowsList
  unqueued : (m.flow f).isQueued = false
  busy : (m.flow f).busy = true
  output : m.output = some (m.flow f).queued
  len : m.sendingLen = (m.flow f).queued.length
  fits : (m.flow f).queued.length ≤ m.mtu
  previous : m.previousFlow = none
  job : m.scheduleJob = false
  least : ∀ g ∈ m.queuedTree, timeOf m f ≤ timeOf m g

/-- The invariant, but for a flow that may have to be scheduled yet. -/
structure Ready (m : PacketPassFairQueue) : Prop where
  tree : Tree m
  sends : ∀ f, m.sendingFlow = some f → Sends m f
  idle : m.sendingFlow = none → m.output = none
  previous : ∀ f, m.previousFlow = some f → f ∈ m.flowsList ∧ (m.flow f).isQueued = false ∧ m.scheduleJob = true
  held : ∀ f ∈ m.flowsList, (m.flow f).busy = true → f ∈ m.queuedTree ∨ m.sendingFlow = some f
  fits : m.mtu + m.packetWeight ≤ FAIRQUEUE_MAX_TIME.toNat

structure Inv (m : PacketPassFairQueue) : Prop extends Ready m where
  /-- No packet waits while nothing is sent, unless the job is set. -/
  waits : m.sendingFlow = none → m.scheduleJob = false → m.queuedTree = []

/-- The flow has a packet, or it was sent last and may have the next one already. -/
def Backlogged (m : PacketPassFairQueue) (f : ℕ) : Prop :=
  f ∈ m.queuedTree ∨ m.sendingFlow = some f ∨ m.previousFlow = some f

instance (m : PacketPassFairQueue) (f : ℕ) : Decidable (m.Backlogged f) := inferInstanceAs (Decidable (_ ∨ _))

theorem Ready.backlogged_mem (h : Ready m) (hf : m.Backlogged f) : f ∈ m.flowsList := by
  rcases hf with hf | hf | hf
  · exact ((h.tree.mem f).1 hf).1
  · exact (h.sends f hf).mem
  · exact (h.previous f hf).1

/-- The current time. -/
def now (m : PacketPassFairQueue) : ℕ := m.getCurrentTime.toNat

theorem now_sending (h : m.sendingFlow = some f) : now m = timeOf m f := by
  unfold now getCurrentTime
  rw [h]
  rfl

/-- The current time is the least one of those that are backlogged. -/
theorem Ready.now_le (h : Ready m) (hf : m.Backlogged f) : now m ≤ timeOf m f := by
  rcases hs : m.sendingFlow with _ | s
  · unfold now getCurrentTime
    rw [hs]
    simp only
    rcases hf with hf | hf | hf
    · obtain ⟨first, l, hl⟩ := List.exists_cons_of_ne_nil (List.ne_nil_of_mem hf)
      have hfirst := firstFlow_eq_some.2 ⟨l, hl⟩
      have hle := h.tree.first_le hfirst hf
      unfold timeOf at hle ⊢
      rw [hfirst]
      rcases m.previousFlow with _ | p
      · exact hle
      · simp only
        split_ifs with hlt
        · exact (BitVec.le_of_lt hlt).trans hle
        · exact hle
    · rw [hs] at hf
      cases hf
    · rw [hf]
      unfold timeOf
      rcases m.firstFlow with _ | first
      · exact le_rfl
      · simp only
        split_ifs with hlt
        · exact le_rfl
        · exact BitVec.not_lt.1 hlt
  · rw [now_sending hs]
    rcases hf with hf | hf | hf
    · exact (h.sends s hs).least f hf
    · rw [Option.some.inj (hs.symm.trans hf)]
    · rw [(h.sends s hs).previous] at hf
      cases hf

theorem exists_now (hf : m.Backlogged f) : ∃ g, m.Backlogged g ∧ now m = timeOf m g := by
  rcases hs : m.sendingFlow with _ | s
  · unfold now getCurrentTime
    rw [hs]
    simp only
    rcases hfirst : m.firstFlow with _ | first <;> rcases hp : m.previousFlow with _ | p <;> simp only
    · rcases hf with hf | hf | hf
      · unfold firstFlow at hfirst
        rw [List.head?_eq_none_iff] at hfirst
        rw [hfirst] at hf
        cases hf
      · rw [hs] at hf
        cases hf
      · rw [hp] at hf
        cases hf
    · exact ⟨p, .inr (.inr hp), rfl⟩
    · exact ⟨first, .inl (firstFlow_mem hfirst), rfl⟩
    · split_ifs
      · exact ⟨p, .inr (.inr hp), rfl⟩
      · exact ⟨first, .inl (firstFlow_mem hfirst), rfl⟩
  · exact ⟨s, .inr (.inl hs), now_sending hs⟩

/-! ## `schedule` -/

theorem schedule_eq {l : List ℕ} (hl : m.queuedTree = f :: l) :
    m.schedule = { m.modifyFlow f fun x => { x with isQueued := false } with
      queuedTree := l
      output := some (m.flow f).queued
      sendingFlow := some f
      sendingLen := (m.flow f).queued.length } := by
  unfold schedule firstFlow
  rw [hl]
  simp only [List.head?_cons, List.erase_cons_head]

theorem timeOf_schedule (m : PacketPassFairQueue) (g : ℕ) : timeOf m.schedule g = timeOf m g := by
  rcases hl : m.queuedTree with _ | ⟨f, l⟩
  · unfold schedule firstFlow
    rw [hl]
    rfl
  · rw [schedule_eq hl]
    unfold timeOf
    by_cases hg : g = f
    · subst hg
      rw [modifyFlow_self]
    · rw [modifyFlow_ne hg]

theorem Ready.schedule (h : Ready m) (hsending : m.sendingFlow = none) (hprevious : m.previousFlow = none)
    (hjob : m.scheduleJob = false) (hne : m.queuedTree ≠ []) : Inv m.schedule := by
  obtain ⟨f, l, hl⟩ := List.exists_cons_of_ne_nil hne
  have hf : f ∈ m.queuedTree := hl ▸ List.mem_cons_self
  have hsorted := h.tree.sorted
  have hnodup := h.tree.nodup
  rw [hl] at hsorted hnodup
  obtain ⟨hfirst, hsorted⟩ := List.pairwise_cons.1 hsorted
  have hnot := (List.nodup_cons.1 hnodup).1
  obtain ⟨hmem, -⟩ := (h.tree.mem f).1 hf
  obtain ⟨hbusy, hfits⟩ := h.tree.waiting f hf
  have hother : ∀ g ∈ l, g ≠ f := fun g hg heq => hnot (heq ▸ hg)
  have htimes := timeOf_schedule m
  rw [schedule_eq hl] at htimes ⊢
  refine ⟨⟨⟨h.tree.flows, ?_, ?_, ?_⟩, ?_, ?_, ?_, ?_, h.fits⟩, ?_⟩
  · refine hsorted.imp ?_
    intro g g' hlt
    rw [compareFlows_lt] at hlt ⊢
    rw [htimes, htimes]
    exact hlt
  · intro g
    by_cases hg : g = f
    · subst hg
      simp [modifyFlow_self, hnot]
    · have := h.tree.mem g
      rw [hl, List.mem_cons, or_iff_right hg] at this
      simpa [modifyFlow_ne hg] using this
  · intro g hg
    simp only [modifyFlow_ne (hother g hg)]
    exact h.tree.waiting g (hl ▸ List.mem_cons_of_mem _ hg)
  · rintro g hg
    obtain rfl := Option.some.inj hg
    refine ⟨hmem, ?_, ?_, ?_, ?_, ?_, hprevious, hjob, ?_⟩
    · simp [modifyFlow_self]
    · simpa [modifyFlow_self] using hbusy
    · simp [modifyFlow_self]
    · simp [modifyFlow_self]
    · simpa [modifyFlow_self] using hfits
    · intro g' hg'
      have := compareFlows_lt.1 (hfirst g' hg')
      rw [htimes, htimes]
      omega
  · intro hnone
    cases hnone
  · intro g hg
    rw [show m.previousFlow = some g from hg] at hprevious
    cases hprevious
  · intro g hg hb
    by_cases heq : g = f
    · exact .inr (congrArg some heq.symm)
    · left
      simp only [modifyFlow_ne heq] at hb
      rcases h.held g hg hb with hq | hs
      · rw [hl] at hq
        exact (List.mem_cons.1 hq).resolve_left heq
      · rw [hsending] at hs
        cases hs
  · intro hnone
    cases hnone

theorem Ready.assertsSchedule (h : Ready m) (hsending : m.sendingFlow = none) (hprevious : m.previousFlow = none)
    (hne : m.queuedTree ≠ []) : m.AssertsSchedule :=
  ⟨hsending, hprevious, hne, h.tree.assertsFirst, h.idle hsending,
    fun f hf => (h.tree.waiting f (firstFlow_mem hf)).2⟩

/-! ## Packets that come in -/

/-- A flow that comes back takes the current time, one that was sent last keeps its own. -/
theorem raiseTime_eq (m : PacketPassFairQueue) (f : ℕ) : ∃ t p, m.raiseTime f = { m.withTimes t with previousFlow := p } ∧
    (p = none ∨ p = m.previousFlow) ∧ p ≠ some f ∧ (∀ g, g ≠ f → (t g).toNat = timeOf m g) ∧
    (m.previousFlow = some f → p = none ∧ (t f).toNat = timeOf m f) ∧
    (m.previousFlow ≠ some f → p = m.previousFlow ∧ (t f).toNat = max (timeOf m f) (now m)) := by
  unfold raiseTime
  by_cases h : m.previousFlow = some f
  · rw [if_pos h]
    exact ⟨_, none, rfl, .inl rfl, nofun, fun _ _ => rfl, fun _ => ⟨rfl, rfl⟩, fun hne => absurd h hne⟩
  · rw [if_neg h]
    have heq := modifyFlow_time m f fun time => if m.getCurrentTime < time then time else m.getCurrentTime
    generalize ht : Function.update (fun g => (m.flow g).time) f _ = t at heq
    refine ⟨t, m.previousFlow, heq, .inr rfl, h, ?_, fun hp => absurd hp h, fun _ => ⟨rfl, ?_⟩⟩
    · intro g hg
      rw [← ht, Function.update_of_ne hg]
      rfl
    · rw [← ht, Function.update_self]
      unfold timeOf now
      split_ifs with hlt
      · exact (max_eq_left (BitVec.le_of_lt hlt)).symm
      · exact (max_eq_right (BitVec.not_lt.1 hlt)).symm

theorem Ready.retime (h : Ready m) {t : ℕ → BitVec 64} {p : Option ℕ} (htree : ∀ g ∈ m.queuedTree, (t g).toNat = timeOf m g)
    (hsending : ∀ s, m.sendingFlow = some s → (t s).toNat = timeOf m s) (hp : p = none ∨ p = m.previousFlow) :
    Ready { m.withTimes t with previousFlow := p } := by
  have ht := h.tree.withTimes 0 htree
  refine ⟨⟨ht.flows, ht.sorted, ht.mem, ht.waiting⟩, ?_, h.idle, ?_, h.held, h.fits⟩
  · intro s hs
    have hsend := h.sends s hs
    refine ⟨hsend.mem, hsend.unqueued, hsend.busy, hsend.output, hsend.len, hsend.fits, ?_, hsend.job, ?_⟩
    · rcases hp with rfl | rfl
      · rfl
      · exact hsend.previous
    · intro g hg
      have hle := hsend.least g hg
      rw [← hsending s hs, ← htree g hg] at hle
      exact hle
  · intro q hq
    rcases hp with rfl | rfl
    · cases hq
    · exact h.previous q hq

theorem timeOf_enqueue (m : PacketPassFairQueue) (f : ℕ) (data : Bytes) (g : ℕ) :
    timeOf (m.enqueue f data) g = timeOf m g := by
  unfold enqueue timeOf
  by_cases hg : g = f
  · subst hg
    simp only [modifyFlow_self]
  · simp only [modifyFlow_ne hg]

theorem Ready.enqueue (h : Ready m) (hmem : f ∈ m.flowsList) (hsending : m.sendingFlow ≠ some f)
    (hprevious : m.previousFlow ≠ some f) (hfits : data.length ≤ m.mtu)
    (hleast : ∀ s, m.sendingFlow = some s → timeOf m s ≤ timeOf m f) : Ready (m.enqueue f data) := by
  have htimes := timeOf_enqueue m f data
  have hin : ∀ g, g ∈ (m.enqueue f data).queuedTree ↔ g = f ∨ g ∈ m.queuedTree := fun g => TreeSet.mem_add
  have hself : (m.enqueue f data).flow f = { m.flow f with queued := data, isQueued := true, busy := true } :=
    modifyFlow_self m f fun x => { x with queued := data, isQueued := true, busy := true }
  have hother : ∀ g, g ≠ f → (m.enqueue f data).flow g = m.flow g :=
    fun g hg => modifyFlow_ne (m := m) hg fun x => { x with queued := data, isQueued := true, busy := true }
  refine ⟨⟨h.tree.flows, ?_, ?_, ?_⟩, ?_, h.idle, ?_, ?_, h.fits⟩
  · refine (TreeSet.pairwise_add h.tree.sorted).imp ?_
    intro g g' hlt
    rw [compareFlows_lt] at hlt ⊢
    rw [htimes, htimes]
    exact hlt
  · intro g
    rw [hin]
    by_cases hg : g = f
    · subst hg
      rw [hself]
      exact iff_of_true (.inl rfl) ⟨hmem, rfl⟩
    · rw [hother g hg, or_iff_right hg]
      exact h.tree.mem g
  · intro g hg
    by_cases heq : g = f
    · subst heq
      rw [hself]
      exact ⟨rfl, hfits⟩
    · rw [hother g heq]
      exact h.tree.waiting g (((hin g).1 hg).resolve_left heq)
  · intro s hs
    have hne : s ≠ f := fun heq => hsending (heq ▸ hs)
    have hsend := h.sends s hs
    have hflow := hother s hne
    refine ⟨hsend.mem, ?_, ?_, ?_, ?_, ?_, hsend.previous, hsend.job, ?_⟩
    · exact hflow ▸ hsend.unqueued
    · exact hflow ▸ hsend.busy
    · exact hflow ▸ hsend.output
    · exact hflow ▸ hsend.len
    · exact hflow ▸ hsend.fits
    · intro g hg
      rw [htimes, htimes]
      rcases (hin g).1 hg with rfl | hg
      · exact hleast s hs
      · exact hsend.least g hg
  · intro p hp
    have hne : p ≠ f := fun heq => hprevious (heq ▸ hp)
    rw [hother p hne]
    exact h.previous p hp
  · intro g hg hbusy
    by_cases heq : g = f
    · exact .inl ((hin g).2 (.inl heq))
    · rw [hother g heq] at hbusy
      exact (h.held g hg hbusy).imp_left fun hq => (hin g).2 (.inr hq)

/-! ## Packets that are done -/

/-- What a round of the loop makes of the time of a flow. -/
def less (f : ℕ) (subtract : BitVec 64) (g : ℕ) (time : BitVec 64) : BitVec 64 :=
  if time < subtract ∧ g ≠ f then 0 else time - subtract

theorem subtractFrom_eq (f : ℕ) (subtract : BitVec 64) (m : PacketPassFairQueue) (g : ℕ) :
    subtractFrom f subtract m g =
      m.withTimes (Function.update (fun g => (m.flow g).time) g (less f subtract g (m.flow g).time)) := by
  rw [← modifyFlow_time m g (less f subtract g)]
  unfold subtractFrom less
  congr
  funext x
  split_ifs <;> rfl

theorem foldl_subtractFrom (f : ℕ) (subtract : BitVec 64) {l : List ℕ} (hl : l.Nodup) :
    l.foldl (subtractFrom f subtract) m =
      m.withTimes fun g => if g ∈ l then less f subtract g (m.flow g).time else (m.flow g).time := by
  induction l generalizing m with
  | nil => rfl
  | cons x l ih =>
    obtain ⟨hx, hl⟩ := List.nodup_cons.1 hl
    rw [List.foldl_cons, ih hl, subtractFrom_eq, withTimes_withTimes]
    congr
    funext g
    by_cases hg : g = x
    · subst hg
      simp [hx, withTimes]
    · simp [hg, withTimes]

/-- **The time of a flow after its packet.** Where it would overflow, the same is taken from all that are queued, and
not more than there is from those that are not. -/
theorem incrementSentFlow_eq (h : Tree m) (hf : f ∈ m.flowsList) (hunqueued : f ∉ m.queuedTree)
    (hleast : ∀ g ∈ m.queuedTree, timeOf m f ≤ timeOf m g) {amount : ℕ} (hamount : amount ≤ FAIRQUEUE_MAX_TIME.toNat) :
    ∃ t sub, m.incrementSentFlow f (BitVec.ofNat 64 amount) = m.withTimes t ∧ (t f).toNat + sub = timeOf m f + amount ∧
      (∀ g ∈ m.queuedTree, (t g).toNat + sub = timeOf m g) ∧
      ∀ g ∈ m.flowsList, g ≠ f → (t g).toNat + sub = max (timeOf m g) sub := by
  have hmax : FAIRQUEUE_MAX_TIME.toNat = 2 ^ 64 - 1 := rfl
  have htime := timeOf_lt m f
  rw [hmax] at hamount
  have hover : FAIRQUEUE_MAX_TIME - (m.flow f).time < BitVec.ofNat 64 amount ↔ 2 ^ 64 ≤ timeOf m f + amount := by
    unfold timeOf at htime ⊢
    rw [BitVec.lt_def, BitVec.toNat_sub, BitVec.toNat_ofNat, hmax]
    omega
  have hsum : ∀ x : BitVec 64, (x + BitVec.ofNat 64 amount).toNat = (x.toNat + amount) % 2 ^ 64 := by
    intro x
    rw [BitVec.toNat_add, BitVec.toNat_ofNat]
    omega
  unfold incrementSentFlow
  by_cases h64 : 2 ^ 64 ≤ timeOf m f + amount
  · -- all that are queued have at least the time that is subtracted, and the flow has at most that
    have hfirst : timeOf m f ≤ (m.subtracted f).toNat ∧ ∀ g ∈ m.queuedTree, (m.subtracted f).toNat ≤ timeOf m g := by
      unfold subtracted
      rcases hfirst : m.firstFlow with _ | first
      · unfold firstFlow at hfirst
        rw [List.head?_eq_none_iff] at hfirst
        rw [hfirst]
        exact ⟨le_rfl, nofun⟩
      · exact ⟨hleast first (firstFlow_mem hfirst), fun g hg => h.first_le hfirst hg⟩
    obtain ⟨hle, hqueued⟩ := hfirst
    have hlt := (m.subtracted f).isLt
    simp only [if_pos (hover.2 h64), foldl_subtractFrom f (m.subtracted f) h.flows]
    rw [modifyFlow_time _ f (· + BitVec.ofNat 64 amount), withTimes_withTimes]
    refine ⟨_, (m.subtracted f).toNat, rfl, ?_, ?_, ?_⟩
    · rw [Function.update_self, hsum]
      simp only [withTimes, if_pos hf, less, ne_eq, not_true_eq_false, and_false, if_false]
      rw [BitVec.toNat_sub]
      unfold timeOf at *
      omega
    · intro g hg
      have hne : g ≠ f := fun heq => hunqueued (heq ▸ hg)
      have hge := hqueued g hg
      rw [Function.update_of_ne hne]
      simp only [withTimes, if_pos ((h.mem g).1 hg).1, less]
      rw [if_neg (fun hlt => absurd (BitVec.lt_def.1 hlt.1) (not_lt.2 hge)), BitVec.toNat_sub]
      have := timeOf_lt m g
      unfold timeOf at *
      omega
    · intro g hg hne
      rw [Function.update_of_ne hne]
      simp only [withTimes, if_pos hg, less, ne_eq, hne, not_false_eq_true, and_true, BitVec.lt_def]
      have := timeOf_lt m g
      unfold timeOf at *
      split_ifs with hsmall
      · rw [max_eq_right hsmall.le]
        exact Nat.zero_add _
      · rw [max_eq_left (not_lt.1 hsmall), BitVec.toNat_sub]
        omega
  · simp only [if_neg (mt hover.1 h64)]
    rw [modifyFlow_time m f (· + BitVec.ofNat 64 amount)]
    refine ⟨_, 0, rfl, ?_, ?_, ?_⟩
    · rw [Function.update_self, hsum]
      unfold timeOf at *
      omega
    · intro g hg
      have hne : g ≠ f := fun heq => hunqueued (heq ▸ hg)
      rw [Function.update_of_ne hne]
      rfl
    · intro g _ hne
      rw [Function.update_of_ne hne, Nat.max_zero]
      rfl

/-! ## Steps -/

/-- The packets of a flow that the output is done with. -/
def passed (f : ℕ) (m : PacketPassFairQueue) : Event → List Bytes
  | .done => if m.sendingFlow = some f then m.output.toList else []
  | _ => []

/-- What packets count for. -/
def cost (packetWeight : ℕ) (ds : List Bytes) : ℕ := (ds.map fun data => packetWeight + data.length).sum

/-- What a step does to the times, when the flows get their shares of `w`: as much is taken from those that have
packets before and after it, and what others have is between the same and the current time. -/
structure Shifts (m m' : PacketPassFairQueue) (w : ℕ → ℕ) (sub : ℕ) : Prop where
  backlogged : ∀ f, m.Backlogged f → m'.Backlogged f → timeOf m' f + sub = timeOf m f + w f
  lower : ∀ f ∈ m.flowsList, timeOf m f + w f ≤ timeOf m' f + sub
  upper : ∀ f ∈ m.flowsList, timeOf m' f + sub ≤ max (timeOf m f + w f) (max (now m) sub)
  joins : ∀ f, m'.Backlogged f → m.Backlogged f ∨ now m ≤ timeOf m' f + sub

/-- A step that changes no times and adds no packets. -/
theorem Ready.shifts (h : Ready m) (htimes : ∀ f ∈ m.flowsList, timeOf m' f = timeOf m f)
    (hback : ∀ f, m'.Backlogged f → m.Backlogged f) : Shifts m m' (fun _ => 0) 0 := by
  refine ⟨?_, ?_, ?_, fun f hf => .inl (hback f hf)⟩
  · intro f hf _
    rw [htimes f (h.backlogged_mem hf)]
  · intro f hf
    rw [htimes f hf]
  · intro f hf
    rw [htimes f hf]
    exact le_max_left _ _

theorem backlogged_schedule (hf : m.schedule.Backlogged f) : m.Backlogged f := by
  rcases hl : m.queuedTree with _ | ⟨q, l⟩
  · unfold schedule firstFlow at hf
    rw [hl] at hf
    exact hf
  · rw [schedule_eq hl] at hf
    rcases hf with hf | hf | hf
    · exact .inl (hl ▸ List.mem_cons_of_mem _ hf)
    · obtain rfl := Option.some.inj hf
      exact .inl (hl ▸ List.mem_cons_self)
    · exact .inr (.inr hf)

/-- A flow without a packet is not in the tree, and not at the output. -/
theorem Ready.not_busy (h : Ready m) (hbusy : (m.flow f).busy = false) : f ∉ m.queuedTree ∧ m.sendingFlow ≠ some f := by
  constructor
  · intro hf
    have := (h.tree.waiting f hf).1
    rw [hbusy] at this
    cases this
  · intro hf
    have := (h.sends f hf).busy
    rw [hbusy] at this
    cases this

/-- A flow that is about to be queued, with the time it is queued with. -/
structure Raised (m : PacketPassFairQueue) (f : ℕ) (m₁ : PacketPassFairQueue) : Prop extends Ready m₁ where
  sendingFlow : m₁.sendingFlow = m.sendingFlow
  scheduleJob : m₁.scheduleJob = m.scheduleJob
  queuedTree : m₁.queuedTree = m.queuedTree
  flowsList : m₁.flowsList = m.flowsList
  mtu : m₁.mtu = m.mtu
  previousFlow : m₁.previousFlow = none ∨ m₁.previousFlow = m.previousFlow
  leaves : m₁.previousFlow ≠ some f
  others : ∀ g, g ≠ f → timeOf m₁ g = timeOf m g
  ge : timeOf m f ≤ timeOf m₁ f
  current : now m ≤ timeOf m₁ f
  le : timeOf m₁ f ≤ max (timeOf m f) (now m)
  keeps : m.Backlogged f → timeOf m₁ f = timeOf m f

theorem Ready.raised (h : Ready m) (hnot : f ∉ m.queuedTree) (hsending : m.sendingFlow ≠ some f) :
    Raised m f (m.raiseTime f) := by
  obtain ⟨t, p, heq, hp, hpf, hothers, hprevious, hraised⟩ := raiseTime_eq m f
  have hready := h.retime (fun g hg => hothers g fun heq => hnot (heq ▸ hg)) (fun s hs => hothers s fun heq =>
    hsending (heq ▸ hs)) hp
  rw [heq]
  by_cases hpm : m.previousFlow = some f
  · have hle := h.now_le (.inr (.inr hpm))
    have ht := (hprevious hpm).2
    exact ⟨hready, rfl, rfl, rfl, rfl, rfl, hp, hpf, hothers, ht.ge, ht.ge.trans' hle, ht.le.trans (le_max_left _ _),
      fun _ => ht⟩
  · have ht := (hraised hpm).2
    exact ⟨hready, rfl, rfl, rfl, rfl, rfl, hp, hpf, hothers, ht.ge.trans' (le_max_left _ _),
      ht.ge.trans' (le_max_right _ _), ht.le, fun hback => absurd hback (not_or.2 ⟨hnot, not_or.2 ⟨hsending, hpm⟩⟩)⟩

theorem Inv.send (h : Inv m) (he : m.Allowed (.send f data)) :
    Inv (m.inputHandlerSend f data) ∧ Shifts m (m.inputHandlerSend f data) (fun _ => 0) 0 ∧ m.Asserts (.send f data) := by
  obtain ⟨hmem, hbusy, hfits⟩ := he
  obtain ⟨hnot, hsending⟩ := h.not_busy hbusy
  have hunqueued : (m.flow f).isQueued = false := by
    by_contra hq
    exact hnot ((h.tree.mem f).2 ⟨hmem, by simpa using hq⟩)
  have hr := h.raised hnot hsending
  unfold inputHandlerSend
  simp only [Asserts]
  generalize m.raiseTime f = m₁ at hr ⊢
  have hready : Ready (m₁.enqueue f data) := by
    refine hr.enqueue (hr.flowsList ▸ hmem) (hr.sendingFlow ▸ hsending) hr.leaves (hr.mtu ▸ hfits) ?_
    intro s hs
    rw [hr.sendingFlow] at hs
    rw [hr.others s fun heq => hsending (heq ▸ hs), ← now_sending hs]
    exact hr.current
  have htimes : ∀ m' : PacketPassFairQueue, (∀ g, timeOf m' g = timeOf m₁ g) →
      (∀ g, m'.Backlogged g → (m₁.enqueue f data).Backlogged g) → Shifts m m' (fun _ => 0) 0 := by
    intro m' htime hback
    have hof : ∀ g, timeOf m g ≤ timeOf m' g ∧ timeOf m' g ≤ max (timeOf m g) (now m) ∧
        (m.Backlogged g → timeOf m' g = timeOf m g) := by
      intro g
      rw [htime]
      by_cases hg : g = f
      · subst hg
        exact ⟨hr.ge, hr.le, hr.keeps⟩
      · rw [hr.others g hg]
        exact ⟨le_rfl, le_max_left _ _, fun _ => rfl⟩
    refine ⟨fun g hg _ => (hof g).2.2 hg, fun g _ => (hof g).1, ?_, ?_⟩
    · intro g _
      have := (hof g).2.1
      omega
    · intro g hg
      rcases hback g hg with hq | hs | hp
      · rcases TreeSet.mem_add.1 hq with rfl | hq
        · exact .inr ((htime _).symm ▸ hr.current)
        · exact .inl (.inl (hr.queuedTree ▸ hq))
      · exact .inl (.inr (.inl (hr.sendingFlow ▸ hs)))
      · rcases hr.previousFlow with hnone | hsame
        · rw [show m₁.previousFlow = some g from hp] at hnone
          cases hnone
        · exact .inl (.inr (.inr (hsame ▸ hp)))
  have hin : f ∈ (m₁.enqueue f data).queuedTree := TreeSet.mem_add.2 (.inl rfl)
  have hfresh : ∀ g ∈ m.queuedTree, m₁.compareFlows f g ≠ .eq := by
    intro g hg heq
    exact hnot (Std.LawfulEqCmp.eq_of_compare heq ▸ hg)
  by_cases hidle : m.sendingFlow = none ∧ m.scheduleJob = false
  · have hprevious : m₁.previousFlow = none := by
      rcases hr.previousFlow with hnone | hsame
      · exact hnone
      · rw [hsame]
        by_contra hp
        obtain ⟨p, hp⟩ := Option.ne_none_iff_exists'.1 hp
        rw [(h.previous p hp).2.2] at hidle
        cases hidle.2
    have hs : (m₁.enqueue f data).sendingFlow = none := hr.sendingFlow.trans hidle.1
    have hj : (m₁.enqueue f data).scheduleJob = false := hr.scheduleJob.trans hidle.2
    rw [if_pos ⟨hs, hj⟩]
    refine ⟨hready.schedule hs hprevious hj (List.ne_nil_of_mem hin), ?_, hsending, hunqueued, h.tree.assertsFirst, hfresh,
      fun _ _ => hready.assertsSchedule hs hprevious (List.ne_nil_of_mem hin)⟩
    exact htimes _ (fun g => (timeOf_schedule _ g).trans (timeOf_enqueue _ _ _ g)) fun g => backlogged_schedule
  · have hidle' : ¬ ((m₁.enqueue f data).sendingFlow = none ∧ (m₁.enqueue f data).scheduleJob = false) := by
      rintro ⟨hs, hj⟩
      exact hidle ⟨hr.sendingFlow.symm.trans hs, hr.scheduleJob.symm.trans hj⟩
    rw [if_neg hidle']
    refine ⟨⟨hready, fun hs hj => absurd ⟨hs, hj⟩ hidle'⟩, ?_, hsending, hunqueued, h.tree.assertsFirst, hfresh,
      fun hs hj => absurd ⟨hs, hj⟩ hidle⟩
    exact htimes _ (timeOf_enqueue _ _ _) fun _ => id

theorem Inv.sending (h : Inv m) (he : m.Allowed .done) : ∃ f, m.sendingFlow = some f := by
  obtain ⟨data, hdata⟩ := Option.isSome_iff_exists.1 he
  refine Option.ne_none_iff_exists'.1 fun hnone => ?_
  rw [h.idle hnone] at hdata
  cases hdata

theorem Sends.not_queued (hs : Sends m f) (h : Tree m) : f ∉ m.queuedTree :=
  fun hq => absurd ((h.mem f).1 hq).2 (by simp [hs.unqueued])

theorem Sends.amount (hs : Sends m f) (h : Ready m) : m.packetWeight + m.sendingLen ≤ FAIRQUEUE_MAX_TIME.toNat := by
  have h1 := h.fits
  have h2 := hs.fits
  rw [hs.len]
  omega

/-- What `output_handler_done` does, to the times and otherwise. -/
theorem Inv.done_eq (h : Inv m) (hf : m.sendingFlow = some f) : ∃ t sub,
    m.outputHandlerDone =
      { (m.withTimes t).modifyFlow f fun x => { x with busy := false } with
        sendingFlow := none
        previousFlow := some f
        output := none
        scheduleJob := true } ∧
      (t f).toNat + sub = timeOf m f + (m.packetWeight + m.sendingLen) ∧
      (∀ g ∈ m.queuedTree, (t g).toNat + sub = timeOf m g) ∧
      ∀ g ∈ m.flowsList, g ≠ f → (t g).toNat + sub = max (timeOf m g) sub := by
  have hs := h.sends f hf
  let m₁ : PacketPassFairQueue := { m with sendingFlow := none, previousFlow := some f, output := none }
  have htree : Tree m₁ := ⟨h.tree.flows, h.tree.sorted, h.tree.mem, h.tree.waiting⟩
  obtain ⟨t, sub, heq, htimes⟩ := incrementSentFlow_eq htree hs.mem (hs.not_queued h.tree) hs.least (hs.amount h.toReady)
  refine ⟨t, sub, ?_, htimes⟩
  unfold outputHandlerDone
  rw [hf]
  exact congrArg (fun m' : PacketPassFairQueue => { m'.modifyFlow f fun x => { x with busy := false } with
    scheduleJob := true }) heq

theorem cost_passed_done (h : Inv m) (hf : m.sendingFlow = some f) (g : ℕ) :
    cost m.packetWeight (passed g m .done) = if g = f then m.packetWeight + m.sendingLen else 0 := by
  have hs := h.sends f hf
  unfold cost passed
  by_cases hg : g = f
  · subst hg
    simp [hf, hs.output, hs.len]
  · have hne : m.sendingFlow ≠ some g := fun heq => hg (Option.some.inj (heq.symm.trans hf))
    simp [hne, hg]

theorem Inv.done (h : Inv m) (he : m.Allowed .done) :
    Inv m.outputHandlerDone ∧ (∃ sub, Shifts m m.outputHandlerDone (fun g => cost m.packetWeight (passed g m .done)) sub) ∧
      m.Asserts .done := by
  obtain ⟨f, hf⟩ := h.sending he
  have hs := h.sends f hf
  have hnot := hs.not_queued h.tree
  have hamount := hs.amount h.toReady
  have hcost := cost_passed_done h hf
  obtain ⟨t, sub, hm, htf, hqueued, hothers⟩ := h.done_eq hf
  have htime : ∀ g, timeOf m.outputHandlerDone g = (t g).toNat := by
    intro g
    rw [hm]
    unfold timeOf
    by_cases hg : g = f
    · subst hg
      simp only [modifyFlow_self]
      rfl
    · simp only [modifyFlow_ne hg]
      rfl
  refine ⟨?_, ⟨sub, ?_⟩, hs.previous, hs.job, f, hf, hs.unqueued, hs.busy, hamount, hs.unqueued, h.tree.assertsFirst, ?_⟩
  · have ht : Tree ((m.withTimes t).modifyFlow f fun x => { x with busy := false }) :=
      (h.tree.withTimes sub hqueued).modifyFlow hnot hs.unqueued
    rw [hm]
    refine ⟨⟨⟨ht.flows, ht.sorted, ht.mem, ht.waiting⟩, nofun, fun _ => rfl, ?_, ?_, h.fits⟩, fun _ hj => nomatch hj⟩
    · intro p hp
      obtain rfl := Option.some.inj hp
      refine ⟨hs.mem, ?_, rfl⟩
      simp only [modifyFlow_self]
      exact hs.unqueued
    · intro g hg hbusy
      by_cases heq : g = f
      · subst heq
        simp [modifyFlow_self] at hbusy
      · simp only [modifyFlow_ne heq] at hbusy
        refine .inl ((h.held g hg hbusy).resolve_right fun hsend => ?_)
        exact heq (Option.some.inj (hsend.symm.trans hf))
  · have hqueue : ∀ g, m.outputHandlerDone.Backlogged g → g ∈ m.queuedTree ∨ g = f := by
      intro g hg
      rw [hm] at hg
      rcases hg with hq | hsend | hp
      · exact .inl hq
      · cases hsend
      · exact .inr (Option.some.inj hp).symm
    refine ⟨?_, ?_, ?_, ?_⟩
    · intro g _ hg
      rw [htime, hcost]
      rcases hqueue g hg with hq | rfl
      · rw [if_neg fun heq : g = f => hnot (heq ▸ hq)]
        exact hqueued g hq
      · rw [if_pos rfl]
        exact htf
    · intro g hg
      rw [htime, hcost]
      by_cases heq : g = f
      · subst heq
        rw [if_pos rfl]
        exact htf.ge
      · rw [if_neg heq, hothers g hg heq]
        exact le_max_left _ _
    · intro g hg
      rw [htime, hcost]
      by_cases heq : g = f
      · subst heq
        rw [if_pos rfl]
        exact htf.le.trans (le_max_left _ _)
      · rw [if_neg heq, hothers g hg heq]
        exact max_le_max le_rfl (le_max_right _ _)
    · intro g hg
      rcases hqueue g hg with hq | rfl
      · exact .inl (.inl hq)
      · exact .inl (.inr (.inl hf))
  · -- what is queued has at least the time that is subtracted
    intro _ g hg hlt hne
    by_contra hq
    have hmem : g ∈ m.queuedTree := (h.tree.mem g).2 ⟨hg, by simpa using hq⟩
    have hsub : timeOf m g < (m.subtracted f).toNat := BitVec.lt_def.1 hlt
    unfold subtracted at hsub
    rcases hfirst : m.firstFlow with _ | first
    · unfold firstFlow at hfirst
      rw [List.head?_eq_none_iff] at hfirst
      rw [hfirst] at hmem
      cases hmem
    · rw [hfirst] at hsub
      exact absurd (h.tree.first_le hfirst hmem) (not_le.2 hsub)

theorem Inv.job (h : Inv m) (he : m.Allowed .job) :
    Inv m.scheduleJobHandler ∧ Shifts m m.scheduleJobHandler (fun _ => 0) 0 ∧ m.Asserts .job := by
  have hjob : m.scheduleJob = true := he
  have hsending : m.sendingFlow = none := by
    by_contra hs
    obtain ⟨f, hf⟩ := Option.ne_none_iff_exists'.1 hs
    have := (h.sends f hf).job
    rw [hjob] at this
    cases this
  have hready : Ready { m with scheduleJob := false, previousFlow := none } := by
    refine ⟨⟨h.tree.flows, h.tree.sorted, h.tree.mem, h.tree.waiting⟩, ?_, h.idle, nofun, h.held, h.fits⟩
    intro f hf
    rw [show m.sendingFlow = some f from hf] at hsending
    cases hsending
  have hback : ∀ f, Backlogged { m with scheduleJob := false, previousFlow := none } f → m.Backlogged f := by
    rintro f (hq | hs | hp)
    · exact .inl hq
    · exact .inr (.inl hs)
    · cases hp
  refine ⟨?_, ?_, hsending, fun hne => hready.assertsSchedule hsending rfl hne⟩
  · unfold scheduleJobHandler
    simp only
    split_ifs with hne
    · exact hready.schedule hsending rfl rfl hne
    · exact ⟨hready, fun _ _ => not_not.1 hne⟩
  · unfold scheduleJobHandler
    simp only
    split_ifs with hne
    · exact h.shifts (fun f _ => timeOf_schedule _ f) fun f hf => hback f (backlogged_schedule hf)
    · exact h.shifts (fun _ _ => rfl) hback

theorem Inv.flowInit (h : Inv m) (he : m.Allowed (.flowInit f)) :
    Inv (m.flowInit f) ∧ Shifts m (m.flowInit f) (fun _ => 0) 0 := by
  have hnew : f ∉ m.flowsList := he
  have hne : ∀ g ∈ m.flowsList, g ≠ f := fun g hg heq => hnew (heq ▸ hg)
  have hnot : f ∉ m.queuedTree := fun hq => hnew ((h.tree.mem f).1 hq).1
  have ht : Tree (m.modifyFlow f fun x => { x with busy := false, time := 0, isQueued := false }) :=
    h.tree.modifyFlow hnot rfl
  have hflow : ∀ g ∈ m.flowsList, (m.flowInit f).flow g = m.flow g := fun g hg =>
    modifyFlow_ne (hne g hg) fun x => { x with busy := false, time := 0, isQueued := false }
  have hself : (m.flowInit f).flow f = { m.flow f with busy := false, time := 0, isQueued := false } :=
    modifyFlow_self m f fun x => { x with busy := false, time := 0, isQueued := false }
  constructor
  · refine ⟨⟨⟨?_, ht.sorted, ?_, ht.waiting⟩, ?_, h.idle, ?_, ?_, h.fits⟩, h.waits⟩
    · exact List.nodup_append.2 ⟨h.tree.flows, List.nodup_singleton f, fun g hg g' hg' heq =>
        hne g hg (heq.trans (List.mem_singleton.1 hg'))⟩
    · intro g
      refine (ht.mem g).trans (and_congr_left fun hq => ?_)
      refine (List.mem_append.trans (or_iff_left fun heq => ?_)).symm
      rw [List.mem_singleton.1 heq, modifyFlow_self] at hq
      cases hq
    · intro s hs
      have hsend := h.sends s hs
      have hsflow := hflow s hsend.mem
      refine ⟨List.mem_append_left _ hsend.mem, hsflow ▸ hsend.unqueued, hsflow ▸ hsend.busy, hsflow ▸ hsend.output,
        hsflow ▸ hsend.len, hsflow ▸ hsend.fits, hsend.previous, hsend.job, ?_⟩
      intro g hg
      unfold timeOf
      rw [hsflow, hflow g ((h.tree.mem g).1 hg).1]
      exact hsend.least g hg
    · intro p hp
      obtain ⟨hmem, hunqueued, hjob⟩ := h.previous p hp
      exact ⟨List.mem_append_left _ hmem, hflow p hmem ▸ hunqueued, hjob⟩
    · intro g hg hbusy
      rcases List.mem_append.1 hg with hg | hg
      · rw [hflow g hg] at hbusy
        exact h.held g hg hbusy
      · rw [List.mem_singleton.1 hg, hself] at hbusy
        cases hbusy
  · refine h.shifts (fun g hg => ?_) fun _ => id
    unfold timeOf
    rw [hflow g hg]

theorem Inv.flowFree (h : Inv m) (he : m.Allowed (.flowFree f)) :
    Inv (m.flowFree f) ∧ Shifts m (m.flowFree f) (fun _ => 0) 0 := by
  obtain ⟨hmem, hsending⟩ := he
  have hs : (m.flowFree f).sendingFlow = m.sendingFlow := if_neg hsending
  have htree : (m.flowFree f).queuedTree = m.queuedTree.erase f := by
    change (if (m.flow f).isQueued = true then m.queuedTree.erase f else m.queuedTree) = _
    split_ifs with hq
    · rfl
    · exact (List.erase_of_not_mem fun hin => hq ((h.tree.mem f).1 hin).2).symm
  have hin : ∀ g, g ∈ (m.flowFree f).queuedTree ↔ g ≠ f ∧ g ∈ m.queuedTree := by
    intro g
    rw [htree]
    exact h.tree.nodup.mem_erase_iff
  have hflows : ∀ g, g ∈ (m.flowFree f).flowsList ↔ g ≠ f ∧ g ∈ m.flowsList := fun g => h.tree.flows.mem_erase_iff
  have hprevious : ∀ p, (m.flowFree f).previousFlow = some p → p ≠ f ∧ m.previousFlow = some p := by
    intro p hp
    change (if m.previousFlow = some f then none else m.previousFlow) = some p at hp
    split_ifs at hp with hpf
    exact ⟨fun heq => hpf (heq ▸ hp), hp⟩
  constructor
  · refine ⟨⟨⟨h.tree.flows.erase f, ?_, ?_, ?_⟩, ?_, ?_, ?_, ?_, h.fits⟩, ?_⟩
    · rw [htree]
      exact h.tree.sorted.sublist List.erase_sublist
    · intro g
      rw [hin, hflows, and_assoc]
      exact and_congr_right fun _ => h.tree.mem g
    · exact fun g hg => h.tree.waiting g ((hin g).1 hg).2
    · intro s hsend
      rw [hs] at hsend
      have hold := h.sends s hsend
      refine ⟨(hflows s).2 ⟨fun heq => hsending (heq ▸ hsend), hold.mem⟩, hold.unqueued, hold.busy, hold.output, hold.len,
        hold.fits, ?_, hold.job, fun g hg => hold.least g ((hin g).1 hg).2⟩
      exact ite_eq_left_iff.2 fun _ => hold.previous
    · rw [hs]
      exact h.idle
    · intro p hp
      obtain ⟨hne, hold⟩ := hprevious p hp
      obtain ⟨hpmem, hunqueued, hjob⟩ := h.previous p hold
      exact ⟨(hflows p).2 ⟨hne, hpmem⟩, hunqueued, hjob⟩
    · intro g hg hbusy
      obtain ⟨hne, hgmem⟩ := (hflows g).1 hg
      rw [hs, hin]
      exact (h.held g hgmem hbusy).imp_left fun hq => ⟨hne, hq⟩
    · intro hnone hjob
      rw [htree, h.waits (hs ▸ hnone) hjob]
      rfl
  · refine h.shifts (fun _ _ => rfl) ?_
    rintro g (hq | hsend | hp)
    · exact .inl ((hin g).1 hq).2
    · exact .inr (.inl (hs ▸ hsend))
    · exact .inr (.inr (hprevious g hp).2)

/-- **A step keeps the invariant**, what it asserts holds, and it shifts the times. -/
theorem Inv.step (h : Inv m) (e : Event) (he : m.Allowed e) :
    Inv (m.step e) ∧ m.Asserts e ∧ ∃ sub, Shifts m (m.step e) (fun g => cost m.packetWeight (passed g m e)) sub := by
  cases e with
  | flowInit f => exact ⟨(h.flowInit he).1, trivial, 0, (h.flowInit he).2⟩
  | flowFree f => exact ⟨(h.flowFree he).1, he.2, 0, (h.flowFree he).2⟩
  | send f data => exact ⟨(h.send he).1, (h.send he).2.2, 0, (h.send he).2.1⟩
  | done => exact ⟨(h.done he).1, (h.done he).2.2, (h.done he).2.1⟩
  | job => exact ⟨(h.job he).1, (h.job he).2.2, 0, (h.job he).2.1⟩

theorem Inv.init {mtu packetWeight : ℕ} {memory : ℕ → PacketPassFairQueueFlow}
    (h : PacketPassFairQueue.init mtu packetWeight memory = some m) : Inv m := by
  unfold PacketPassFairQueue.init at h
  rw [Option.ite_none_right_eq_some, Option.some.injEq] at h
  obtain ⟨⟨h1, h2⟩, rfl⟩ := h
  refine ⟨⟨⟨List.nodup_nil, List.Pairwise.nil, ?_, nofun⟩, nofun, fun _ => rfl, nofun, nofun, ?_⟩, fun _ _ => rfl⟩
  · intro f
    simp
  · simp only
    omega

end PacketPassFairQueue

end SmartTunnel
