import Mathlib

/-!
# Runs of a transition system

A run is a list of events taken one after the other. `Always step P s es`: every step of
the run from `s` meets `P`. An invariant that guarded steps keep holds after every guarded
run (`invariant_run`), and what it gives for one guarded step holds at every step
(`Always.of_invariant`). Steps that commute with a map make runs that do (`run_map`). `trace` is
what the steps put out: what came in, but for what is held (`exists_held`, `held_trace`), and no more than a
potential allows (`trace_sum_le`).
-/

namespace Run

variable {σ ε : Type} (step : σ → ε → σ)

/-- The state after the events. -/
def run (s : σ) (es : List ε) : σ := es.foldl step s

/-- What the steps put out, one after the other. -/
def trace {α : Type} (out : σ → ε → List α) : σ → List ε → List α
  | _, [] => []
  | s, e :: es => out s e ++ trace out (step s e) es

/-- Every step of the run meets `P`, a relation of the state before it and its event. -/
def Always (P : σ → ε → Prop) : σ → List ε → Prop
  | _, [] => True
  | s, e :: es => P s e ∧ Always P (step s e) es

instance Always.decidable {P : σ → ε → Prop} [∀ s e, Decidable (P s e)] :
    ∀ s es, Decidable (Always step P s es)
  | _, [] => inferInstanceAs (Decidable True)
  | s, e :: es => @instDecidableAnd _ _ _ (decidable (step s e) es)

variable {step} {s : σ} {es : List ε}

@[simp] theorem run_nil (s : σ) : run step s [] = s := rfl

@[simp] theorem run_cons (s : σ) (e : ε) (es : List ε) : run step s (e :: es) = run step (step s e) es := rfl

theorem run_append (s : σ) (es es' : List ε) : run step s (es ++ es') = run step (run step s es) es' :=
  List.foldl_append

/-- What holds of all the events can be added to a guard. -/
theorem Always.with_events {P : σ → ε → Prop} {Q : ε → Prop} (h : Always step P s es) (hes : ∀ e ∈ es, Q e) :
    Always step (fun s e => Q e ∧ P s e) s es := by
  induction es generalizing s with
  | nil => trivial
  | cons e es ih =>
    exact ⟨⟨hes e List.mem_cons_self, h.1⟩, ih h.2 fun e' he' => hes e' (List.mem_cons_of_mem _ he')⟩

theorem Always.of_events {Q : ε → Prop} (hes : ∀ e ∈ es, Q e) : Always step (fun _ e => Q e) s es := by
  induction es generalizing s with
  | nil => trivial
  | cons e es ih => exact ⟨hes e List.mem_cons_self, ih fun e' he' => hes e' (List.mem_cons_of_mem _ he')⟩

/-- **Guarded steps keep an invariant along a guarded run.** -/
theorem invariant_run {I : σ → Prop} {guard : σ → ε → Prop}
    (hstep : ∀ s e, I s → guard s e → I (step s e)) (hs : I s) (hg : Always step guard s es) :
    I (run step s es) := by
  induction es generalizing s with
  | nil => exact hs
  | cons e es ih => exact ih (hstep s e hs hg.1) hg.2

/-- **What an invariant gives for a guarded step holds at every step of a guarded run.** -/
theorem Always.of_invariant {I : σ → Prop} {guard P : σ → ε → Prop}
    (hstep : ∀ s e, I s → guard s e → P s e ∧ I (step s e)) (hs : I s) (hg : Always step guard s es) :
    Always step P s es := by
  induction es generalizing s with
  | nil => trivial
  | cons e es ih =>
    obtain ⟨hp, hi⟩ := hstep s e hs hg.1
    exact ⟨hp, ih hi hg.2⟩

/-- **A guard that is exact for one step from an invariant is exact for a run.** -/
theorem Always.iff_of_invariant {I : σ → Prop} {guard P : σ → ε → Prop}
    (hstep : ∀ s e, I s → guard s e → P s e ∧ I (step s e)) (hexact : ∀ s e, I s → P s e → guard s e)
    (hs : I s) : Always step P s es ↔ Always step guard s es := by
  induction es generalizing s with
  | nil => exact Iff.rfl
  | cons e es ih =>
    constructor
    · rintro ⟨hp, hrest⟩
      have hg := hexact s e hs hp
      exact ⟨hg, (ih (hstep s e hs hg).2).1 hrest⟩
    · rintro ⟨hg, hrest⟩
      obtain ⟨hp, hi⟩ := hstep s e hs hg
      exact ⟨hp, (ih hi).2 hrest⟩

/-- **Guarded steps that commute with a map of states and events commute along a guarded run.** -/
theorem run_map {guard : σ → ε → Prop} {f : σ → σ} {g : ε → ε}
    (hstep : ∀ s e, guard s e → step (f s) (g e) = f (step s e)) (hg : Always step guard s es) :
    run step (f s) (es.map g) = f (run step s es) := by
  induction es generalizing s with
  | nil => rfl
  | cons e es ih =>
    rw [List.map_cons, run_cons, run_cons, hstep s e hg.1]
    exact ih hg.2

theorem trace_map {α β : Type} (f : α → β) (out : σ → ε → List α) :
    trace step (fun s e => (out s e).map f) s es = (trace step out s es).map f := by
  induction es generalizing s with
  | nil => rfl
  | cons e es ih => rw [trace, trace, ih, List.map_append]

/-- **What comes in goes out**, in order, but for what is left of what was held. -/
theorem exists_held {α : Type} {I : σ → List α → Prop} {guard : σ → ε → Prop} {offered : ε → List α}
    {out : σ → ε → List α} {held : List α}
    (hstep : ∀ s e held, I s held → guard s e → ∃ left, I (step s e) left ∧ held ++ offered e = out s e ++ left)
    (hs : I s held) (hg : Always step guard s es) :
    ∃ left, I (run step s es) left ∧ held ++ es.flatMap offered = trace step out s es ++ left := by
  induction es generalizing s held with
  | nil => exact ⟨held, hs, by simp [trace]⟩
  | cons e es ih =>
    obtain ⟨middle, hi, heq⟩ := hstep s e held hs hg.1
    obtain ⟨left, hleft, hrest⟩ := ih hi hg.2
    refine ⟨left, hleft, ?_⟩
    rw [List.flatMap_cons, ← List.append_assoc, heq, List.append_assoc, hrest, trace, List.append_assoc]

/-- The same where the state says what is held. -/
theorem held_trace {α : Type} {I : σ → Prop} {guard : σ → ε → Prop} {held : σ → List α} {offered : ε → List α}
    {out : σ → ε → List α}
    (hstep : ∀ s e, I s → guard s e → I (step s e) ∧ held s ++ offered e = out s e ++ held (step s e)) (hs : I s)
    (hg : Always step guard s es) :
    held s ++ es.flatMap offered = trace step out s es ++ held (run step s es) := by
  have hheld : ∀ s e l, I s ∧ l = held s → guard s e →
      ∃ left, (I (step s e) ∧ left = held (step s e)) ∧ l ++ offered e = out s e ++ left := by
    rintro s e l ⟨hi, rfl⟩ he
    obtain ⟨hi', heq⟩ := hstep s e hi he
    exact ⟨held (step s e), ⟨hi', rfl⟩, heq⟩
  obtain ⟨left, ⟨-, rfl⟩, heq⟩ := exists_held hheld ⟨hs, rfl⟩ hg
  exact heq

/-- **A potential bounds a difference.** It grows with what the steps gain, it goes down only with what they lose,
and it does not grow above a bound. -/
theorem trace_sum_le {I : σ → Prop} {guard : σ → ε → Prop} {gain loss : σ → ε → List ℕ} {potential : σ → ℤ} {bound : ℤ}
    (hstep : ∀ s e, I s → guard s e → I (step s e) ∧
      potential s + (gain s e).sum ≤ potential (step s e) + (loss s e).sum ∧
      potential (step s e) ≤ max (potential s) bound)
    (hs : I s) (hg : Always step guard s es) :
    potential s + (trace step gain s es).sum ≤ max (potential s) bound + (trace step loss s es).sum := by
  induction es generalizing s with
  | nil => simp [trace]
  | cons e es ih =>
    obtain ⟨hi, hlower, hupper⟩ := hstep s e hs hg.1
    have hrest := ih hi hg.2
    simp only [trace, List.sum_append, Nat.cast_add]
    omega

end Run
