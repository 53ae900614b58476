import SmartTunnel.Base.Jvm

/-!
# Loops that end

`Halts x`: with enough fuel the computation `x` returns or raises. For a sequence of
computations this is a fact about its parts (`halts_lift_bind`, `halts_bind`). A loop whose
rounds follow a relation on finitely many places ends iff no place it comes to lies on a
cycle of the relation (`doWhile_halts_iff`). What a loop returns is what a round returns in a
state the loop comes to (`returns_iff`), and a loop over an array that is cut into pieces, one
for each round, folds what the rounds do (`returns_pieces_iff`). What every round of a `for` over a
list keeps, the loop keeps (`foldlM_keeps`). For a `while` with a `break` there are a rule for each
kind of round, a rule for invariants (`whileDo_invariant`), one for what counts down (`whileDo_ends`) and one
for a round that changes nothing (`whileDo_stuck`).
-/

namespace Jvm

/-- A sequence of two computations on values returns when both do. -/
theorem bind_ok_iff {α β : Type} {x : Except JavaException α} {f : α → Except JavaException β} {b : β} :
    (x >>= f) = .ok b ↔ ∃ a, x = .ok a ∧ f a = .ok b := by
  cases x with
  | error e => simp [bind, Except.bind]
  | ok a => simp [bind, Except.bind]

/-- What each round of a `for` keeps, the loop keeps. -/
theorem foldlM_keeps {α σ : Type} {body : σ → α → Except JavaException σ} {P : σ → Prop}
    (hbody : ∀ s a s', P s → body s a = .ok s' → P s') {l : List α} {s s' : σ} (hs : P s)
    (h : l.foldlM body s = .ok s') : P s' := by
  induction l generalizing s with
  | nil =>
    obtain rfl := Except.ok.inj h
    exact hs
  | cons a l ih =>
    rw [List.foldlM_cons] at h
    obtain ⟨s₁, hround, hrest⟩ := bind_ok_iff.1 h
    exact ih (hbody s a s₁ hs hround) hrest

namespace Fueled

variable {α β σ ι : Type}

/-- Enough fuel gives an outcome. -/
def Halts (x : ℕ → Fueled α) : Prop := ∃ r, Ends x r

theorem halts_ite {c : Prop} [Decidable c] {x y : ℕ → Fueled α} :
    Halts (fun n => if c then x n else y n) ↔ (c → Halts x) ∧ (¬ c → Halts y) := by
  by_cases h : c
  · simp [h]
  · simp [h]

/-- A computation on values in front decides only whether the rest is reached. -/
theorem halts_lift_bind {x : Except JavaException α} {f : ℕ → α → Fueled β} :
    Halts (fun n => lift x >>= f n) ↔ ∀ a, x = .ok a → Halts fun n => f n a := by
  unfold Halts Ends
  cases x with
  | error e => simp
  | ok a => simp

/-- A result comes from the rest, and the computation in front has to return. -/
theorem ends_lift_bind {x : Except JavaException α} {f : ℕ → α → Fueled β} :
    (∃ r, Ends (fun n => lift x >>= f n) (.ok r)) ↔ ∃ a, x = .ok a ∧ ∃ r, Ends (fun n => f n a) (.ok r) := by
  unfold Ends
  cases x with
  | error e => simp
  | ok a => simp

/-- The same, with the result. -/
theorem ends_lift_bind_iff {x : Except JavaException α} {f : ℕ → α → Fueled β} {r : β} :
    Ends (fun n => lift x >>= f n) (.ok r) ↔ ∃ a, x = .ok a ∧ Ends (fun n => f n a) (.ok r) := by
  unfold Ends
  cases x with
  | error e => simp
  | ok a => simp

/-- What follows a computation and needs no fuel itself starts from what the computation returns. -/
theorem ends_bind_iff {x : ℕ → Fueled α} {f : α → Fueled β} {r : β} :
    Ends (fun n => x n >>= f) (.ok r) ↔ ∃ a, Ends x (.ok a) ∧ ExceptT.run (f a) = some (.ok r) := by
  unfold Ends
  constructor
  · rintro ⟨n, hn⟩
    rw [run_bind] at hn
    rcases hx : ExceptT.run (x n) with _ | (e | a)
    · rw [hx] at hn; cases hn
    · rw [hx] at hn; cases hn
    · rw [hx] at hn
      exact ⟨a, ⟨n, hx⟩, hn⟩
  · rintro ⟨a, ⟨n, hn⟩, ha⟩
    refine ⟨n, ?_⟩
    rw [run_bind, hn]
    exact ha

/-- The result of a computation, looked at. -/
theorem ends_map_iff {x : ℕ → Fueled α} {f : α → β} {r : β} :
    Ends (fun n => do let a ← x n; return f a) (.ok r) ↔ ∃ a, Ends x (.ok a) ∧ f a = r := by
  rw [ends_bind_iff]
  constructor
  · rintro ⟨a, ha, hr⟩
    exact ⟨a, ha, by simpa using hr⟩
  · rintro ⟨a, ha, rfl⟩
    exact ⟨a, ha, rfl⟩

theorem Diverges.bind {x : ℕ → Fueled α} {f : α → Fueled β} (h : Diverges x) : Diverges fun n => x n >>= f := by
  intro n
  rw [run_bind, h n]

theorem Diverges.not_ends {x : ℕ → Fueled α} (h : Diverges x) (r : Except JavaException α) : ¬ Ends x r := by
  rintro ⟨n, hn⟩
  rw [h n] at hn
  cases hn

theorem ends_const_iff {x : Fueled α} {r : Except JavaException α} : Ends (fun _ => x) r ↔ ExceptT.run x = some r := by
  unfold Ends
  simp

/-- A computation that needs no fuel. -/
def Total (x : Fueled α) : Prop := ∃ r, ExceptT.run x = some r

theorem Total.pure (a : α) : Total (Pure.pure a : Fueled α) := ⟨_, rfl⟩

theorem Total.lift_bind {x : Except JavaException α} {f : α → Fueled β} (hf : ∀ a, Total (f a)) :
    Total (lift x >>= f) := by
  cases x with
  | error e => exact ⟨.error e, rfl⟩
  | ok a => exact hf a

theorem Total.ite {c : Prop} [Decidable c] {x y : Fueled α} (hx : Total x) (hy : Total y) :
    Total (if c then x else y) := by
  split
  · exact hx
  · exact hy

theorem Total.halts {x : Fueled α} (h : Total x) : Halts fun _ => x := by
  obtain ⟨r, hr⟩ := h
  exact ⟨r, 0, hr⟩

/-- What comes after and needs no fuel decides nothing. -/
theorem halts_bind {x : ℕ → Fueled α} {f : α → Fueled β} (hf : ∀ a, Total (f a)) :
    Halts (fun n => x n >>= f) ↔ Halts x := by
  constructor
  · rintro ⟨r, n, h⟩
    rcases hx : ExceptT.run (x n) with _ | r'
    · rw [run_bind, hx] at h
      cases h
    · exact ⟨r', n, hx⟩
  · rintro ⟨r, n, h⟩
    cases r with
    | error e => exact ⟨.error e, n, by rw [run_bind, h]⟩
    | ok a =>
      obtain ⟨r, hr⟩ := hf a
      exact ⟨r, n, by rw [run_bind, h]; exact hr⟩

/-! ## `while` -/

/-- How a round of a `while` ends: the loop goes on, or a `break` leaves it. -/
inductive Next (σ : Type)
  | goOn (s : σ)
  | leave (s : σ)

/-- `while (cond(s)) { … }`, at most `n` looks at the condition. -/
def whileDo (cond : σ → Bool) (body : σ → Next σ) : ℕ → σ → Fueled σ
  | 0, _ => ExceptT.mk none
  | n + 1, s =>
    if cond s then
      match body s with
      | .goOn s' => whileDo cond body n s'
      | .leave s' => lift (.ok s')
    else lift (.ok s)

section WhileDo

variable {cond : σ → Bool} {body : σ → Next σ} {s s' : σ}

theorem whileDo_done (h : cond s = false) : Ends (fun n => whileDo cond body n s) (.ok s) :=
  ⟨1, by simp [whileDo, h]⟩

theorem whileDo_leave (h : cond s = true) (hb : body s = .leave s') :
    Ends (fun n => whileDo cond body n s) (.ok s') := ⟨1, by simp [whileDo, h, hb]⟩

theorem whileDo_goOn {r : Except JavaException σ} (h : cond s = true) (hb : body s = .goOn s')
    (hrest : Ends (fun n => whileDo cond body n s') r) : Ends (fun n => whileDo cond body n s) r := by
  obtain ⟨n, hn⟩ := hrest
  refine ⟨n + 1, ?_⟩
  simpa [whileDo, h, hb] using hn

/-- A round that leads back to where it started is followed by itself. -/
theorem whileDo_stuck (h : cond s = true) (hb : body s = .goOn s) : Diverges fun n => whileDo cond body n s := by
  intro n
  induction n with
  | zero => rfl
  | succ n ih => simpa [whileDo, h, hb] using ih

/-- A loop whose first round goes on to a loop that never ends never ends. -/
theorem whileDo_goOn_diverges (h : cond s = true) (hb : body s = .goOn s')
    (hrest : Diverges fun n => whileDo cond body n s') : Diverges fun n => whileDo cond body n s := by
  intro n
  cases n with
  | zero => rfl
  | succ n => simpa [whileDo, h, hb] using hrest n

/-- **What the rounds keep holds in the last state**, where the condition fails or a `break` leaves. -/
theorem whileDo_invariant {I : σ → Prop} (hstep : ∀ s s', I s → cond s = true → body s = .goOn s' → I s')
    (hs : I s) {t : σ} (h : Ends (fun n => whileDo cond body n s) (.ok t)) :
    (I t ∧ cond t = false) ∨ ∃ u, I u ∧ cond u = true ∧ body u = .leave t := by
  obtain ⟨n, hn⟩ := h
  induction n generalizing s with
  | zero => cases hn
  | succ n ih =>
    by_cases hc : cond s = true
    · cases hb : body s with
      | goOn s₁ =>
        simp only [whileDo, hc, hb, if_true] at hn
        exact ih (hstep s s₁ hs hc hb) hn
      | leave s₁ =>
        simp only [whileDo, hc, hb, if_true, run_lift, Option.some.injEq, Except.ok.injEq] at hn
        subst hn
        exact .inr ⟨s, hs, hc, hb⟩
    · simp only [whileDo, hc, Bool.false_eq_true, if_false, run_lift, Option.some.injEq, Except.ok.injEq] at hn
      subst hn
      exact .inl ⟨hs, by simpa using hc⟩

/-- **A loop ends** when what counts down goes down in every round that goes on. -/
theorem whileDo_ends {I : σ → Prop} (measure : σ → ℕ)
    (hstep : ∀ s s', I s → cond s = true → body s = .goOn s' → I s' ∧ measure s' < measure s) (hs : I s) :
    ∃ t, Ends (fun n => whileDo cond body n s) (.ok t) := by
  induction hm : measure s using Nat.strong_induction_on generalizing s with
  | _ m ih =>
    cases hc : cond s with
    | false => exact ⟨s, whileDo_done hc⟩
    | true =>
      cases hb : body s with
      | leave s₁ => exact ⟨s₁, whileDo_leave hc hb⟩
      | goOn s₁ =>
        obtain ⟨hs₁, hlt⟩ := hstep s s₁ hs hc hb
        obtain ⟨t, ht⟩ := ih (measure s₁) (by omega) hs₁ rfl
        exact ⟨t, whileDo_goOn hc hb ht⟩

end WhileDo

/-! ## What a loop comes to -/

/-- A round that is not the last one. -/
def Round (body : σ → Except JavaException σ) (cond : σ → Bool) (s s' : σ) : Prop :=
  body s = .ok s' ∧ cond s' = true

/-- **A loop returns what its last round returns**, in a state the loop comes to. -/
theorem returns_iff {body : σ → Except JavaException σ} {cond : σ → Bool} {s t : σ} :
    Ends (fun n => doWhile body cond n s) (.ok t) ↔
      ∃ s', Relation.ReflTransGen (Round body cond) s s' ∧ body s' = .ok t ∧ cond t = false := by
  constructor
  · rintro ⟨n, hn⟩
    induction n generalizing s with
    | zero => cases hn
    | succ n ih =>
      cases hb : body s with
      | error e =>
        rw [doWhile_error hb] at hn
        cases hn
      | ok s₁ =>
        by_cases hc : cond s₁ = true
        · simp only [doWhile_next hb hc] at hn
          obtain ⟨s', hreach, hlast⟩ := ih hn
          exact ⟨s', hreach.head ⟨hb, hc⟩, hlast⟩
        · have hfalse : cond s₁ = false := by simpa using hc
          rw [doWhile_last hb hfalse] at hn
          cases hn
          exact ⟨s, .refl, hb, hfalse⟩
  · rintro ⟨s', hreach, hb, hc⟩
    induction hreach using Relation.ReflTransGen.head_induction_on with
    | refl => exact ⟨1, doWhile_last hb hc 0⟩
    | head h _ ih =>
      obtain ⟨n, hn⟩ := ih
      refine ⟨n + 1, ?_⟩
      simp only [doWhile_next h.1 h.2]
      exact hn

/-! ## Loops over finitely many places -/

/-- From `i`, the relation leads to a place from which it leads back. -/
def Circles (next : ι → ι → Prop) (i : ι) : Prop :=
  ∃ k, Relation.ReflTransGen next i k ∧ Relation.TransGen next k k

/-- A way into a cycle goes on, and what follows is one too. -/
theorem Circles.next {next : ι → ι → Prop} {i : ι} (h : Circles next i) : ∃ j, next i j ∧ Circles next j := by
  obtain ⟨k, hik, hkk⟩ := h
  rcases Relation.ReflTransGen.cases_head hik with rfl | ⟨j, hij, hjk⟩
  · obtain ⟨j, hij, hji⟩ := Relation.TransGen.head'_iff.1 hkk
    exact ⟨j, hij, _, hji, hkk⟩
  · exact ⟨j, hij, k, hjk, hkk⟩

theorem not_circles_of_last {next : ι → ι → Prop} {i : ι} (h : ∀ j, ¬ next i j) : ¬ Circles next i := by
  intro hi
  obtain ⟨j, hij, -⟩ := hi.next
  exact h j hij

/-- Off the cycles, the places that can still be reached run out. -/
theorem wellFounded_reached {next : ι → ι → Prop} {i : ι}
    (hfin : {j | Relation.ReflTransGen next i j}.Finite) (hi : ¬ Circles next i) :
    WellFounded fun a b : {j | Relation.ReflTransGen next i j} => Relation.TransGen next b.1 a.1 := by
  have : Finite {j | Relation.ReflTransGen next i j} := hfin
  have : IsTrans {j | Relation.ReflTransGen next i j} fun a b => Relation.TransGen next b.1 a.1 :=
    ⟨fun _ _ _ hab hbc => hbc.trans hab⟩
  have : Std.Irrefl fun a b : {j | Relation.ReflTransGen next i j} => Relation.TransGen next b.1 a.1 :=
    ⟨fun a ha => hi ⟨a.1, a.2, ha⟩⟩
  exact Finite.wellFounded_of_trans_of_irrefl _

section DoWhile

variable {body : σ → Except JavaException σ} {cond : σ → Bool} {sits : σ → ι → Prop} {next : ι → ι → Prop}

/-- A round along the relation loses no outcome. -/
theorem halts_of_next {s s' : σ} (hb : body s = .ok s') (hc : cond s' = true)
    (h : Halts fun n => doWhile body cond n s') : Halts fun n => doWhile body cond n s := by
  obtain ⟨r, n, hn⟩ := h
  refine ⟨r, n + 1, ?_⟩
  simp only [doWhile_next hb hc]
  exact hn

/-- A loop on its way into a cycle uses up all its fuel. -/
theorem diverges_of_circles
    (hgo : ∀ s i j, sits s i → next i j → ∃ s', body s = .ok s' ∧ cond s' = true ∧ sits s' j) {s : σ} {i : ι}
    (hs : sits s i) (hi : Circles next i) : Diverges fun n => doWhile body cond n s := by
  intro n
  induction n generalizing s i with
  | zero => rfl
  | succ n ih =>
    obtain ⟨j, hij, hj⟩ := hi.next
    obtain ⟨s', hb, hc, hs'⟩ := hgo s i j hs hij
    simp only [doWhile_next hb hc]
    exact ih hs' hj

/-- **A loop over finitely many places ends iff it runs into no cycle.** -/
theorem doWhile_halts_iff
    (hgo : ∀ s i j, sits s i → next i j → ∃ s', body s = .ok s' ∧ cond s' = true ∧ sits s' j)
    (hstop : ∀ s i, sits s i → (∀ j, ¬ next i j) → Halts fun n => doWhile body cond n s) {s : σ} {i : ι}
    (hfin : {j | Relation.ReflTransGen next i j}.Finite) (hs : sits s i) :
    (Halts fun n => doWhile body cond n s) ↔ ¬ Circles next i := by
  constructor
  · rintro ⟨r, n, hn⟩ hi
    have hnone := diverges_of_circles hgo hs hi n
    rw [hnone] at hn
    cases hn
  · intro hi
    -- induction along the relation, which is well founded on the places reached from `i`
    have key : ∀ j : {j | Relation.ReflTransGen next i j}, ∀ s, sits s j.1 →
        Halts fun n => doWhile body cond n s := by
      intro j
      induction j using (wellFounded_reached hfin hi).induction with
      | h j ih =>
        intro s hs
        by_cases hlast : ∀ k, ¬ next j.1 k
        · exact hstop s j.1 hs hlast
        · push Not at hlast
          obtain ⟨k, hjk⟩ := hlast
          obtain ⟨s', hb, hc, hs'⟩ := hgo s j.1 k hs hjk
          exact halts_of_next hb hc (ih ⟨k, j.2.tail hjk⟩ (.single hjk) s' hs')
    exact key ⟨i, .refl⟩ s hs

/-- A loop that comes to a state its round gives back never ends. -/
theorem diverges_of_stuck {s t : σ} (hreach : Relation.ReflTransGen (Round body cond) s t)
    (hstuck : Round body cond t t) : Diverges fun n => doWhile body cond n s := by
  have hgo : ∀ s i j : σ, s = i → Round body cond i j → ∃ s', body s = .ok s' ∧ cond s' = true ∧ s' = j := by
    rintro s _ s' rfl h
    exact ⟨s', h.1, h.2, rfl⟩
  exact diverges_of_circles hgo rfl ⟨t, hreach, .single hstuck⟩

end DoWhile

/-! ## Loops over an array, piece by piece -/

section Pieces

variable {α : Type} {body : List α → σ × ℤ → Except JavaException (σ × ℤ)} {cut : ι → List α} {act : σ → ι → σ}
  {pieces : List ι} {rest : List α} {s : σ}

/-- `do … while (i < a.length)`: a round of the loop over `a` that is not the last one. -/
abbrev Over (body : List α → σ × ℤ → Except JavaException (σ × ℤ)) (a : List α) : σ × ℤ → σ × ℤ → Prop :=
  Round (body a) fun t => t.2 < a.length

/-- A round at the piece acts on it and moves to its end, whatever stands around it. -/
structure Takes (body : List α → σ × ℤ → Except JavaException (σ × ℤ)) (cut : ι → List α) (act : σ → ι → σ)
    (piece : ι) : Prop where
  nonempty : cut piece ≠ []
  round : ∀ (pre rest : List α) (s : σ), body (pre ++ cut piece ++ rest) (s, (pre.length : ℤ)) =
    .ok (act s piece, ((pre ++ cut piece).length : ℤ))

/-- The loop comes to what stands behind the pieces. -/
theorem comes_pieces (h : ∀ piece ∈ pieces, Takes body cut act piece) (hrest : rest ≠ []) (pre : List α) (s : σ) :
    Relation.ReflTransGen (Over body (pre ++ pieces.flatMap cut ++ rest)) (s, (pre.length : ℤ))
      (pieces.foldl act s, ((pre ++ pieces.flatMap cut).length : ℤ)) := by
  induction pieces generalizing pre s with
  | nil => simpa using Relation.ReflTransGen.refl
  | cons piece pieces ih =>
    rw [List.forall_mem_cons] at h
    have hpos := List.length_pos_of_ne_nil hrest
    have hround := h.1.round pre (pieces.flatMap cut ++ rest) s
    have hrest := ih h.2 (pre ++ cut piece) (act s piece)
    simp only [List.flatMap_cons, List.foldl_cons, List.append_assoc] at hround hrest ⊢
    refine hrest.head ⟨hround, ?_⟩
    simp only [List.length_append, decide_eq_true_eq]
    omega

/-- The loop over the pieces stands at the start of a piece, when it has acted on those before. -/
theorem comes_to_piece (h : ∀ piece ∈ pieces, Takes body cut act piece) (hne : pieces ≠ []) {t : σ × ℤ}
    (ht : Relation.ReflTransGen (Over body (pieces.flatMap cut)) (s, 0) t) :
    ∃ front piece back, pieces = front ++ piece :: back ∧
      t = (front.foldl act s, ((front.flatMap cut).length : ℤ)) := by
  induction ht with
  | refl =>
    obtain ⟨piece, back, rfl⟩ := List.exists_cons_of_ne_nil hne
    exact ⟨[], piece, back, rfl, rfl⟩
  | @tail t u _ hround ih =>
    obtain ⟨front, piece, back, hsplit, rfl⟩ := ih
    have htakes := h piece (by rw [hsplit]; simp)
    have hnext := htakes.round (front.flatMap cut) (back.flatMap cut) (front.foldl act s)
    have hall : pieces.flatMap cut = front.flatMap cut ++ cut piece ++ back.flatMap cut := by rw [hsplit]; simp
    obtain ⟨hbody, hin⟩ := hround
    rw [hall] at hbody
    obtain rfl := Except.ok.inj (hnext.symm.trans hbody)
    -- the loop goes on, so a piece follows
    have hback : back ≠ [] := by
      rintro rfl
      rw [hall] at hin
      simp at hin
    obtain ⟨piece', back', rfl⟩ := List.exists_cons_of_ne_nil hback
    exact ⟨front ++ [piece], piece', back', by rw [hsplit]; simp, by simp⟩

/-- **A loop over the pieces acts on all of them.** -/
theorem returns_pieces_iff (h : ∀ piece ∈ pieces, Takes body cut act piece) (hne : pieces ≠ []) {t : σ × ℤ} :
    Ends (fun n => doWhile (body (pieces.flatMap cut)) (fun t => t.2 < (pieces.flatMap cut).length) n (s, 0))
        (.ok t) ↔ t = (pieces.foldl act s, ((pieces.flatMap cut).length : ℤ)) := by
  rw [returns_iff]
  constructor
  · rintro ⟨u, hreach, hbody, hend⟩
    obtain ⟨front, piece, back, hsplit, rfl⟩ := comes_to_piece h hne hreach
    have hnext := (h piece (by rw [hsplit]; simp)).round (front.flatMap cut) (back.flatMap cut) (front.foldl act s)
    have hall : pieces.flatMap cut = front.flatMap cut ++ cut piece ++ back.flatMap cut := by rw [hsplit]; simp
    rw [hall] at hbody hend
    obtain rfl := Except.ok.inj (hnext.symm.trans hbody)
    -- the loop ends, so no piece follows
    have hback : back = [] := by
      by_contra hback
      obtain ⟨piece', back', rfl⟩ := List.exists_cons_of_ne_nil hback
      have hpos := List.length_pos_of_ne_nil (h piece' (by rw [hsplit]; simp)).nonempty
      simp only [List.flatMap_cons, List.length_append, decide_eq_false_iff_not] at hend
      omega
    subst hback
    rw [hsplit]
    simp
  · rintro rfl
    obtain ⟨front, piece, rfl⟩ : ∃ front piece, pieces = front ++ [piece] :=
      ⟨pieces.dropLast, pieces.getLast hne, (List.dropLast_append_getLast hne).symm⟩
    have hlast := h piece (by simp)
    have hfront : ∀ q ∈ front, Takes body cut act q := fun q hq => h q (by simp [hq])
    have hcomes := comes_pieces hfront hlast.nonempty [] s
    have hround := hlast.round (front.flatMap cut) [] (front.foldl act s)
    have hall : (front ++ [piece]).flatMap cut = front.flatMap cut ++ cut piece := by simp
    simp only [List.nil_append, List.length_nil, Nat.cast_zero, List.append_nil] at hcomes hround
    rw [hall, List.foldl_append]
    exact ⟨_, hcomes, hround, by simp⟩

end Pieces

end Fueled

end Jvm
