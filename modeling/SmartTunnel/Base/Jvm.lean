import Mathlib

/-!
# The parts of the JVM a byte-level program rests on

A `byte` is a `BitVec 8` and an `int` a `BitVec 32`; whether one is read signed or
unsigned is said where it is read. A `byte[]` is a list, a reference that may be
null an `Option`.

* `copyOfRange`, `ByteBuffer`: the array operations, with the exceptions they raise
  and the zeros they pad with.
* `Java σ`: methods of an object with state `σ`. A method that raises keeps what it
  had already written. `Keeps` and `Simulates` are the rules for invariants and for
  comparing two methods.
* `Fueled`, `doWhile`: loops that may not end. Running out of fuel is `none`, so a
  loop that never ends is one that is `none` for every fuel (`Diverges`).
-/

namespace Jvm

abbrev Byte := BitVec 8

abbrev Bytes := List Byte

inductive JavaException
  | nullPointer
  | arrayIndexOutOfBounds
  | indexOutOfBounds
  | illegalArgument
  | illegalState
  | numberFormat
  | bufferOverflow
  | ioException
  deriving DecidableEq, Repr

/-! ## Arrays -/

/-- Use of a reference. -/
def deref {α : Type} : Option α → Except JavaException α
  | none => .error .nullPointer
  | some a => .ok a

@[simp] theorem deref_some {α : Type} (a : α) : deref (some a) = .ok a := rfl

@[simp] theorem deref_none {α : Type} : deref (none : Option α) = .error .nullPointer := rfl

/-- `a[i]`. -/
def aget (a : Bytes) (i : ℤ) : Except JavaException Byte :=
  if i < 0 then .error .arrayIndexOutOfBounds
  else match a[i.toNat]? with
    | none => .error .arrayIndexOutOfBounds
    | some b => .ok b

/-- `Arrays.copyOfRange(a, i, j)`: past the end of `a` the copy is padded with zeros. -/
def copyOfRange (a : Bytes) (i j : ℤ) : Except JavaException Bytes :=
  if j < i then .error .illegalArgument
  else if i < 0 ∨ (a.length : ℤ) < i then .error .arrayIndexOutOfBounds
  else .ok ((a.drop i.toNat).takeD (j - i).toNat 0)

theorem aget_nat {a : Bytes} {i : ℕ} (h : i < a.length) : aget a i = .ok a[i] := by
  unfold aget
  rw [if_neg (by omega)]
  simp [List.getElem?_eq_getElem h]

theorem copyOfRange_pad {a : Bytes} {i j : ℕ} (hij : i ≤ j) (hi : i ≤ a.length) :
    copyOfRange a i j = .ok ((a.drop i).takeD (j - i) 0) := by
  unfold copyOfRange
  rw [if_neg (by omega), if_neg (by omega)]
  simp only [Int.toNat_natCast, Except.ok.injEq]
  congr 1; omega

/-- Within the array the copy is a slice. -/
theorem copyOfRange_slice {a : Bytes} {i j : ℕ} (hij : i ≤ j) (hj : j ≤ a.length) :
    copyOfRange a i j = .ok ((a.drop i).take (j - i)) := by
  rw [copyOfRange_pad hij (by omega), List.takeD_eq_take _ (by rw [List.length_drop]; omega)]

theorem copyOfRange_length {a b : Bytes} {i j : ℤ} (h : copyOfRange a i j = .ok b) : b.length = (j - i).toNat := by
  unfold copyOfRange at h
  split at h
  · cases h
  · split at h
    · cases h
    · rw [← Except.ok.inj h, List.takeD_length]

/-- A `java.nio.ByteBuffer` over its own array. -/
structure ByteBuffer where
  capacity : ℕ
  content : Bytes
  deriving DecidableEq, Repr

namespace ByteBuffer

/-- The capacity is an `int`: a sum of lengths past `2 ^ 31` has wrapped to a negative one. -/
def allocate (n : ℕ) : Except JavaException ByteBuffer :=
  let capacity := (BitVec.ofNat 32 n).toInt
  if capacity < 0 then .error .illegalArgument else .ok ⟨capacity.toNat, []⟩

def put (b : ByteBuffer) (bs : Option Bytes) : Except JavaException ByteBuffer :=
  match bs with
  | none => .error .nullPointer
  | some bs =>
    if b.capacity < b.content.length + bs.length then .error .bufferOverflow
    else .ok { b with content := b.content ++ bs }

theorem put_ok {b b' : ByteBuffer} {bs : Bytes} (h : b.put (some bs) = .ok b') :
    b' = ⟨b.capacity, b.content ++ bs⟩ ∧ b.content.length + bs.length ≤ b.capacity := by
  simp only [put] at h
  split at h
  · cases h
  · obtain rfl := Except.ok.inj h
    exact ⟨rfl, by omega⟩

/-- A run of `put` calls, first to last. -/
def putAll (b : ByteBuffer) (parts : List (Option Bytes)) : Except JavaException ByteBuffer :=
  parts.foldlM put b

/-- The backing array: what was not written is zero. -/
def array (b : ByteBuffer) : Bytes :=
  b.content ++ List.replicate (b.capacity - b.content.length) 0

theorem allocate_eq {n : ℕ} (h : n < 2 ^ 31) : allocate n = .ok ⟨n, []⟩ := by
  have hn : (BitVec.ofNat 32 n).toNat = n := by
    rw [BitVec.toNat_ofNat]; exact Nat.mod_eq_of_lt (by omega)
  have hi : (BitVec.ofNat 32 n).toInt = n := by
    rw [BitVec.toInt_eq_toNat_of_lt (by omega), hn]
  simp [allocate, hi]

/-- An allocated buffer is empty and no larger than was asked for. -/
theorem allocate_ok {n : ℕ} {b : ByteBuffer} (h : allocate n = .ok b) :
    b.content = [] ∧ b.capacity ≤ n ∧ b.capacity < 2 ^ 31 := by
  simp only [allocate] at h
  split at h
  · cases h
  · rename_i hc
    obtain rfl := Except.ok.inj h
    have hlt := (BitVec.ofNat 32 n).isLt
    have hm : (BitVec.ofNat 32 n).toNat ≤ n := by rw [BitVec.toNat_ofNat]; exact Nat.mod_le _ _
    have ht := BitVec.toInt_eq_toNat_cond (BitVec.ofNat 32 n)
    split at ht
    · refine ⟨rfl, ?_, ?_⟩ <;> simp only <;> omega
    · omega

theorem putAll_map_some {n : ℕ} (parts : List Bytes) (c : Bytes)
    (h : c.length + parts.flatten.length ≤ n) :
    putAll ⟨n, c⟩ (parts.map some) = .ok ⟨n, c ++ parts.flatten⟩ := by
  induction parts generalizing c with
  | nil => simp [putAll, pure, Except.pure]
  | cons p ps ih =>
    simp only [List.flatten_cons, List.length_append] at h
    have hp : put ⟨n, c⟩ (some p) = .ok ⟨n, c ++ p⟩ := by
      unfold put; simp only; rw [if_neg (by omega)]
    have := ih (c ++ p) (by rw [List.length_append]; omega)
    unfold putAll at this ⊢
    simp only [List.map_cons, List.foldlM_cons, hp]
    simpa [bind, Except.bind, List.append_assoc] using this

/-- Puts that all return wrote every part, and the parts fit. -/
theorem putAll_ok {b b' : ByteBuffer} {parts : List (Option Bytes)}
    (hb : b.content.length ≤ b.capacity) (h : putAll b parts = .ok b') :
    ∃ bs : List Bytes, parts = bs.map some ∧ b' = ⟨b.capacity, b.content ++ bs.flatten⟩ ∧
      b.content.length + bs.flatten.length ≤ b.capacity := by
  induction parts generalizing b with
  | nil =>
    simp only [putAll, List.foldlM_nil, pure, Except.pure, Except.ok.injEq] at h
    subst h
    exact ⟨[], rfl, by simp, by simpa using hb⟩
  | cons p ps ih =>
    simp only [putAll, List.foldlM_cons] at h
    cases p with
    | none => simp [put, bind, Except.bind] at h
    | some p =>
      by_cases hc : b.capacity < b.content.length + p.length
      · simp [put, hc, bind, Except.bind] at h
      · have hp : put b (some p) = .ok { b with content := b.content ++ p } := by
          unfold put; simp only; rw [if_neg hc]
        rw [hp] at h
        obtain ⟨bs, rfl, rfl, hl⟩ := ih (by simp; omega) h
        refine ⟨p :: bs, rfl, by simp [List.append_assoc], ?_⟩
        simp only [List.length_append, List.flatten_cons] at hl ⊢
        omega

theorem array_full {n : ℕ} {c : Bytes} (h : c.length = n) : (⟨n, c⟩ : ByteBuffer).array = c := by
  subst h; simp [array]

/-- `ByteBuffer.allocate(n).put(…)….array()`. -/
def layout (n : ℕ) (parts : List (Option Bytes)) : Except JavaException Bytes := do
  let buffer ← allocate n
  let buffer ← buffer.putAll parts
  return buffer.array

/-- Parts that fill the buffer are laid out one after the other. -/
theorem layout_full {n : ℕ} {parts : List Bytes} (h : parts.flatten.length = n) (hn : n < 2 ^ 31) :
    layout n (parts.map some) = .ok parts.flatten := by
  have hp := putAll_map_some (n := n) parts [] (by simp [h])
  simp only [layout, allocate_eq hn, bind, Except.bind, hp, pure, Except.pure, List.nil_append]
  rw [array_full h]

/-- **A layout of at least `n` bytes in a buffer of `n` that returns is full.** -/
theorem layout_ok {n : ℕ} {parts : List (Option Bytes)} {b : Bytes} (h : layout n parts = .ok b)
    (hlen : ∀ bs : List Bytes, parts = bs.map some → n ≤ bs.flatten.length) :
    ∃ bs : List Bytes, parts = bs.map some ∧ b = bs.flatten ∧ b.length = n ∧ n < 2 ^ 31 := by
  unfold layout at h
  rcases ha : allocate n with e | b₀
  · rw [ha] at h; cases h
  obtain ⟨hc, hle, hlt⟩ := allocate_ok ha
  rcases hp : b₀.putAll parts with e | b₁
  · rw [ha] at h; simp only [bind, Except.bind, hp] at h; cases h
  obtain ⟨bs, hbs, rfl, hfit⟩ := putAll_ok (by simp [hc]) hp
  have hn := hlen bs hbs
  rw [hc] at hfit
  simp only [List.length_nil, Nat.zero_add] at hfit
  have hcap : b₀.capacity = n := by omega
  rw [ha] at h
  simp only [bind, Except.bind, hp, pure, Except.pure, hc, List.nil_append] at h
  obtain rfl := Except.ok.inj h
  have hf : (⟨b₀.capacity, bs.flatten⟩ : ByteBuffer).array = bs.flatten := array_full (by omega)
  exact ⟨bs, hbs, hf, by rw [hf]; omega, by omega⟩

/-- Parts longer than the buffer overflow it. -/
theorem layout_overflow {n : ℕ} {parts : List Bytes} (h : n < parts.flatten.length) (b : Bytes) :
    layout n (parts.map some) ≠ .ok b := by
  intro hb
  obtain ⟨bs, hbs, rfl, hl, -⟩ := layout_ok hb (fun bs hbs => by
    rw [← List.map_injective_iff.2 (Option.some_injective _) hbs]; omega)
  rw [← List.map_injective_iff.2 (Option.some_injective _) hbs] at hl
  omega

end ByteBuffer

/-! ## Methods of an object -/

/-- A method of an object with state `σ`. -/
abbrev Java (σ α : Type) := ExceptT JavaException (StateM σ) α

namespace Java

variable {σ τ α β : Type}

/-- What a method returns or raises, and the object after it. -/
def exec (x : Java σ α) (s : σ) : Except JavaException α × σ := (ExceptT.run x).run s

/-- A computation on values only. -/
def lift (x : Except JavaException α) : Java σ α := ExceptT.mk (pure x)

/-- A method of the object held in a field. -/
def onField (get : τ → σ) (put : σ → τ → τ) (x : Java σ α) : Java τ α :=
  ExceptT.mk fun t => ((exec x (get t)).1, put (exec x (get t)).2 t)

theorem ext {x y : Java σ α} (h : ∀ s, exec x s = exec y s) : x = y := funext h

@[simp] theorem exec_pure (a : α) (s : σ) : exec (pure a : Java σ α) s = (.ok a, s) := rfl

theorem exec_bind (x : Java σ α) (f : α → Java σ β) (s : σ) :
    exec (x >>= f) s = match exec x s with
      | (.ok a, s') => exec (f a) s'
      | (.error e, s') => (.error e, s') := by
  simp only [exec, bind, ExceptT.bind, ExceptT.run, ExceptT.mk, StateT.bind, StateT.run]
  rcases hx : x s with ⟨r, s'⟩
  cases r <;> rfl

/-- A method that returned: its first part did, and its second from where that left off. -/
theorem exec_bind_ok {x : Java σ α} {f : α → Java σ β} {s s' : σ} {b : β} :
    exec (x >>= f) s = (.ok b, s') ↔
      ∃ a s₁, exec x s = (.ok a, s₁) ∧ exec (f a) s₁ = (.ok b, s') := by
  rw [exec_bind]
  rcases hx : exec x s with ⟨r, s₁⟩
  cases r with
  | error e => simp
  | ok a => simp

@[simp] theorem exec_lift (x : Except JavaException α) (s : σ) :
    exec (lift x : Java σ α) s = (x, s) := rfl

@[simp] theorem exec_get (s : σ) : exec (get : Java σ σ) s = (.ok s, s) := rfl

theorem exec_get_bind (f : σ → Java σ α) (s : σ) : exec (get >>= f) s = exec (f s) s := rfl

@[simp] theorem exec_modify (f : σ → σ) (s : σ) :
    exec (modify f : Java σ PUnit) s = (.ok ⟨⟩, f s) := rfl

@[simp] theorem exec_throw (e : JavaException) (s : σ) :
    exec (throw e : Java σ α) s = (.error e, s) := rfl

@[simp] theorem exec_onField (get : τ → σ) (put : σ → τ → τ) (x : Java σ α) (t : τ) :
    exec (onField get put x) t = ((exec x (get t)).1, put (exec x (get t)).2 t) := rfl

theorem exec_pure_ok {a b : α} {s s' : σ} :
    exec (pure a : Java σ α) s = (.ok b, s') ↔ b = a ∧ s' = s := by
  simp [eq_comm]

theorem exec_lift_ok {x : Except JavaException α} {a : α} {s s' : σ} :
    exec (lift x : Java σ α) s = (.ok a, s') ↔ x = .ok a ∧ s' = s := by
  simp [eq_comm]

theorem exec_get_ok {s s' t : σ} : exec (get : Java σ σ) s = (.ok t, s') ↔ t = s ∧ s' = s := by
  simp [eq_comm]

theorem exec_modify_ok {f : σ → σ} {s s' : σ} {u : PUnit} :
    exec (modify f : Java σ PUnit) s = (.ok u, s') ↔ s' = f s := by
  simp [eq_comm]

theorem exec_onField_ok {get : τ → σ} {put : σ → τ → τ} {x : Java σ α} {a : α} {t t' : τ} :
    exec (onField get put x) t = (.ok a, t') ↔ ∃ s, exec x (get t) = (.ok a, s) ∧ t' = put s t := by
  rw [exec_onField]
  rcases exec x (get t) with ⟨r, s⟩
  constructor
  · intro h
    simp only [Prod.mk.injEq] at h
    exact ⟨s, by rw [h.1], h.2.symm⟩
  · rintro ⟨s', h, rfl⟩
    simp only [Prod.mk.injEq] at h
    obtain ⟨rfl, rfl⟩ := h
    rfl

/-- A list of calls and one more. -/
theorem exec_mapM_concat {f : α → Java σ β} {l : List α} {a : α} {s s₁ s₂ : σ} {bs : List β} {b : β}
    (hl : exec (l.mapM f) s = (.ok bs, s₁)) (ha : exec (f a) s₁ = (.ok b, s₂)) :
    exec ((l ++ [a]).mapM f) s = (.ok (bs ++ [b]), s₂) := by
  rw [List.mapM_append, exec_bind_ok]
  refine ⟨bs, s₁, hl, ?_⟩
  rw [List.mapM_cons, List.mapM_nil]
  simp only [exec_bind, ha, exec_pure]

theorem exec_ite (c : Prop) [Decidable c] (x y : Java σ α) (s : σ) :
    exec (if c then x else y) s = if c then exec x s else exec y s := by
  split <;> rfl

/-- `x` keeps `I`, whether it returns or raises. -/
def Keeps (I : σ → Prop) (x : Java σ α) : Prop := ∀ s, I s → I (exec x s).2

section Keeps

variable {I : σ → Prop}

theorem Keeps.pure (a : α) : Keeps I (Pure.pure a : Java σ α) := fun _ h => h

theorem Keeps.lift (x : Except JavaException α) : Keeps I (Java.lift x : Java σ α) := fun _ h => h

theorem Keeps.get : Keeps I (MonadState.get : Java σ σ) := fun _ h => h

theorem Keeps.modify {f : σ → σ} (h : ∀ s, I s → I (f s)) : Keeps I (modify f : Java σ PUnit) := h

/-- What holds after the first part and is kept by the second. -/
theorem Keeps.after {x : Java σ α} {f : α → Java σ β} {s : σ} (hx : I (exec x s).2) (hf : ∀ a, Keeps I (f a)) :
    I (exec (x >>= f) s).2 := by
  rw [exec_bind]
  rcases hr : exec x s with ⟨r, s'⟩
  rw [hr] at hx
  cases r with
  | error e => exact hx
  | ok a => exact hf a s' hx

/-- What the first part keeps leads to `J`, whether it raises or the second part follows. -/
theorem Keeps.leads {J : σ → Prop} {x : Java σ α} {f : α → Java σ β} (hx : Keeps I x) (hraise : ∀ s, I s → J s)
    (hf : ∀ a s, I s → J (exec (f a) s).2) (s : σ) (hs : I s) : J (exec (x >>= f) s).2 := by
  have hmid := hx s hs
  rw [exec_bind]
  rcases hr : exec x s with ⟨r, s'⟩
  rw [hr] at hmid
  cases r with
  | error e => exact hraise s' hmid
  | ok a => exact hf a s' hmid

theorem Keeps.bind {x : Java σ α} {f : α → Java σ β} (hx : Keeps I x) (hf : ∀ a, Keeps I (f a)) :
    Keeps I (x >>= f) := by
  intro s hs
  exact Keeps.after (hx s hs) hf

theorem Keeps.ite {c : Prop} [Decidable c] {x y : Java σ α} (hx : Keeps I x) (hy : Keeps I y) :
    Keeps I (if c then x else y) := by
  split
  · exact hx
  · exact hy

end Keeps

/-- From `f s`, `y` does what `x` does from `s`: it raises what `x` raises, returns the image of what
`x` returns, and leaves the image of what `x` leaves. -/
def Simulates (f : σ → τ) (g : α → β) (x : Java σ α) (y : Java τ β) (s : σ) : Prop :=
  exec y (f s) = ((exec x s).1.map g, f (exec x s).2)

section Simulates

variable {γ δ : Type} {f : σ → τ} {g : α → β} {s : σ}

theorem Simulates.pure (f : σ → τ) (g : α → β) (a : α) (s : σ) :
    Simulates f g (Pure.pure a : Java σ α) (Pure.pure (g a) : Java τ β) s := rfl

theorem Simulates.lift {x : Except JavaException α} {y : Except JavaException β} (h : y = x.map g) (f : σ → τ)
    (s : σ) : Simulates f g (Java.lift x : Java σ α) (Java.lift y : Java τ β) s := by
  subst h
  rfl

theorem Simulates.get (f : σ → τ) (s : σ) :
    Simulates f f (MonadState.get : Java σ σ) (MonadState.get : Java τ τ) s := rfl

theorem Simulates.modify {m : σ → σ} {m' : τ → τ} (h : m' (f s) = f (m s)) :
    Simulates f id (modify m : Java σ PUnit) (modify m' : Java τ PUnit) s := by
  unfold Simulates
  rw [exec_modify, exec_modify, h]
  rfl

/-- **Simulations compose.** The second parts are compared where the first one left off. -/
theorem Simulates.bind {h : γ → δ} {x : Java σ α} {y : Java τ β} {x₂ : α → Java σ γ} {y₂ : β → Java τ δ}
    (hx : Simulates f g x y s) (h₂ : ∀ a s', exec x s = (.ok a, s') → Simulates f h (x₂ a) (y₂ (g a)) s') :
    Simulates f h (x >>= x₂) (y >>= y₂) s := by
  unfold Simulates at *
  rw [exec_bind, exec_bind, hx]
  rcases hr : exec x s with ⟨r, s'⟩
  cases r with
  | error e => rfl
  | ok a => exact h₂ a s' hr

theorem Simulates.ite {c c' : Prop} [Decidable c] [Decidable c'] {x₁ x₂ : Java σ α} {y₁ y₂ : Java τ β}
    (hc : c' ↔ c) (h₁ : c → Simulates f g x₁ y₁ s) (h₂ : ¬ c → Simulates f g x₂ y₂ s) :
    Simulates f g (if c then x₁ else x₂) (if c' then y₁ else y₂) s := by
  by_cases h : c
  · rw [if_pos h, if_pos (hc.2 h)]
    exact h₁ h
  · rw [if_neg h, if_neg fun h' => h (hc.1 h')]
    exact h₂ h

end Simulates

end Java

/-! ## Loops -/

/-- A computation that may run out of fuel (`none`), raise, or return. -/
abbrev Fueled (α : Type) := ExceptT JavaException Option α

namespace Fueled

variable {α β σ : Type}

def lift (x : Except JavaException α) : Fueled α := ExceptT.mk (some x)

/-- A family of computations, one for each fuel, has the outcome `r`. -/
def Ends (x : ℕ → Fueled α) (r : Except JavaException α) : Prop := ∃ n, ExceptT.run (x n) = some r

/-- No fuel is enough. -/
def Diverges (x : ℕ → Fueled α) : Prop := ∀ n, ExceptT.run (x n) = none

/-- `do { s = body(s) } while (cond(s))`, at most `n` rounds. -/
def doWhile (body : σ → Except JavaException σ) (cond : σ → Bool) : ℕ → σ → Fueled σ
  | 0, _ => ExceptT.mk none
  | n + 1, s => match body s with
    | .error e => lift (.error e)
    | .ok s' => if cond s' then doWhile body cond n s' else lift (.ok s')

@[simp] theorem run_lift (x : Except JavaException α) : ExceptT.run (lift x) = some x := rfl

theorem lift_ok_bind (a : α) (f : α → Fueled β) : (lift (.ok a) >>= f) = f a := rfl

theorem run_bind (x : Fueled α) (f : α → Fueled β) :
    ExceptT.run (x >>= f) = match ExceptT.run x with
      | none => none
      | some (.error e) => some (.error e)
      | some (.ok a) => ExceptT.run (f a) := by
  simp only [bind, ExceptT.bind, ExceptT.run, ExceptT.mk, Option.bind]
  rcases x with _ | (_ | _) <;> rfl

/-- A round that raises ends the loop. -/
theorem doWhile_error {body : σ → Except JavaException σ} {cond : σ → Bool} {s : σ}
    {e : JavaException} (h : body s = .error e) (n : ℕ) :
    ExceptT.run (doWhile body cond (n + 1) s) = some (.error e) := by
  simp [doWhile, h]

/-- The last round. -/
theorem doWhile_last {body : σ → Except JavaException σ} {cond : σ → Bool} {s s' : σ}
    (h : body s = .ok s') (hc : cond s' = false) (n : ℕ) :
    ExceptT.run (doWhile body cond (n + 1) s) = some (.ok s') := by
  simp [doWhile, h, hc]

/-- A round before the last. -/
theorem doWhile_next {body : σ → Except JavaException σ} {cond : σ → Bool} {s s' : σ}
    (h : body s = .ok s') (hc : cond s' = true) (n : ℕ) :
    doWhile body cond (n + 1) s = doWhile body cond n s' := by
  simp [doWhile, h, hc]

/-- **What every round keeps holds when the loop ends.** -/
theorem doWhile_invariant {body : σ → Except JavaException σ} {cond : σ → Bool} (I : σ → Prop)
    (hstep : ∀ s s', body s = .ok s' → I s → I s') :
    ∀ {n : ℕ} {s s' : σ}, I s → ExceptT.run (doWhile body cond n s) = some (.ok s') → I s' := by
  intro n
  induction n with
  | zero => intro s s' _ h; cases h
  | succ n ih =>
    intro s s' hs h
    cases hb : body s with
    | error e => rw [doWhile_error hb] at h; cases h
    | ok s₁ =>
      by_cases hc : cond s₁ = true
      · rw [doWhile_next hb hc] at h
        exact ih (hstep s s₁ hb hs) h
      · rw [doWhile_last hb (by simpa using hc)] at h
        cases h
        exact hstep s _ hb hs

end Fueled

end Jvm
