import SmartTunnel.Base.Jvm

/-!
# Input streams that return their bytes in pieces

`read n` returns what is there of the next piece, at most `n` bytes, so where a stream is cut
decides what a single call returns. `read_exec`: a call takes some `k` bytes off the content
and shifts the cuts by `k`; it takes all of `n` exactly if no cut lies inside them
(`CutIn`). A loop of calls up to the end takes everything (`readAll_exec`).
-/

namespace Jvm

/-- What is still to come of an `InputStream`: non-empty pieces, then the end of the stream or
an `IOException`. -/
structure InputStream where
  pieces : List Bytes
  nonempty : ∀ p ∈ pieces, p ≠ []
  fails : Bool := false
  deriving DecidableEq, Repr

namespace InputStream

def content (s : InputStream) : Bytes := s.pieces.flatten

/-- The stream after `n` bytes of its first piece. -/
def advance (n : ℕ) (s : InputStream) : InputStream where
  pieces := match s.pieces with
    | [] => []
    | p :: ps => if p.length ≤ n then ps else p.drop n :: ps
  nonempty := by
    intro q hq
    rcases hs : s.pieces with _ | ⟨p, ps⟩
    · rw [hs] at hq
      cases hq
    · have hne := s.nonempty
      rw [hs] at hq hne
      simp only at hq
      split_ifs at hq with hle
      · exact hne q (List.mem_cons_of_mem _ hq)
      · rcases List.mem_cons.1 hq with rfl | hq
        · intro hnil
          exact hle (List.drop_eq_nil_iff.1 hnil)
        · exact hne q (List.mem_cons_of_mem _ hq)
  fails := s.fails

/-- `read(byte[])` for an array of `n` bytes: what it put into the array, or `none` for `-1`. -/
def read (n : ℕ) : Java InputStream (Option Bytes) := do
  if n = 0 then return some []
  else match (← get).pieces with
    | [] => if (← get).fails then throw .ioException else return none
    | p :: _ =>
      modify (advance n)
      return some (p.take n)

/-- `read(byte[])` into a fresh array of `n` bytes: the array after the call. -/
def fill (n : ℕ) : Java InputStream Bytes := do
  let bytes := (← read n).getD []
  return bytes ++ List.replicate (n - bytes.length) 0

/-- `read() & 0xFF`: the next byte, 255 at the end of the stream. -/
def readMasked : Java InputStream ℕ := do
  match ← read 1 with
  | some (b :: _) => return b.toNat
  | _ => return 255

/-- `while ((len = read(buffer)) != -1) out.write(buffer, 0, len)`, for at most `fuel` rounds. -/
def readAll (n : ℕ) : ℕ → Java InputStream Bytes
  | 0 => return []
  | fuel + 1 => do
    match ← read n with
    | none => return []
    | some bytes => return bytes ++ (← readAll n fuel)

/-- A cut between two pieces lies strictly between the positions `a` and `b`. -/
def CutIn (a b : ℕ) (s : InputStream) : Prop :=
  ∃ i, a < (s.pieces.take i).flatten.length ∧ (s.pieces.take i).flatten.length < b

variable {s : InputStream} {n a b : ℕ}

@[simp] theorem advance_fails (n : ℕ) (s : InputStream) : (s.advance n).fails = s.fails := rfl

/-- How many bytes a call takes. -/
def taken (n : ℕ) (s : InputStream) : ℕ := min n (s.pieces.headD []).length

theorem taken_le (n : ℕ) (s : InputStream) : s.taken n ≤ n := Nat.min_le_left _ _

theorem taken_pos (hn : 0 < n) (hs : s.content ≠ []) : 0 < s.taken n := by
  rcases hp : s.pieces with _ | ⟨p, ps⟩
  · rw [content, hp] at hs
    exact absurd rfl hs
  · have hne : p ≠ [] := s.nonempty p (by rw [hp]; exact List.mem_cons_self)
    simp only [taken, hp, List.headD_cons]
    exact lt_min hn (List.length_pos_iff.2 hne)

theorem content_advance (n : ℕ) (s : InputStream) : (s.advance n).content = s.content.drop (s.taken n) := by
  rcases hp : s.pieces with _ | ⟨p, ps⟩
  · simp [content, advance, taken, hp]
  · simp only [content, advance, taken, hp, List.headD_cons, List.flatten_cons]
    split_ifs with hle
    · rw [min_eq_right hle, List.drop_left]
    · rw [min_eq_left (Nat.le_of_not_le hle), List.drop_append_of_le_length (Nat.le_of_not_le hle)]
      rfl

theorem take_taken (n : ℕ) (s : InputStream) : s.content.take (s.taken n) = (s.pieces.headD []).take n := by
  rcases hp : s.pieces with _ | ⟨p, ps⟩
  · simp [content, hp]
  · simp only [content, taken, hp, List.headD_cons, List.flatten_cons]
    rw [List.take_append_of_le_length (Nat.min_le_right _ _), List.take_eq_take_iff]
    omega

/-- **A call on a stream that has bytes left takes `taken n` of them.** -/
theorem read_exec (hn : 0 < n) (hs : s.content ≠ []) :
    Java.exec (read n) s = (.ok (some (s.content.take (s.taken n))), s.advance n) := by
  rw [take_taken]
  rcases hp : s.pieces with _ | ⟨p, ps⟩
  · rw [content, hp] at hs
    exact absurd rfl hs
  · simp only [read, if_neg (by omega : ¬ n = 0), Java.exec_bind, Java.exec_get, hp]
    rfl

theorem read_exec_nil (hn : 0 < n) (hs : s.content = []) :
    Java.exec (read n) s = (if s.fails then .error .ioException else .ok none, s) := by
  rcases hp : s.pieces with _ | ⟨p, ps⟩
  · simp only [read, if_neg (by omega : ¬ n = 0), Java.exec_bind, Java.exec_get, hp, Java.exec_ite,
      Java.exec_throw, Java.exec_pure]
    split_ifs <;> rfl
  · have hne : p ≠ [] := s.nonempty p (by rw [hp]; exact List.mem_cons_self)
    rw [content, hp, List.flatten_cons, List.append_eq_nil_iff] at hs
    exact absurd hs.1 hne

/-- A call takes all of `n` exactly if no cut lies inside. -/
theorem taken_eq_iff (hn : 0 < n) (hle : n ≤ s.content.length) : s.taken n = n ↔ ¬ CutIn 0 n s := by
  rcases hp : s.pieces with _ | ⟨p, ps⟩
  · rw [content, hp] at hle
    exact absurd hle (by simp; omega)
  · have hne : p ≠ [] := s.nonempty p (by rw [hp]; exact List.mem_cons_self)
    have hpos := List.length_pos_iff.2 hne
    simp only [taken, CutIn, hp, List.headD_cons]
    constructor
    · rintro htaken ⟨i, hpos', hlt⟩
      cases i with
      | zero => simp at hpos'
      | succ i =>
        rw [List.take_succ_cons, List.flatten_cons, List.length_append] at hlt
        omega
    · intro hno
      by_contra hshort
      exact hno ⟨1, by simpa using hpos, by simp; omega⟩

/-- A call shifts the cuts. -/
theorem cutIn_advance (a b n : ℕ) (s : InputStream) :
    CutIn a b (s.advance n) ↔ CutIn (a + s.taken n) (b + s.taken n) s := by
  rcases hp : s.pieces with _ | ⟨p, ps⟩
  · simp [CutIn, advance, taken, hp]
  · simp only [CutIn, advance, taken, hp, List.headD_cons]
    split_ifs with hle
    · rw [min_eq_right hle]
      constructor
      · rintro ⟨i, h1, h2⟩
        refine ⟨i + 1, ?_, ?_⟩ <;> rw [List.take_succ_cons, List.flatten_cons, List.length_append] <;> omega
      · rintro ⟨i, h1, h2⟩
        cases i with
        | zero => simp at h1
        | succ i =>
          rw [List.take_succ_cons, List.flatten_cons, List.length_append] at h1 h2
          exact ⟨i, by omega, by omega⟩
    · rw [min_eq_left (by omega)]
      constructor
      · rintro ⟨i, h1, h2⟩
        cases i with
        | zero => simp at h1
        | succ i =>
          rw [List.take_succ_cons, List.flatten_cons, List.length_append, List.length_drop] at h1 h2
          refine ⟨i + 1, ?_, ?_⟩ <;> rw [List.take_succ_cons, List.flatten_cons, List.length_append] <;> omega
      · rintro ⟨i, h1, h2⟩
        cases i with
        | zero => simp at h1
        | succ i =>
          rw [List.take_succ_cons, List.flatten_cons, List.length_append] at h1 h2
          refine ⟨i + 1, ?_, ?_⟩ <;>
            rw [List.take_succ_cons, List.flatten_cons, List.length_append, List.length_drop] <;> omega

theorem taken_le_length (n : ℕ) (s : InputStream) : s.taken n ≤ s.content.length := by
  rcases hp : s.pieces with _ | ⟨p, ps⟩
  · simp [taken, hp]
  · simp only [taken, content, hp, List.headD_cons, List.flatten_cons, List.length_append]
    omega

@[simp] theorem length_take_taken (n : ℕ) (s : InputStream) : (s.content.take (s.taken n)).length = s.taken n := by
  rw [List.length_take, min_eq_left (taken_le_length n s)]

theorem advance_zero (s : InputStream) : s.advance 0 = s := by
  obtain ⟨pieces, hne, fails⟩ := s
  rcases pieces with _ | ⟨p, ps⟩
  · rfl
  · have hp : ¬ p.length ≤ 0 := by
      have := List.length_pos_iff.2 (hne p List.mem_cons_self)
      omega
    simp only [advance, if_neg hp, List.drop_zero]

/-- The array after a call. -/
theorem fill_exec (hs : n = 0 ∨ s.content ≠ []) :
    Java.exec (fill n) s =
      (.ok (s.content.take (s.taken n) ++ List.replicate (n - s.taken n) 0), s.advance n) := by
  simp only [fill, Java.exec_bind]
  by_cases hn : n = 0
  · subst hn
    have hzero : s.taken 0 = 0 := Nat.zero_min _
    simp only [read, if_true, Java.exec_pure, Option.getD_some, List.nil_append, List.length_nil, hzero,
      List.take_zero, advance_zero]
  · rw [read_exec (Nat.pos_of_ne_zero hn) (hs.resolve_left hn)]
    simp only [Java.exec_pure, Option.getD_some, length_take_taken]

theorem fill_exec_nil (hn : 0 < n) (hs : s.content = []) :
    Java.exec (fill n) s = (if s.fails then .error .ioException else .ok (List.replicate n 0), s) := by
  simp only [fill, Java.exec_bind, read_exec_nil hn hs]
  by_cases hf : s.fails = true
  · simp only [hf, if_true]
  · simp only [hf, if_false, Bool.false_eq_true, Java.exec_pure, Option.getD_none, List.nil_append,
      List.length_nil, Nat.sub_zero]

theorem taken_one (hs : s.content ≠ []) : s.taken 1 = 1 := by
  have h1 := taken_pos (by omega : 0 < 1) hs
  have h2 := taken_le 1 s
  omega

theorem readMasked_exec {b : Byte} {c : Bytes} (hs : s.content = b :: c) :
    Java.exec readMasked s = (.ok b.toNat, s.advance 1) := by
  have hne : s.content ≠ [] := by
    rw [hs]
    exact List.cons_ne_nil _ _
  simp only [readMasked, Java.exec_bind, read_exec (by omega : 0 < 1) hne, taken_one hne, hs]
  rfl

theorem readMasked_exec_nil (hs : s.content = []) :
    Java.exec readMasked s = (if s.fails then .error .ioException else .ok 255, s) := by
  simp only [readMasked, Java.exec_bind, read_exec_nil (by omega : 0 < 1) hs]
  by_cases hf : s.fails = true
  · simp only [hf, if_true]
  · simp only [hf, if_false, Bool.false_eq_true, Java.exec_pure]

/-- **Up to the end of the stream the loop takes everything.** -/
theorem readAll_exec (hn : 0 < n) {fuel : ℕ} (hfuel : s.content.length < fuel) :
    ∃ s', Java.exec (readAll n fuel) s = (if s.fails then .error .ioException else .ok s.content, s') := by
  induction fuel generalizing s with
  | zero => omega
  | succ fuel ih =>
    simp only [readAll, Java.exec_bind]
    by_cases hs : s.content = []
    · rw [read_exec_nil hn hs]
      refine ⟨s, ?_⟩
      by_cases hf : s.fails = true
      · simp only [hf, if_true]
      · simp only [hf, if_false, Bool.false_eq_true, Java.exec_pure, hs]
    · rw [read_exec hn hs]
      have hpos := taken_pos hn hs
      have hlen : 0 < s.content.length := List.length_pos_iff.2 hs
      obtain ⟨s', hs'⟩ := ih (s := s.advance n) (by rw [content_advance, List.length_drop]; omega)
      refine ⟨s', ?_⟩
      simp only [Java.exec_bind, hs', advance_fails]
      by_cases hf : s.fails = true
      · simp only [hf, if_true]
      · simp only [hf, if_false, Bool.false_eq_true, Java.exec_pure, content_advance, List.take_append_drop]

end InputStream

end Jvm
