import SmartTunnel.Base.Jvm

/-!
# Texts of the JVM

A text is the list of its characters. `split` cuts a text at a character and drops the empty
pieces at its end; the texts that are cut into given pieces are these pieces with the character
between them, and any number of the character behind them (`split_eq_iff`). `parseInt` reads a
number with an optional sign, whose digits are those of any script. `format` is `String.format` without
arguments: most specifiers raise.
-/

namespace Jvm

/-! ## Numbers -/

/-- The first characters of the blocks of ten decimal digits that a `char` can hold. -/
def digitZeros : List ℕ :=
  [0x30, 0x660, 0x6F0, 0x7C0, 0x966, 0x9E6, 0xA66, 0xAE6, 0xB66, 0xBE6, 0xC66, 0xCE6, 0xD66, 0xDE6, 0xE50, 0xED0,
    0xF20, 0x1040, 0x1090, 0x17E0, 0x1810, 0x1946, 0x19D0, 0x1A80, 0x1A90, 0x1B50, 0x1BB0, 0x1C40, 0x1C50, 0xA620,
    0xA8D0, 0xA900, 0xA9D0, 0xA9F0, 0xAA50, 0xABF0, 0xFF10]

/-- The first characters of the blocks of Latin letters, the fullwidth ones included. -/
def letterAs : List ℕ := [0x41, 0x61, 0xFF21, 0xFF41]

/-- What a character counts for in a block that starts at one of `starts`. -/
def inBlock (starts : List ℕ) (size : ℕ) (c : Char) : Option ℕ :=
  (starts.find? fun start => start ≤ c.toNat ∧ c.toNat < start + size).map (c.toNat - ·)

/-- `Character.digit`. -/
def digit (c : Char) (radix : ℕ) : Option ℕ :=
  ((inBlock digitZeros 10 c).or ((inBlock letterAs 26 c).map (10 + ·))).filter (· < radix)

/-- The number that digits write. -/
def magnitude (radix : ℕ) (digits : List Char) : Option ℕ :=
  digits.foldlM (fun n c => (digit c radix).map (n * radix + ·)) 0

/-- The sign of a text, `true` for minus, and what is behind it. -/
def signed : List Char → Bool × List Char
  | '-' :: rest => (true, rest)
  | '+' :: rest => (false, rest)
  | s => (false, s)

/-- `Integer.parseInt`. -/
def parseInt (radix : ℕ) (s : List Char) : Except JavaException ℤ :=
  let (negative, digits) := signed s
  if digits = [] then .error .numberFormat
  else match magnitude radix digits with
    | none => .error .numberFormat
    | some n =>
      if negative then
        if n ≤ 2 ^ 31 then .ok (-n) else .error .numberFormat
      else
        if n < 2 ^ 31 then .ok n else .error .numberFormat

/-- A text that `parseInt` takes. -/
def IsInt (radix : ℕ) (s : List Char) : Prop := ∃ n, parseInt radix s = .ok n

instance (radix : ℕ) (s : List Char) : Decidable (IsInt radix s) :=
  match h : parseInt radix s with
  | .ok n => isTrue ⟨n, h⟩
  | .error _ => isFalse fun ⟨_, hn⟩ => by rw [h] at hn; cases hn

variable {radix : ℕ} {s digits : List Char}

theorem magnitude_concat (digits : List Char) (c : Char) : magnitude radix (digits ++ [c]) =
    (magnitude radix digits).bind fun n => (digit c radix).map (n * radix + ·) := by
  unfold magnitude
  rw [List.foldlM_append]
  simp only [List.foldlM_cons, List.foldlM_nil, bind_pure]
  rfl

/-- Digits write a number, and it has at most as many digits. -/
theorem magnitude_lt (h : ∀ c ∈ digits, (digit c radix).isSome) :
    ∃ n, magnitude radix digits = some n ∧ n < radix ^ digits.length := by
  -- the last digit is the one that is added last
  induction digits using List.reverseRecOn with
  | nil => exact ⟨0, rfl, by simp⟩
  | append_singleton digits c ih =>
    obtain ⟨n, hn, hlt⟩ := ih fun d hd => h d (by simp [hd])
    obtain ⟨d, hd⟩ := Option.isSome_iff_exists.1 (h c (by simp))
    have hdlt : d < radix := by
      unfold digit at hd
      simpa using (Option.filter_eq_some_iff.1 hd).2
    refine ⟨n * radix + d, by rw [magnitude_concat, hn]; simp [hd], ?_⟩
    rw [List.length_append, List.length_singleton, pow_succ]
    calc n * radix + d < n * radix + radix := by omega
      _ = (n + 1) * radix := by ring
      _ ≤ radix ^ digits.length * radix := Nat.mul_le_mul_right _ hlt

theorem isSome_of_magnitude {n : ℕ} (h : magnitude radix digits = some n) : ∀ c ∈ digits, (digit c radix).isSome := by
  induction digits using List.reverseRecOn generalizing n with
  | nil =>
    intro c hc
    cases hc
  | append_singleton digits d ih =>
    rw [magnitude_concat, Option.bind_eq_some_iff] at h
    obtain ⟨m, hm, hd⟩ := h
    obtain ⟨k, hk, -⟩ := Option.map_eq_some_iff.1 hd
    intro c hc
    rcases List.mem_append.1 hc with hc | hc
    · exact ih hm c hc
    · obtain rfl := List.mem_singleton.1 hc
      simp [hk]

theorem signed_cases (s : List Char) : (∃ rest, s = '-' :: rest ∧ signed s = (true, rest)) ∨
    (∃ rest, s = '+' :: rest ∧ signed s = (false, rest)) ∨ signed s = (false, s) := by
  unfold signed
  split
  · exact .inl ⟨_, rfl, rfl⟩
  · exact .inr (.inl ⟨_, rfl, rfl⟩)
  · exact .inr (.inr rfl)

theorem signed_of_not_mem (h : '-' ∉ s ∧ '+' ∉ s) : signed s = (false, s) := by
  rcases signed_cases s with ⟨rest, rfl, -⟩ | ⟨rest, rfl, -⟩ | heq
  · simp at h
  · simp at h
  · exact heq

/-- **What `parseInt` takes** is not empty, and made of digits and signs. -/
theorem IsInt.chars (h : IsInt radix s) : s ≠ [] ∧ ∀ c ∈ s, c = '-' ∨ c = '+' ∨ (digit c radix).isSome := by
  obtain ⟨n, hn⟩ := h
  have hdigits : (signed s).2 ≠ [] ∧ ∀ c ∈ (signed s).2, (digit c radix).isSome := by
    unfold parseInt at hn
    simp only at hn
    split at hn
    · cases hn
    · rename_i hne
      split at hn
      · cases hn
      · rename_i m hm
        exact ⟨hne, isSome_of_magnitude hm⟩
  -- only a sign in front need not be a digit
  rcases signed_cases s with ⟨rest, rfl, heq⟩ | ⟨rest, rfl, heq⟩ | heq
  · rw [heq] at hdigits
    exact ⟨by simp, by simpa using fun c hc => .inr (.inr (hdigits.2 c hc))⟩
  · rw [heq] at hdigits
    exact ⟨by simp, by simpa using fun c hc => .inr (.inr (hdigits.2 c hc))⟩
  · rw [heq] at hdigits
    exact ⟨hdigits.1, fun c hc => .inr (.inr (hdigits.2 c hc))⟩

/-- Digits without a sign that write a small number are taken. -/
theorem isInt_of_digits {n : ℕ} (hne : s ≠ []) (hsign : '-' ∉ s ∧ '+' ∉ s) (h : magnitude radix s = some n)
    (hn : n < 2 ^ 31) : IsInt radix s := by
  refine ⟨n, ?_⟩
  unfold parseInt
  rw [signed_of_not_mem hsign]
  simp only [hne, if_false, h, Bool.false_eq_true, if_pos hn]

/-! ## Cutting a text -/

/-- `String.split`, at a character: without it the text is the only piece; otherwise the empty pieces
at the end are dropped. -/
def split (separator : Char) (s : List Char) : List (List Char) :=
  if separator ∈ s then (s.splitOn separator).rdropWhile List.isEmpty else [s]

variable {separator : Char} {pieces : List (List Char)}

theorem intercalate_append {more : List (List Char)} (h : pieces ≠ []) (hmore : more ≠ []) :
    [separator].intercalate (pieces ++ more) =
      [separator].intercalate pieces ++ separator :: [separator].intercalate more := by
  induction pieces with
  | nil => exact absurd rfl h
  | cons p pieces ih =>
    cases pieces with
    | nil => simp [List.intercalate_cons_of_ne_nil hmore]
    | cons q pieces => simpa using ih (by simp)

/-- What stands in a joined text. -/
theorem of_mem_intercalate {c : Char} (hc : c ∈ [separator].intercalate pieces) : c = separator ∨ ∃ p ∈ pieces, c ∈ p := by
  induction pieces with
  | nil => cases hc
  | cons p pieces ih =>
    cases pieces with
    | nil => exact .inr ⟨p, by simp, by simpa using hc⟩
    | cons q pieces =>
      simp only [List.intercalate_cons_cons, List.mem_append, List.mem_singleton] at hc
      rcases hc with (hc | hc) | hc
      · exact .inr ⟨p, by simp, hc⟩
      · exact .inl hc
      · rcases ih hc with hc | ⟨r, hr, hc⟩
        · exact .inl hc
        · exact .inr ⟨r, List.mem_cons_of_mem _ hr, hc⟩

theorem mem_intercalate {c : Char} {p : List Char} (hp : p ∈ pieces) (hc : c ∈ p) :
    c ∈ [separator].intercalate pieces := by
  obtain ⟨front, back, rfl⟩ := List.append_of_mem hp
  cases front with
  | nil =>
    cases back with
    | nil => simpa using hc
    | cons q back => simp [hc]
  | cons q front =>
    rw [intercalate_append (by simp) (by simp)]
    cases back with
    | nil => simp [hc]
    | cons r back => simp [hc]

theorem separator_mem_intercalate (h : 2 ≤ pieces.length) : separator ∈ [separator].intercalate pieces := by
  match pieces, h with
  | p :: q :: pieces, _ => simp

/-- Empty pieces at the end are separators at the end. -/
theorem intercalate_append_empties (h : pieces ≠ []) (k : ℕ) :
    [separator].intercalate (pieces ++ List.replicate k []) =
      [separator].intercalate pieces ++ List.replicate k separator := by
  induction k with
  | zero => simp
  | succ k ih =>
    rw [List.replicate_succ', List.replicate_succ', ← List.append_assoc, intercalate_append (by simp [h]) (by simp), ih]
    simp

theorem splitOn_append_empties (h : pieces ≠ []) (hpieces : ∀ p ∈ pieces, separator ∉ p) (k : ℕ) :
    ([separator].intercalate pieces ++ List.replicate k separator).splitOn separator =
      pieces ++ List.replicate k [] := by
  -- the separators at the end join empty pieces
  rw [← intercalate_append_empties h]
  apply List.splitOn_intercalate
  · intro p hp
    rcases List.mem_append.1 hp with hp | hp
    · exact hpieces p hp
    · obtain rfl := List.eq_of_mem_replicate hp
      simp
  · simp [h]

theorem rdropWhile_empties (hpieces : ∀ p ∈ pieces, p ≠ []) (k : ℕ) :
    (pieces ++ List.replicate k []).rdropWhile List.isEmpty = pieces := by
  induction k with
  | zero =>
    rw [List.replicate_zero, List.append_nil, List.rdropWhile_eq_self_iff]
    intro hl
    simpa using hpieces _ (List.getLast_mem hl)
  | succ k ih =>
    rw [List.replicate_succ', ← List.append_assoc, List.rdropWhile_concat_pos _ _ _ (by simp), ih]

/-- What `rdropWhile` drops are empty pieces. -/
theorem exists_empties (l : List (List Char)) : ∃ k, l = l.rdropWhile List.isEmpty ++ List.replicate k [] := by
  refine ⟨(l.rtakeWhile List.isEmpty).length, ?_⟩
  have hall : l.rtakeWhile List.isEmpty = List.replicate (l.rtakeWhile List.isEmpty).length [] := by
    rw [List.eq_replicate_iff]
    exact ⟨rfl, fun p hp => by simpa using List.mem_rtakeWhile_imp hp⟩
  rw [← hall, List.rdropWhile_append_rtakeWhile]

/-- **The texts that are cut into non-empty pieces.** -/
theorem split_eq_iff (hne : pieces ≠ []) (hpieces : ∀ p ∈ pieces, p ≠ [] ∧ separator ∉ p) :
    split separator s = pieces ↔ ∃ k, s = [separator].intercalate pieces ++ List.replicate k separator := by
  unfold split
  constructor
  · intro h
    split at h
    · obtain ⟨k, hk⟩ := exists_empties (s.splitOn separator)
      rw [h] at hk
      refine ⟨k, ?_⟩
      rw [← intercalate_append_empties hne, ← hk, List.intercalate_splitOn]
    · exact ⟨0, by simp [← h]⟩
  · rintro ⟨k, rfl⟩
    have hcut := splitOn_append_empties hne (fun p hp => (hpieces p hp).2) k
    split
    · rw [hcut, rdropWhile_empties fun p hp => (hpieces p hp).1]
    · rename_i hnot
      rw [List.splitOn_eq_singleton hnot] at hcut
      -- one piece, and nothing behind it
      cases k with
      | zero => simpa using hcut
      | succ k => exact absurd (by simp) hnot

/-- **The texts that are cut into nothing** are the separators alone. -/
theorem split_eq_nil_iff : split separator s = [] ↔ ∃ k, s = List.replicate (k + 1) separator := by
  unfold split
  constructor
  · intro h
    split at h
    · obtain ⟨k, hk⟩ := exists_empties (s.splitOn separator)
      rw [h, List.nil_append] at hk
      have hs : s = [separator].intercalate (List.replicate k []) := by rw [← hk, List.intercalate_splitOn]
      cases k with
      | zero => simp at hk
      | succ k =>
        rw [List.replicate_succ, show [] :: List.replicate k ([] : List Char) = [[]] ++ List.replicate k [] from rfl,
          intercalate_append_empties (by simp)] at hs
        rw [List.intercalate_singleton, List.nil_append] at hs
        rename_i hmem
        cases k with
        | zero =>
          -- one empty piece has no separator
          rw [hs] at hmem
          simp at hmem
        | succ k => exact ⟨k, hs⟩
    · simp at h
  · rintro ⟨k, rfl⟩
    have hcut : ([separator].intercalate [[]] ++ List.replicate (k + 1) separator).splitOn separator = _ :=
      splitOn_append_empties (by simp) (by simp) (k + 1)
    rw [List.intercalate_singleton, List.nil_append] at hcut
    rw [if_pos (by simp), hcut, List.rdropWhile_eq_nil_iff]
    intro p hp
    simp only [List.singleton_append, List.mem_cons, List.mem_replicate] at hp
    rcases hp with rfl | ⟨-, rfl⟩ <;> rfl

/-! ## Formats without arguments -/

/-- A format specifier, behind its percent sign. -/
structure Specifier where
  flags : List Char
  width : List Char
  precision : Bool
  conversion : Char
  deriving DecidableEq, Repr

/-- The specifier at the start of a text, and what is behind it: an index, flags, a width, a precision and the
conversion. -/
def readSpecifier (s : List Char) : Option (Specifier × List Char) :=
  let (index, rest) := s.span Char.isDigit
  let s := match index, rest with
    | _ :: _, '$' :: rest => rest
    | _, _ => s
  let (flags, s) := s.span fun c => c ∈ ['-', '#', '+', ' ', '0', ',', '(', '<']
  let (width, s) := s.span Char.isDigit
  match s with
  | '.' :: s =>
    match s.span Char.isDigit with
    | (_ :: _, conversion :: s) => some (⟨flags, width, true, conversion⟩, s)
    | _ => none
  | conversion :: s => some (⟨flags, width, false, conversion⟩, s)
  | [] => none

/-- What a specifier writes: `%%` a percent sign, padded to its width, and `%n` a line break. The others want an
argument. -/
def Specifier.text (spec : Specifier) : Except JavaException (List Char) :=
  let width := (String.ofList spec.width).toNat?.getD 0
  if spec.precision then .error .illegalArgument
  else if spec.conversion = '%' ∧ spec.flags = [] then .ok (List.replicate (width - 1) ' ' ++ ['%'])
  else if spec.conversion = '%' ∧ spec.flags = ['-'] ∧ spec.width ≠ [] then .ok ('%' :: List.replicate (width - 1) ' ')
  else if spec.conversion = 'n' ∧ spec.flags = [] ∧ spec.width = [] then .ok ['\n']
  else .error .illegalArgument

/-- `format` on a text of at most `n` characters. -/
def formatUpTo : ℕ → List Char → Except JavaException (List Char)
  | 0, s => .ok s
  | _, [] => .ok []
  | n + 1, '%' :: s =>
    match readSpecifier s with
    | none => .error .illegalArgument
    | some (spec, rest) => do return (← spec.text) ++ (← formatUpTo n rest)
  | n + 1, c :: s => do return c :: (← formatUpTo n s)

/-- `String.format(s)`. -/
def format (s : String) : Except JavaException String := do
  return String.ofList (← formatUpTo s.length s.toList)

end Jvm
