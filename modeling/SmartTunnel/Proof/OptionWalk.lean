import SmartTunnel.Base.Halting
import SmartTunnel.Model.TCP

/-!
# The option walk of `TCPOption.fromByte`

A round of the loop moves by the length of the option it stands at, a signed number, if that
option is `Readable`, and raises if it is not (`fromByteRound_readable`,
`fromByteRound_unreadable`).

`Options P area`: the bytes of `area` are a well-formed option list whose options have
kinds in `P`. On such an area a round of the loop moves to the next option when the
`switch` names its kind, and stays where it is when it does not:

* `fromByte_ends`: with known kinds only, the walk ends.
* `fromByte_diverges`: with an unknown kind, it never does.
-/

namespace SmartTunnel

open Jvm

/-- The byte at `i`; past the end a zero is read. -/
def byteAt (p : Bytes) (i : ℕ) : Byte := p.getD i 0

theorem aget_byteAt {p : Bytes} {i : ℕ} (h : i < p.length) : aget p i = .ok (byteAt p i) := by
  rw [aget_nat h]
  simp [byteAt, List.getD_eq_getElem?_getD, h]

namespace TCPOption

/-! ## A round -/

/-- The kinds with a value that the `switch` of `fromByte` names. -/
def Known (kind : Byte) : Prop :=
  kind = KIND_MSS ∨ kind = KIND_WS ∨ kind = KIND_SAP ∨ kind = KIND_SA ∨ kind = KIND_TS

instance (kind : Byte) : Decidable (Known kind) := inferInstanceAs (Decidable (_ ∨ _))

/-- What a round adds to its index at the option at `i`. -/
def optionLength (area : Bytes) (i : ℕ) : ℤ :=
  if byteAt area i = KIND_EOL ∨ byteAt area i = KIND_NO then 1
  else if Known (byteAt area i) then (byteAt area (i + 1)).toInt
  else 0

/-- The option at `i` can be read: its length byte is there, a value that is copied starts
behind it, and the last byte of a window scale is in the area. -/
structure Readable (area : Bytes) (i : ℕ) : Prop where
  length_inside : Known (byteAt area i) → i + 1 < area.length
  value : byteAt area i = KIND_MSS ∨ byteAt area i = KIND_SA ∨ byteAt area i = KIND_TS →
    2 ≤ optionLength area i
  scale : byteAt area i = KIND_WS → 1 ≤ i + optionLength area i ∧ i + optionLength area i ≤ area.length

section Round

variable {area : Bytes} {i : ℕ}

/-- `Arrays.copyOfRange(option, i + 2, i + optionLength)`. -/
theorem copyOfRange_value (hi : i + 1 < area.length) (l : ℤ) :
    (2 ≤ l → ∃ v, copyOfRange area (i + 2) (i + l) = .ok v) ∧
      (l < 2 → ∃ e, copyOfRange area (i + 2) (i + l) = .error e) := by
  unfold copyOfRange
  constructor
  · intro h
    rw [if_neg (by omega), if_neg (by omega)]
    exact ⟨_, rfl⟩
  · intro h
    rw [if_pos (by omega)]
    exact ⟨_, rfl⟩

theorem aget_error {a : Bytes} {k : ℤ} (h : k < 0 ∨ a.length ≤ k) : ∃ e, aget a k = .error e := by
  unfold aget
  by_cases hk : k < 0
  · exact ⟨_, if_pos hk⟩
  · rw [if_neg hk, List.getElem?_eq_none (by omega)]
    exact ⟨_, rfl⟩

theorem aget_ok {a : Bytes} {k : ℤ} (h0 : 0 ≤ k) (h : k < a.length) : ∃ b, aget a k = .ok b := by
  obtain ⟨n, rfl⟩ := Int.eq_ofNat_of_zero_le h0
  exact ⟨_, aget_nat (by omega)⟩

theorem optionLength_known (hk : Known (byteAt area i)) :
    optionLength area i = (byteAt area (i + 1)).toInt := by
  unfold optionLength
  rw [if_neg (by rcases hk with h | h | h | h | h <;> rw [h] <;> decide), if_pos hk]

/-- **A round at an option that can be read moves by its length.** -/
theorem fromByteRound_readable (op : TCPOption) (hi : i < area.length) (h : Readable area i) :
    ∃ op', fromByteRound area (op, (i : ℤ)) = .ok (op', i + optionLength area i) := by
  obtain ⟨hin, hvalue, hscale⟩ := h
  have hkind := aget_byteAt hi
  simp only [fromByteRound, hkind, bind, Except.bind, pure, Except.pure]
  by_cases hk : Known (byteAt area i)
  · have hlength := aget_byteAt (hin hk)
    push_cast at hlength
    rw [optionLength_known hk] at hvalue hscale ⊢
    have hcopy := (copyOfRange_value (hin hk) (byteAt area (i + 1)).toInt).1
    rw [hlength]
    rcases hk with hk | hk | hk | hk | hk
    · obtain ⟨v, hv⟩ := hcopy (hvalue (.inl hk))
      simp only [hk, hv]
      exact ⟨_, rfl⟩
    · obtain ⟨hpos, hend⟩ := hscale hk
      obtain ⟨b, hb⟩ := aget_ok (a := area) (k := i + (byteAt area (i + 1)).toInt - 1) (by omega) (by omega)
      simp only [hk, hb]
      exact ⟨_, rfl⟩
    · simp only [hk]
      exact ⟨_, rfl⟩
    · obtain ⟨v, hv⟩ := hcopy (hvalue (.inr (.inl hk)))
      simp only [hk, hv]
      exact ⟨_, rfl⟩
    · obtain ⟨v, hv⟩ := hcopy (hvalue (.inr (.inr hk)))
      simp only [hk, hv]
      exact ⟨_, rfl⟩
  · unfold optionLength
    rw [if_neg hk]
    unfold Known at hk
    push Not at hk
    obtain ⟨h2, h3, h4, h5, h8⟩ := hk
    by_cases h0 : byteAt area i = KIND_EOL
    · exact ⟨op, by rw [if_pos h0, if_pos (.inl h0)]⟩
    by_cases h1 : byteAt area i = KIND_NO
    · exact ⟨op, by rw [if_neg h0, if_pos h1, if_pos (.inr h1)]⟩
    refine ⟨op, ?_⟩
    rw [if_neg h0, if_neg h1, if_neg h2, if_neg h3, if_neg h4, if_neg h5, if_neg h8, if_neg (by tauto)]

/-- Any other option raises. -/
theorem fromByteRound_unreadable (op : TCPOption) (hi : i < area.length) (h : ¬ Readable area i) :
    ∃ e, fromByteRound area (op, (i : ℤ)) = .error e := by
  have hkind := aget_byteAt hi
  simp only [fromByteRound, hkind, bind, Except.bind, pure, Except.pure]
  -- a kind without a length byte can always be read
  have hk : Known (byteAt area i) := by
    by_contra hk
    refine h ⟨fun h => absurd h hk, ?_, fun h => absurd (.inr (.inl h)) hk⟩
    rintro (h | h | h)
    · exact absurd (.inl h) hk
    · exact absurd (.inr (.inr (.inr (.inl h)))) hk
    · exact absurd (.inr (.inr (.inr (.inr h)))) hk
  by_cases hin : i + 1 < area.length
  · have hlength := aget_byteAt hin
    push_cast at hlength
    have hcopy := (copyOfRange_value hin (byteAt area (i + 1)).toInt).2
    have hl := optionLength_known hk
    rw [hlength]
    -- the value of an option that is copied starts behind the option
    have hvalue : byteAt area i = KIND_MSS ∨ byteAt area i = KIND_SA ∨ byteAt area i = KIND_TS →
        (byteAt area (i + 1)).toInt < 2 := by
      intro hv
      by_contra hge
      refine h ⟨fun _ => hin, fun _ => by omega, fun hs => ?_⟩
      rw [hs] at hv
      exact absurd hv (by decide)
    rcases hk with hk | hk | hk | hk | hk
    · obtain ⟨e, he⟩ := hcopy (hvalue (.inl hk))
      simp only [hk, he]
      exact ⟨_, rfl⟩
    · have hout : ¬ (1 ≤ i + optionLength area i ∧ i + optionLength area i ≤ area.length) := by
        intro hs
        refine h ⟨fun _ => hin, fun hv => ?_, fun _ => hs⟩
        rw [hk] at hv
        exact absurd hv (by decide)
      obtain ⟨e, he⟩ := aget_error (a := area) (k := i + (byteAt area (i + 1)).toInt - 1) (by omega)
      simp only [hk, he]
      exact ⟨_, rfl⟩
    · refine absurd ⟨fun _ => hin, fun hv => ?_, fun hs => ?_⟩ h
      · rw [hk] at hv
        exact absurd hv (by decide)
      · rw [hk] at hs
        exact absurd hs (by decide)
    · obtain ⟨e, he⟩ := hcopy (hvalue (.inr (.inl hk)))
      simp only [hk, he]
      exact ⟨_, rfl⟩
    · obtain ⟨e, he⟩ := hcopy (hvalue (.inr (.inr hk)))
      simp only [hk, he]
      exact ⟨_, rfl⟩
  · obtain ⟨e, he⟩ := aget_error (a := area) (k := i + 1) (by omega)
    rw [he]
    rcases hk with hk | hk | hk | hk | hk <;> rw [hk] <;> exact ⟨_, rfl⟩

/-- Outside the area no option can be read. -/
theorem fromByteRound_outside (area : Bytes) (op : TCPOption) {k : ℤ} (hk : k < 0 ∨ area.length ≤ k) :
    ∃ e, fromByteRound area (op, k) = .error e := by
  obtain ⟨e, he⟩ := aget_error (a := area) hk
  simp only [fromByteRound, he, bind, Except.bind]
  exact ⟨_, rfl⟩

/-- **A round that returns** has read an option and moves on by its length. -/
theorem fromByteRound_ok {op op' : TCPOption} {k k' : ℤ} (h : fromByteRound area (op, k) = .ok (op', k')) :
    ∃ i : ℕ, k = i ∧ i < area.length ∧ Readable area i ∧ k' = i + optionLength area i := by
  by_cases hk : k < 0 ∨ area.length ≤ k
  · obtain ⟨e, he⟩ := fromByteRound_outside area op hk
    rw [he] at h
    cases h
  · obtain ⟨i, rfl⟩ := Int.eq_ofNat_of_zero_le (show 0 ≤ k by omega)
    have hi : i < area.length := by omega
    by_cases hread : Readable area i
    · obtain ⟨op₁, hround⟩ := fromByteRound_readable op hi hread
      rw [hround] at h
      simp only [Except.ok.injEq, Prod.mk.injEq] at h
      exact ⟨i, rfl, hi, hread, h.2.symm⟩
    · obtain ⟨e, he⟩ := fromByteRound_unreadable op hi hread
      rw [he] at h
      cases h

end Round

/-! ## Well-formed areas -/

/-- A well-formed option area: no-operations and options with kinds in `P`, up to the end
of the area or to an end-of-list byte followed by zero padding. -/
inductive Options (P : Byte → Prop) : Bytes → Prop
  | nil : Options P []
  | eol (n : ℕ) : Options P (KIND_EOL :: List.replicate n 0)
  | nop {rest : Bytes} : Options P rest → Options P (KIND_NO :: rest)
  | option {kind length : Byte} {value rest : Bytes} : kind ≠ KIND_EOL → kind ≠ KIND_NO → P kind →
      length.toNat = value.length + 2 → Options P rest → Options P (kind :: length :: (value ++ rest))

/-- Every byte array is its prefix up to `i` and what follows. -/
theorem aget_append {pre rest : Bytes} {b : Byte} {i : ℤ} (hi : i = pre.length) :
    aget (pre ++ b :: rest) i = .ok b := by
  subst hi
  rw [aget_nat (by simp)]
  simp

variable {op : TCPOption} {pre rest value : Bytes} {kind length : Byte}

theorem fromByteRound_eol : fromByteRound (pre ++ KIND_EOL :: rest) (op, (pre.length : ℤ)) =
    .ok (op, ((pre ++ [KIND_EOL]).length : ℤ)) := by
  simp only [fromByteRound, aget_append rfl, bind, Except.bind, if_true, pure, Except.pure]
  simp

theorem fromByteRound_nop : fromByteRound (pre ++ KIND_NO :: rest) (op, (pre.length : ℤ)) =
    .ok (op, ((pre ++ [KIND_NO]).length : ℤ)) := by
  simp only [fromByteRound, aget_append rfl, bind, Except.bind, pure, Except.pure]
  rw [if_neg (by decide)]
  simp

/-- **A known option is skipped by its length.** -/
theorem fromByteRound_known (pre rest : Bytes) (op : TCPOption) (hk : Known kind) (hl : length.toNat = value.length + 2)
    (hsmall : value.length + 2 < 128) :
    ∃ op', fromByteRound (pre ++ kind :: length :: (value ++ rest)) (op, (pre.length : ℤ)) =
        .ok (op', ((pre ++ kind :: length :: value).length : ℤ)) := by
  set area := pre ++ kind :: length :: (value ++ rest) with harea
  have hsize : area.length = pre.length + (value.length + 2) + rest.length := by
    simp [harea]; omega
  have hkind : byteAt area pre.length = kind := by simp [harea, byteAt]
  have hlength : byteAt area (pre.length + 1) = length := by simp [harea, byteAt]
  have hint : length.toInt = value.length + 2 := by
    rw [BitVec.toInt_eq_toNat_of_lt (by omega), hl]; push_cast; rfl
  have hopt : optionLength area pre.length = value.length + 2 := by
    rw [optionLength_known (by rwa [hkind]), hlength, hint]
  -- the option lies inside the area
  have hread : Readable area pre.length := ⟨fun _ => by omega, fun _ => by omega, fun _ => by omega⟩
  obtain ⟨op', hround⟩ := fromByteRound_readable op (by omega) hread
  refine ⟨op', ?_⟩
  rw [hround, hopt]
  simp only [List.length_append, List.length_cons]
  push_cast
  ring_nf

/-- **At an unknown option the walk stays.** -/
theorem fromByteRound_unknown (h0 : kind ≠ KIND_EOL) (h1 : kind ≠ KIND_NO) (hk : ¬ Known kind) :
    fromByteRound (pre ++ kind :: rest) (op, (pre.length : ℤ)) = .ok (op, (pre.length : ℤ)) := by
  unfold Known at hk
  push Not at hk
  simp only [fromByteRound, aget_append rfl, bind, Except.bind, pure, Except.pure]
  rw [if_neg h0, if_neg h1, if_neg hk.1, if_neg hk.2.1, if_neg hk.2.2.1, if_neg hk.2.2.2.1,
    if_neg hk.2.2.2.2]
  simp

/-- No round touches the bytes the walk keeps. -/
theorem fromByteRound_options {area : Bytes} {s s' : TCPOption × ℤ} (h : fromByteRound area s = .ok s') :
    s'.1.options = s.1.options := by
  obtain ⟨op, i⟩ := s
  simp only [fromByteRound, bind, Except.bind, pure, Except.pure] at h
  repeat' split at h
  all_goals cases h <;> rfl

/-- The loop of `fromByte`. -/
abbrev walk (area : Bytes) : ℕ → TCPOption × ℤ → Fueled (TCPOption × ℤ) :=
  Fueled.doWhile (fromByteRound area) (fun s => s.2 < area.length)

/-- A round that moves past `front` is not the last one if anything follows. -/
theorem over_front {area pre front suffix : Bytes} {op op' : TCPOption} (harea : area = pre ++ front ++ suffix)
    (hne : suffix ≠ [])
    (hr : fromByteRound area (op, (pre.length : ℤ)) = .ok (op', ((pre ++ front).length : ℤ))) :
    Fueled.Over fromByteRound area (op, (pre.length : ℤ)) (op', ((pre ++ front).length : ℤ)) := by
  have hpos := List.length_pos_of_ne_nil hne
  refine ⟨hr, ?_⟩
  rw [harea]
  simp only [List.length_append, decide_eq_true_eq]
  omega

/-- The walk ends if it ends behind `front`, or if `front` is all there is. -/
theorem walk_front {area pre front suffix : Bytes} {op op' : TCPOption} (harea : area = pre ++ front ++ suffix)
    (hr : fromByteRound area (op, (pre.length : ℤ)) = .ok (op', ((pre ++ front).length : ℤ)))
    (hrest : suffix ≠ [] → ∃ s, Fueled.Ends (fun n => walk area n (op', ((pre ++ front).length : ℤ))) (.ok s)) :
    ∃ s, Fueled.Ends (fun n => walk area n (op, (pre.length : ℤ))) (.ok s) := by
  by_cases hne : suffix = []
  · subst hne
    exact ⟨_, Fueled.returns_iff.2 ⟨_, .refl, hr, by rw [harea]; simp⟩⟩
  · obtain ⟨s, hs⟩ := hrest hne
    obtain ⟨t, hreach, hlast⟩ := Fueled.returns_iff.1 hs
    exact ⟨s, Fueled.returns_iff.2 ⟨t, hreach.head (over_front harea hne hr), hlast⟩⟩

/-- With known kinds only, the walk ends, from any option on. -/
theorem walk_ends {area suffix : Bytes} (hs : Options Known suffix) (hsmall : area.length < 128)
    (hne : suffix ≠ []) : ∀ (pre : Bytes) (op : TCPOption), area = pre ++ suffix →
      ∃ s, Fueled.Ends (fun n => walk area n (op, (pre.length : ℤ))) (.ok s) := by
  induction hs with
  | nil => exact absurd rfl hne
  | eol n =>
    induction n with
    | zero =>
      intro pre op harea
      exact walk_front (by simpa using harea) (by rw [harea]; exact fromByteRound_eol) (fun h => absurd rfl h)
    | succ n ih =>
      intro pre op harea
      -- a zero of the padding is one more end-of-list byte
      have harea' : area = pre ++ [KIND_EOL] ++ KIND_EOL :: List.replicate n 0 := by
        rw [harea, List.append_assoc]; rfl
      refine walk_front harea' (by rw [harea]; exact fromByteRound_eol) ?_
      intro _
      exact ih (by simp) (pre ++ [KIND_EOL]) op harea'
  | @nop rest hr ih =>
    intro pre op harea
    have harea' : area = pre ++ [KIND_NO] ++ rest := by simpa using harea
    refine walk_front harea' (by rw [harea]; exact fromByteRound_nop) ?_
    intro hne'
    exact ih hne' (pre ++ [KIND_NO]) op harea'
  | @option kind length value rest h0 h1 hk hl hr ih =>
    intro pre op harea
    have harea' : area = pre ++ kind :: length :: value ++ rest := by simpa using harea
    have hlen : value.length + 2 < 128 := by rw [harea] at hsmall; simp at hsmall; omega
    obtain ⟨op', hround⟩ := fromByteRound_known pre rest op hk hl hlen
    refine walk_front harea' (by rw [harea]; exact hround) ?_
    intro hne'
    exact ih hne' (pre ++ kind :: length :: value) op' harea'

/-- The walk over the area comes to `s` before some round. -/
def Stands (area : Bytes) (s : TCPOption × ℤ) : Prop :=
  Relation.ReflTransGen (Fueled.Over fromByteRound area) ({ options := some area }, 0) s

/-- `fromByte` returns what its loop has made. -/
theorem fromByte_ends_iff {area : Bytes} {op : TCPOption} :
    Fueled.Ends (fun n => fromByte n area) (.ok op) ↔
      ∃ i, Fueled.Ends (fun n => walk area n ({ options := some area }, 0)) (.ok (op, i)) := by
  constructor
  · rintro ⟨n, hn⟩
    simp only [fromByte, Fueled.run_bind] at hn
    rcases hw : ExceptT.run (walk area n ({ options := some area }, 0)) with _ | (e | ⟨op', i⟩)
    · rw [hw] at hn; cases hn
    · rw [hw] at hn; cases hn
    · rw [hw] at hn
      cases hn
      exact ⟨i, n, hw⟩
  · rintro ⟨i, n, hn⟩
    have hn' : ExceptT.run (walk area n ({ options := some area }, 0)) = some (.ok (op, i)) := hn
    refine ⟨n, ?_⟩
    simp only [fromByte, Fueled.run_bind, hn']
    rfl

/-- What `fromByte` returns keeps the bytes it read. -/
theorem fromByte_options {area : Bytes} {n : ℕ} {op : TCPOption}
    (h : ExceptT.run (fromByte n area) = some (.ok op)) : op.options = some area := by
  simp only [fromByte, Fueled.run_bind] at h
  rcases hw : ExceptT.run (walk area n ({ options := some area }, 0)) with _ | (e | s)
  · rw [hw] at h; cases h
  · rw [hw] at h; cases h
  · rw [hw] at h
    cases h
    exact Fueled.doWhile_invariant (fun s => s.1.options = some area)
      (fun _ _ hb hs => (fromByteRound_options hb).trans hs) rfl hw

/-- **With known kinds only, `fromByte` ends.** -/
theorem fromByte_ends {area : Bytes} (ha : Options Known area) (hsmall : area.length < 128)
    (hne : area ≠ []) : ∃ op, Fueled.Ends (fun n => fromByte n area) (.ok op) := by
  obtain ⟨⟨op, i⟩, hs⟩ := walk_ends ha hsmall hne [] { options := some area } rfl
  exact ⟨op, fromByte_ends_iff.2 ⟨i, hs⟩⟩

/-- The walk comes to an unknown kind and stays there, from any option before it on. -/
theorem walk_sticks {area suffix : Bytes} (hs : Options (fun _ => True) suffix)
    (hu : ¬ Options Known suffix) (hsmall : area.length < 128) :
    ∀ (pre : Bytes) (op : TCPOption), area = pre ++ suffix →
      ∃ t, Relation.ReflTransGen (Fueled.Over fromByteRound area) (op, (pre.length : ℤ)) t ∧
        Fueled.Over fromByteRound area t t := by
  induction hs with
  | nil => exact absurd Options.nil hu
  | eol n => exact absurd (Options.eol n) hu
  | @nop rest hr ih =>
    intro pre op harea
    have hu' : ¬ Options Known rest := fun h => hu (Options.nop h)
    have hne : rest ≠ [] := by rintro rfl; exact hu' Options.nil
    have harea' : area = pre ++ [KIND_NO] ++ rest := by simpa using harea
    obtain ⟨t, hreach, hstuck⟩ := ih hu' (pre ++ [KIND_NO]) op harea'
    exact ⟨t, hreach.head (over_front harea' hne (by rw [harea]; exact fromByteRound_nop)), hstuck⟩
  | @option kind length value rest h0 h1 _ hl hr ih =>
    intro pre op harea
    by_cases hk : Known kind
    · have hu' : ¬ Options Known rest := fun h => hu (Options.option h0 h1 hk hl h)
      have hne : rest ≠ [] := by rintro rfl; exact hu' Options.nil
      have harea' : area = pre ++ kind :: length :: value ++ rest := by simpa using harea
      have hlen : value.length + 2 < 128 := by rw [harea] at hsmall; simp at hsmall; omega
      obtain ⟨op', hround⟩ := fromByteRound_known pre rest op hk hl hlen
      obtain ⟨t, hreach, hstuck⟩ := ih hu' (pre ++ kind :: length :: value) op' harea'
      exact ⟨t, hreach.head (over_front harea' hne (by rw [harea]; exact hround)), hstuck⟩
    · refine ⟨_, .refl, by rw [harea]; exact fromByteRound_unknown h0 h1 hk, ?_⟩
      rw [harea]
      simp only [List.length_append, List.length_cons, decide_eq_true_eq]
      omega

/-- **With an unknown kind, `fromByte` never ends.** -/
theorem fromByte_diverges {area : Bytes} (ha : Options (fun _ => True) area)
    (hu : ¬ Options Known area) (hsmall : area.length < 128) :
    Fueled.Diverges fun n => fromByte n area := by
  intro n
  obtain ⟨t, hreach, hstuck⟩ := walk_sticks ha hu hsmall [] { options := some area } rfl
  have hn : ExceptT.run (walk area n ({ options := some area }, 0)) = none :=
    Fueled.diverges_of_stuck hreach hstuck n
  simp only [fromByte, Fueled.run_bind, hn]

end TCPOption

end SmartTunnel
