import SmartTunnel.Model.ConfigLine

/-!
# What `openvpn` reads of what the app writes

An option line that was written with `openVpnEscape` is read as its words exactly when each word is one that a line
can carry (`Carried`): it has no line break, no zero and no more bytes than a parameter, and a white space other than
the blank only beside a character that makes it quoted (`parse_line_optionLine_iff`). The same holds of the name and
the password in a command for the management interface; whatever they are, a command stays on one line
(`processPWCommand_read`).
-/

namespace SmartTunnel

open Jvm VpnProfile OpenVpn

namespace OpenVpn

variable {n : ℕ} {s : Line} {p : List Bytes} {parm rest : Bytes} {b : Byte} {a : List Char} {c : Char}

/-- What comes behind a round that ends in `s`. -/
def continue' (n : ℕ) (b : Byte) (rest : Bytes) (s : Line) : Except LineError (List Bytes) :=
  if n ≤ s.p.length ∨ b = 0 then finish s else parseLoop n rest s

theorem parseLoop_round {s' : Line} (h : round b s = .ok (some s')) :
    parseLoop n (b :: rest) s = continue' n b rest s' := by
  rw [parseLoop, h]
  rfl

theorem parseLoop_error {e : LineError} (h : round b s = .error e) : parseLoop n (b :: rest) s = .error e := by
  rw [parseLoop, h]

theorem continue_of_lt (h : s.p.length < n) (hb : b ≠ 0) : continue' n b rest s = parseLoop n rest s := by
  unfold continue'
  rw [if_neg (not_or.2 ⟨not_le.2 h, hb⟩)]

/-! ## Words in quotes -/

/-- A byte between quotes that stands for itself. -/
def Ordinary (b : Byte) : Prop := b ≠ 0 ∧ b ≠ 92 ∧ b ≠ 34

theorem round_quoted (parm : Bytes) (p : List Bytes) (h : Ordinary b) : round b ⟨.STATE_READING_QUOTED_PARM, false, parm, p⟩ =
    if OPTION_PARM_SIZE ≤ parm.length then .error .tooLong
    else .ok (some ⟨.STATE_READING_QUOTED_PARM, false, parm ++ [b], p⟩) := by
  obtain ⟨h0, hbs, hq⟩ := h
  have hnext : next b ⟨.STATE_READING_QUOTED_PARM, false, parm, p⟩ = some (.STATE_READING_QUOTED_PARM, b) :=
    if_neg (by simpa using hq)
  unfold round
  rw [if_neg (by simp_all), hnext]
  exact (if_neg (by simp [finishParm])).trans (if_neg h0)

theorem reads_ordinary {bs : Bytes} (h : ∀ b ∈ bs, Ordinary b) (hp : p.length < n)
    (hfits : parm.length + bs.length ≤ OPTION_PARM_SIZE) :
    parseLoop n (bs ++ rest) ⟨.STATE_READING_QUOTED_PARM, false, parm, p⟩ =
      parseLoop n rest ⟨.STATE_READING_QUOTED_PARM, false, parm ++ bs, p⟩ := by
  induction bs generalizing parm with
  | nil => simp
  | cons b bs ih =>
    rw [List.forall_mem_cons] at h
    rw [List.length_cons] at hfits
    have hround := round_quoted parm p h.1
    rw [if_neg (by omega)] at hround
    rw [List.cons_append, parseLoop_round hround, continue_of_lt hp h.1.1, ih h.2, List.append_assoc, List.singleton_append]
    rw [List.length_append, List.length_singleton]
    omega

theorem fails_ordinary {bs : Bytes} (h : ∀ b ∈ bs, Ordinary b) (hp : p.length < n) (hparm : parm.length ≤ OPTION_PARM_SIZE)
    (hfits : OPTION_PARM_SIZE < parm.length + bs.length) :
    parseLoop n (bs ++ rest) ⟨.STATE_READING_QUOTED_PARM, false, parm, p⟩ = .error .tooLong := by
  induction bs generalizing parm with
  | nil =>
    simp only [List.length_nil] at hfits
    omega
  | cons b bs ih =>
    rw [List.forall_mem_cons] at h
    rw [List.length_cons] at hfits
    have hround := round_quoted parm p h.1
    by_cases hfull : OPTION_PARM_SIZE ≤ parm.length
    · rw [if_pos hfull] at hround
      exact parseLoop_error hround
    · rw [if_neg hfull] at hround
      rw [List.cons_append, parseLoop_round hround, continue_of_lt hp h.1.1]
      apply ih h.2 <;> simp only [List.length_append, List.length_singleton] <;> omega

/-- A backslash before a character of those that need one. -/
theorem reads_escaped (parm rest : Bytes) (hb : b = 92 ∨ b = 34) (hp : p.length < n) :
    parseLoop n (92 :: b :: rest) ⟨.STATE_READING_QUOTED_PARM, false, parm, p⟩ =
      if OPTION_PARM_SIZE ≤ parm.length then .error .tooLong
      else parseLoop n rest ⟨.STATE_READING_QUOTED_PARM, false, parm ++ [b], p⟩ := by
  have hbs : round 92 ⟨.STATE_READING_QUOTED_PARM, false, parm, p⟩ = .ok (some ⟨.STATE_READING_QUOTED_PARM, true, parm, p⟩) := rfl
  have hround : round b ⟨.STATE_READING_QUOTED_PARM, true, parm, p⟩ =
      if OPTION_PARM_SIZE ≤ parm.length then .error .tooLong
      else .ok (some ⟨.STATE_READING_QUOTED_PARM, false, parm ++ [b], p⟩) := by
    rcases hb with rfl | rfl <;> simp [round, next, finishParm]
  have hne : b ≠ 0 := by rcases hb with rfl | rfl <;> decide
  rw [parseLoop_round hbs, continue_of_lt hp (by decide)]
  by_cases hfull : OPTION_PARM_SIZE ≤ parm.length
  · rw [if_pos hfull] at hround ⊢
    exact parseLoop_error hround
  · rw [if_neg hfull] at hround ⊢
    rw [parseLoop_round hround, continue_of_lt hp hne]

/-- What `openVpnEscape` puts between quotes for a character. -/
def escapeChar (c : Char) : List Char :=
  if c = '\\' then ['\\', '\\'] else if c = '"' then ['\\', '"'] else if c = '\n' then ['\\', 'n'] else [c]

/-- The bytes of a character that is none of a backslash, a quote and zero are ordinary. -/
theorem ordinary_encodeChar (h : c ≠ '\\' ∧ c ≠ '"' ∧ c ≠ '\x00') : ∀ b ∈ Utf8.encodeChar c, Ordinary b := by
  have hmem : ∀ d : Char, d.toNat < 128 → c ≠ d → BitVec.ofNat 8 d.toNat ∉ Utf8.encodeChar c := by
    intro d hd hne hb
    have := (Utf8.mem_encode (s := [c]) hd).1 (by simpa using hb)
    exact hne (List.mem_singleton.1 this).symm
  intro b hb
  refine ⟨?_, ?_, ?_⟩
  · rintro rfl
    exact hmem '\x00' (by decide) h.2.2 hb
  · rintro rfl
    exact hmem '\\' (by decide) h.1 hb
  · rintro rfl
    exact hmem '"' (by decide) h.2.1 hb

/-- **A character between quotes.** -/
theorem reads_char (hc : c ≠ '\n' ∧ c ≠ '\x00') (hp : p.length < n) (hparm : parm.length ≤ OPTION_PARM_SIZE) :
    parseLoop n (Utf8.encode (escapeChar c) ++ rest) ⟨.STATE_READING_QUOTED_PARM, false, parm, p⟩ =
      if parm.length + (Utf8.encodeChar c).length ≤ OPTION_PARM_SIZE then
        parseLoop n rest ⟨.STATE_READING_QUOTED_PARM, false, parm ++ Utf8.encodeChar c, p⟩
      else .error .tooLong := by
  unfold escapeChar
  by_cases hbs : c = '\\'
  · subst hbs
    have := reads_escaped parm rest (b := 92) (.inl rfl) hp
    rw [if_pos rfl]
    refine this.trans ?_
    change _ = if parm.length + 1 ≤ OPTION_PARM_SIZE then _ else _
    by_cases hfull : OPTION_PARM_SIZE ≤ parm.length
    · rw [if_pos hfull, if_neg (by omega)]
    · rw [if_neg hfull, if_pos (by omega)]
      rfl
  · by_cases hq : c = '"'
    · subst hq
      have := reads_escaped parm rest (b := 34) (.inr rfl) hp
      rw [if_neg hbs, if_pos rfl]
      refine this.trans ?_
      change _ = if parm.length + 1 ≤ OPTION_PARM_SIZE then _ else _
      by_cases hfull : OPTION_PARM_SIZE ≤ parm.length
      · rw [if_pos hfull, if_neg (by omega)]
      · rw [if_neg hfull, if_pos (by omega)]
        rfl
    · rw [if_neg hbs, if_neg hq, if_neg hc.1, Utf8.encode_cons, Utf8.encode_nil, List.append_nil]
      have hordinary := ordinary_encodeChar ⟨hbs, hq, hc.2⟩
      split
      · rename_i hfits
        exact reads_ordinary hordinary hp hfits
      · rename_i hfits
        exact fails_ordinary hordinary hp hparm (not_le.1 hfits)

/-- A line break and a zero make an error. -/
theorem fails_char (hc : c = '\n' ∨ c = '\x00') (hp : p.length < n) :
    ∃ e, parseLoop n (Utf8.encode (escapeChar c) ++ rest) ⟨.STATE_READING_QUOTED_PARM, false, parm, p⟩ = .error e := by
  rcases hc with rfl | rfl
  · -- a backslash and the letter `n`
    have hbs : round 92 ⟨.STATE_READING_QUOTED_PARM, false, parm, p⟩ =
      .ok (some ⟨.STATE_READING_QUOTED_PARM, true, parm, p⟩) := rfl
    have hround : round 110 ⟨.STATE_READING_QUOTED_PARM, true, parm, p⟩ = .error .badBackslash := rfl
    refine ⟨.badBackslash, ?_⟩
    change parseLoop n (92 :: 110 :: rest) _ = _
    rw [parseLoop_round hbs, continue_of_lt hp (by decide), parseLoop_error hround]
  · have hround : round 0 ⟨.STATE_READING_QUOTED_PARM, false, parm, p⟩ =
      .ok (some ⟨.STATE_READING_QUOTED_PARM, false, parm, p⟩) := rfl
    refine ⟨.noClosingQuotation, ?_⟩
    change parseLoop n (0 :: rest) _ = _
    rw [parseLoop_round hround]
    exact if_pos (.inr rfl)

/-- The characters of a word, between quotes. -/
theorem reads_quoted (a : List Char) (parm rest : Bytes) (hp : p.length < n) (hparm : parm.length ≤ OPTION_PARM_SIZE) :
    (('\n' ∉ a ∧ '\x00' ∉ a ∧ parm.length + (Utf8.encode a).length ≤ OPTION_PARM_SIZE) ∧
      parseLoop n (Utf8.encode (a.flatMap escapeChar) ++ rest) ⟨.STATE_READING_QUOTED_PARM, false, parm, p⟩ =
        parseLoop n rest ⟨.STATE_READING_QUOTED_PARM, false, parm ++ Utf8.encode a, p⟩) ∨
    (¬ ('\n' ∉ a ∧ '\x00' ∉ a ∧ parm.length + (Utf8.encode a).length ≤ OPTION_PARM_SIZE) ∧
      ∃ e, parseLoop n (Utf8.encode (a.flatMap escapeChar) ++ rest) ⟨.STATE_READING_QUOTED_PARM, false, parm, p⟩ = .error e) := by
  induction a generalizing parm with
  | nil => exact .inl ⟨⟨by simp, by simp, by simpa using hparm⟩, by simp⟩
  | cons c a ih =>
    rw [List.flatMap_cons, Utf8.encode_append, List.append_assoc]
    by_cases hc : c = '\n' ∨ c = '\x00'
    · refine .inr ⟨?_, fails_char hc hp⟩
      rintro ⟨h1, h2, -⟩
      rcases hc with rfl | rfl
      · exact h1 List.mem_cons_self
      · exact h2 List.mem_cons_self
    · obtain ⟨hnl, hzero⟩ := not_or.1 hc
      rw [reads_char ⟨hnl, hzero⟩ hp hparm]
      by_cases hfits : parm.length + (Utf8.encodeChar c).length ≤ OPTION_PARM_SIZE
      · rw [if_pos hfits]
        have hparm' : (parm ++ Utf8.encodeChar c).length ≤ OPTION_PARM_SIZE := by rwa [List.length_append]
        rcases ih _ hparm' with ⟨⟨h1, h2, h3⟩, heq⟩ | ⟨hnot, herror⟩
        · left
          rw [List.length_append] at h3
          refine ⟨⟨?_, ?_, ?_⟩, ?_⟩
          · simp [Ne.symm hnl, h1]
          · simp [Ne.symm hzero, h2]
          · rw [Utf8.encode_cons, List.length_append]
            omega
          · rw [heq, Utf8.encode_cons, List.append_assoc]
        · right
          refine ⟨?_, herror⟩
          rintro ⟨h1, h2, h3⟩
          rw [Utf8.encode_cons, List.length_append] at h3
          rw [List.length_append] at hnot
          exact hnot ⟨fun h => h1 (List.mem_cons_of_mem _ h), fun h => h2 (List.mem_cons_of_mem _ h), by omega⟩
      · rw [if_neg hfits]
        refine .inr ⟨?_, _, rfl⟩
        rintro ⟨-, -, h3⟩
        rw [Utf8.encode_cons, List.length_append] at h3
        omega

/-! ## Words without quotes -/

/-- A byte that stands for itself everywhere. -/
structure Plain (b : Byte) : Prop where
  backslash : b ≠ 92
  quote : b ≠ 34
  squote : b ≠ 39
  comment : b ≠ 59 ∧ b ≠ 35

theorem ne_zero_of_space (h : space b = false) : b ≠ 0 := by
  rintro rfl
  cases h

theorem ne_backslash_of_space (h : space b = true) : b ≠ 92 := by
  rintro rfl
  cases h

theorem round_initial_space (hb : space b = true) :
    round b ⟨.STATE_INITIAL, false, [], p⟩ = .ok (some ⟨.STATE_INITIAL, false, [], p⟩) := by
  have hbs := ne_backslash_of_space hb
  have hnext : next b ⟨.STATE_INITIAL, false, [], p⟩ = some (.STATE_INITIAL, 0) := if_pos hb
  unfold round
  rw [if_neg (by simp_all), hnext]
  rfl

theorem round_initial_plain (h : Plain b) (hb : space b = false) :
    round b ⟨.STATE_INITIAL, false, [], p⟩ = .ok (some ⟨.STATE_READING_UNQUOTED_PARM, false, [b], p⟩) := by
  have hnext : next b ⟨.STATE_INITIAL, false, [], p⟩ = some (.STATE_READING_UNQUOTED_PARM, b) := by
    have h1 := h.quote
    have h2 := h.squote
    have h3 := h.comment
    unfold next
    simp_all
  have hbs := h.backslash
  unfold round
  rw [if_neg (by simp_all), hnext]
  exact (if_neg (by simp [finishParm])).trans ((if_neg (ne_zero_of_space hb)).trans (if_neg (by simp [finishParm, OPTION_PARM_SIZE])))

theorem round_unquoted_space (hb : space b = true) :
    round b ⟨.STATE_READING_UNQUOTED_PARM, false, parm, p⟩ = .ok (some ⟨.STATE_INITIAL, false, [], p ++ [parm]⟩) := by
  have hbs := ne_backslash_of_space hb
  have hnext : next b ⟨.STATE_READING_UNQUOTED_PARM, false, parm, p⟩ = some (.STATE_DONE, 0) := if_pos (by simpa using hb)
  unfold round
  rw [if_neg (by simp_all), hnext]
  rfl

theorem round_unquoted_plain (parm : Bytes) (p : List Bytes) (h : Plain b) (hb : space b = false) :
    round b ⟨.STATE_READING_UNQUOTED_PARM, false, parm, p⟩ =
      if OPTION_PARM_SIZE ≤ parm.length then .error .tooLong
      else .ok (some ⟨.STATE_READING_UNQUOTED_PARM, false, parm ++ [b], p⟩) := by
  have hnext : next b ⟨.STATE_READING_UNQUOTED_PARM, false, parm, p⟩ = some (.STATE_READING_UNQUOTED_PARM, b) :=
    if_neg (by simpa using hb)
  have hbs := h.backslash
  unfold round
  rw [if_neg (by simp_all), hnext]
  exact (if_neg (by simp [finishParm])).trans (if_neg (ne_zero_of_space hb))

/-- Plain bytes without white space, behind the first one of a word. -/
theorem reads_plain {bs : Bytes} (h : ∀ b ∈ bs, Plain b ∧ space b = false) (hp : p.length < n)
    (hfits : parm.length + bs.length ≤ OPTION_PARM_SIZE) :
    parseLoop n (bs ++ rest) ⟨.STATE_READING_UNQUOTED_PARM, false, parm, p⟩ =
      parseLoop n rest ⟨.STATE_READING_UNQUOTED_PARM, false, parm ++ bs, p⟩ := by
  induction bs generalizing parm with
  | nil => simp
  | cons b bs ih =>
    rw [List.forall_mem_cons] at h
    rw [List.length_cons] at hfits
    have hround := round_unquoted_plain parm p h.1.1 h.1.2
    rw [if_neg (by omega)] at hround
    rw [List.cons_append, parseLoop_round hround, continue_of_lt hp (ne_zero_of_space h.1.2), ih h.2, List.append_assoc,
      List.singleton_append]
    rw [List.length_append, List.length_singleton]
    omega

/-! ## What `openVpnEscape` writes -/

/-- A character that makes `openVpnEscape` quote a word. -/
def Special (c : Char) : Prop := c = '\\' ∨ c = '"' ∨ c = '\n' ∨ c = ' ' ∨ c = '#' ∨ c = ';' ∨ c = '\''

instance (c : Char) : Decidable (Special c) := inferInstanceAs (Decidable (_ ∨ _))

/-- What makes `openVpnEscape` quote a word. -/
def Quoted (a : List Char) : Prop := a = [] ∨ ∃ c ∈ a, Special c

instance (a : List Char) : Decidable (Quoted a) := @instDecidableOr _ _ _ (List.decidableBEx Special a)

theorem replace_replace (a : List Char) :
    replace '\n' ['\\', 'n'] (replace '"' ['\\', '"'] (replace '\\' ['\\', '\\'] a)) = a.flatMap escapeChar := by
  induction a with
  | nil => rfl
  | cons c a ih =>
    unfold replace at ih ⊢
    rw [List.flatMap_cons, List.flatMap_append, List.flatMap_append, List.flatMap_cons, ih]
    congr 1
    unfold escapeChar
    by_cases h1 : c = '\\'
    · subst h1
      rfl
    · by_cases h2 : c = '"'
      · subst h2
        rfl
      · by_cases h3 : c = '\n'
        · subst h3
          rfl
        · simp [h1, h2, h3]

theorem mem_escapeChar {d : Char} (hd : d ≠ '\\' ∧ d ≠ '"' ∧ d ≠ '\n' ∧ d ≠ 'n') : d ∈ a.flatMap escapeChar ↔ d ∈ a := by
  obtain ⟨h1, h2, h3, h4⟩ := hd
  rw [List.mem_flatMap]
  constructor
  · rintro ⟨c, hc, hd⟩
    unfold escapeChar at hd
    split_ifs at hd with hb hq hn
    · simp [h1] at hd
    · simp [h1, h2] at hd
    · simp [h1, h4] at hd
    · rwa [List.mem_singleton.1 hd]
  · intro h
    exact ⟨d, h, by simp [escapeChar, h1, h2, h3]⟩

/-- The text is left as it is iff it has none of the three characters. -/
theorem escape_eq_self : a.flatMap escapeChar = a ↔ '\\' ∉ a ∧ '"' ∉ a ∧ '\n' ∉ a := by
  constructor
  · intro h
    have hlen : ∀ b : List Char, b.length ≤ (b.flatMap escapeChar).length := by
      intro b
      induction b with
      | nil => simp
      | cons c b ih =>
        have hone : 1 ≤ (escapeChar c).length := by
          unfold escapeChar
          split_ifs <;> simp
        rw [List.flatMap_cons, List.length_append, List.length_cons]
        omega
    have hnone : ∀ c, 1 < (escapeChar c).length → c ∉ a := by
      intro c hc hmem
      obtain ⟨front, back, rfl⟩ := List.append_of_mem hmem
      have hlength := congrArg List.length h
      have h1 := hlen front
      have h2 := hlen back
      simp only [List.flatMap_append, List.flatMap_cons, List.length_append, List.length_cons] at hlength
      omega
    exact ⟨hnone _ (by decide), hnone _ (by decide), hnone _ (by decide)⟩
  · rintro ⟨h1, h2, h3⟩
    induction a with
    | nil => rfl
    | cons c a ih =>
      rw [List.mem_cons, not_or] at h1 h2 h3
      rw [List.flatMap_cons, ih h1.2 h2.2 h3.2, escapeChar, if_neg (Ne.symm h1.1), if_neg (Ne.symm h2.1),
        if_neg (Ne.symm h3.1), List.singleton_append]

theorem openVpnEscape_eq (a : List Char) :
    openVpnEscape a = if Quoted a then ['"'] ++ a.flatMap escapeChar ++ ['"'] else a := by
  unfold openVpnEscape
  simp only [replace_replace]
  have hcond : (a.flatMap escapeChar = a ∧ ' ' ∉ a.flatMap escapeChar ∧ '#' ∉ a.flatMap escapeChar ∧
      ';' ∉ a.flatMap escapeChar ∧ a.flatMap escapeChar ≠ [] ∧ '\'' ∉ a.flatMap escapeChar) ↔ ¬ Quoted a := by
    rw [mem_escapeChar (by decide), mem_escapeChar (by decide), mem_escapeChar (by decide), mem_escapeChar (by decide),
      escape_eq_self]
    unfold Quoted
    constructor
    · rintro ⟨⟨h1, h2, h3⟩, h4, h5, h6, h7, h8⟩ (rfl | ⟨c, hc, hspecial⟩)
      · exact h7 rfl
      · rcases hspecial with rfl | rfl | rfl | rfl | rfl | rfl | rfl <;> contradiction
    · intro h
      obtain ⟨hne, hnone⟩ := not_or.1 h
      have hmem : ∀ c, Special c → c ∉ a := fun c hc hmem => hnone ⟨c, hmem, hc⟩
      refine ⟨⟨hmem _ (by decide), hmem _ (by decide), hmem _ (by decide)⟩, hmem _ (by decide), hmem _ (by decide),
        hmem _ (by decide), ?_, hmem _ (by decide)⟩
      obtain ⟨c, a, rfl⟩ := List.exists_cons_of_ne_nil hne
      rw [List.flatMap_cons, escapeChar]
      split_ifs <;> simp
  by_cases hq : Quoted a
  · rw [if_pos hq, if_neg (fun h => hcond.1 h hq)]
  · rw [if_neg hq, if_pos (hcond.2 hq)]

/-! ## A word that is written -/

/-- The words that a line can carry. -/
structure Carried (a : List Char) : Prop where
  newline : '\n' ∉ a
  zero : '\x00' ∉ a
  fits : (Utf8.encode a).length ≤ OPTION_PARM_SIZE
  space : Quoted a ∨ ∀ c ∈ a, ¬ (9 ≤ c.toNat ∧ c.toNat ≤ 13)

instance (a : List Char) : Decidable (Carried a) :=
  have : Decidable (∀ c ∈ a, ¬ (9 ≤ c.toNat ∧ c.toNat ≤ 13)) := List.decidableBAll _ a
  decidable_of_iff (_ ∧ _ ∧ _ ∧ _) ⟨fun h => ⟨h.1, h.2.1, h.2.2.1, h.2.2.2⟩, fun h => ⟨h.1, h.2, h.3, h.4⟩⟩

/-- The bytes of a word without special characters are plain. -/
theorem plain_encode (h : ¬ Quoted a) : ∀ b ∈ Utf8.encode a, Plain b := by
  have hnone : ∀ c, Special c → c ∉ a := fun c hc hmem => h (.inr ⟨c, hmem, hc⟩)
  have hmem : ∀ d : Char, d.toNat < 128 → Special d → BitVec.ofNat 8 d.toNat ∉ Utf8.encode a :=
    fun d hd hs hb => hnone d hs ((Utf8.mem_encode hd).1 hb)
  intro b hb
  refine ⟨?_, ?_, ?_, ?_, ?_⟩
  · rintro rfl
    exact hmem '\\' (by decide) (by decide) hb
  · rintro rfl
    exact hmem '"' (by decide) (by decide) hb
  · rintro rfl
    exact hmem '\'' (by decide) (by decide) hb
  · rintro rfl
    exact hmem ';' (by decide) (by decide) hb
  · rintro rfl
    exact hmem '#' (by decide) (by decide) hb

/-- An ASCII byte of a text is that of a character. -/
theorem exists_of_space (hb : b ∈ Utf8.encode a) (hspace : space b = true) : ∃ c ∈ a, c.toNat = b.toNat := by
  have hlt : b.toNat < 128 := by
    simp only [space, Bool.or_eq_true, beq_iff_eq, Bool.and_eq_true, decide_eq_true_eq] at hspace
    rcases hspace with (rfl | rfl) | ⟨-, h⟩
    · decide
    · decide
    · omega
  unfold Utf8.encode at hb
  obtain ⟨c, hc, hb⟩ := List.mem_flatMap.1 hb
  refine ⟨c, hc, ?_⟩
  by_cases h : c.toNat < 128
  · rw [Utf8.encodeChar_ascii h, List.mem_singleton] at hb
    rw [hb, BitVec.toNat_ofNat, Nat.mod_eq_of_lt (by omega)]
  · have := (Utf8.encodeChar_high (not_lt.1 h)).2 b hb
    omega

/-- A word without special characters has white space in its bytes iff it has it in its characters. -/
theorem unbroken_iff (h : ¬ Quoted a) : (∀ b ∈ Utf8.encode a, space b = false) ↔
    '\x00' ∉ a ∧ ∀ c ∈ a, ¬ (9 ≤ c.toNat ∧ c.toNat ≤ 13) := by
  constructor
  · intro hb
    refine ⟨fun hzero => ?_, fun c hc hrange => ?_⟩
    · have := hb 0 ((Utf8.mem_encode (d := '\x00') (by decide)).2 hzero)
      cases this
    · have := hb _ ((Utf8.mem_encode (d := c) (by omega)).2 hc)
      simp only [space, BitVec.toNat_ofNat, Bool.or_eq_false_iff, Bool.and_eq_false_iff, decide_eq_false_iff_not] at this
      omega
  · rintro ⟨hzero, hrange⟩ b hb
    by_contra hspace
    rw [Bool.not_eq_false] at hspace
    obtain ⟨c, hc, hcb⟩ := exists_of_space hb hspace
    have hblank : c ≠ ' ' := by
      rintro rfl
      exact h (.inr ⟨_, hc, by decide⟩)
    have hnul : c ≠ '\x00' := by
      rintro rfl
      exact hzero hc
    simp only [space, Bool.or_eq_true, beq_iff_eq, Bool.and_eq_true, decide_eq_true_eq] at hspace
    rcases hspace with (rfl | rfl) | hb
    · exact hnul (Char.toNat_inj.1 hcb)
    · exact hblank (Char.toNat_inj.1 hcb)
    · exact hrange c hc (by omega)

/-- **A word that a line can carry is read**, up to the white space or the end behind it. -/
theorem reads_word (h : Carried a) (hp : p.length < n) (hb : space b = true) :
    parseLoop n (Utf8.encode (openVpnEscape a) ++ b :: rest) ⟨.STATE_INITIAL, false, [], p⟩ =
      continue' n b rest ⟨.STATE_INITIAL, false, [], p ++ [Utf8.encode a]⟩ := by
  rw [openVpnEscape_eq]
  by_cases hq : Quoted a
  · have hopen : round 34 ⟨.STATE_INITIAL, false, [], p⟩ = .ok (some ⟨.STATE_READING_QUOTED_PARM, false, [], p⟩) := rfl
    have hclose : round 34 ⟨.STATE_READING_QUOTED_PARM, false, Utf8.encode a, p⟩ =
      .ok (some ⟨.STATE_INITIAL, false, [], p ++ [Utf8.encode a]⟩) := rfl
    have hbytes : Utf8.encode (['"'] ++ a.flatMap escapeChar ++ ['"']) ++ b :: rest =
        34 :: (Utf8.encode (a.flatMap escapeChar) ++ 34 :: b :: rest) := by
      rw [Utf8.encode_append, Utf8.encode_append, List.append_assoc, List.append_assoc]
      rfl
    rw [if_pos hq, hbytes, parseLoop_round hopen, continue_of_lt hp (by decide)]
    rcases reads_quoted a [] (34 :: b :: rest) hp (by simp) with ⟨-, heq⟩ | ⟨hnot, -⟩
    · rw [heq, List.nil_append, parseLoop_round hclose]
      by_cases hn : n ≤ (p ++ [Utf8.encode a]).length
      · unfold continue'
        rw [if_pos (.inl hn), if_pos (.inl hn)]
      · rw [continue_of_lt (not_le.1 hn) (by decide), parseLoop_round (round_initial_space hb)]
    · exact absurd ⟨h.newline, h.zero, by simpa using h.fits⟩ hnot
  · -- the first byte of the word leads into it
    rw [if_neg hq]
    have hplain := plain_encode hq
    have hunbroken := (unbroken_iff hq).2 ⟨h.zero, h.space.resolve_left hq⟩
    have hfits := h.fits
    have hne : Utf8.encode a ≠ [] := fun hnil => hq (.inl (Utf8.encode_eq_nil.1 hnil))
    obtain ⟨x, bs, hbytes⟩ := List.exists_cons_of_ne_nil hne
    rw [hbytes] at hplain hunbroken hfits ⊢
    rw [List.forall_mem_cons] at hplain hunbroken
    rw [List.length_cons] at hfits
    rw [List.cons_append, parseLoop_round (round_initial_plain hplain.1 hunbroken.1),
      continue_of_lt hp (ne_zero_of_space hunbroken.1),
      reads_plain (fun b hb => ⟨hplain.2 b hb, hunbroken.2 b hb⟩) hp (by rw [List.length_singleton]; omega),
      parseLoop_round (round_unquoted_space hb)]
    rfl

/-- A line is its first word, a blank and the other words. -/
theorem encode_optionLine (a : List Char) (args : List (List Char)) :
    Utf8.encode (ConfigParser.optionLine (a :: args)) ++ [0] =
      Utf8.encode (openVpnEscape a) ++ 32 :: (Utf8.encode (ConfigParser.optionLine args) ++ [0]) := by
  unfold ConfigParser.optionLine
  rw [List.flatMap_cons, List.append_assoc, List.append_assoc, Utf8.encode_append, List.append_assoc]
  rfl

/-- **The words of a line.** -/
theorem reads_line {args : List (List Char)} (h : ∀ a ∈ args, Carried a) (hp : p.length < n)
    (hn : p.length + args.length ≤ n) :
    parseLoop n (Utf8.encode (ConfigParser.optionLine args) ++ [0]) ⟨.STATE_INITIAL, false, [], p⟩ =
      .ok (p ++ args.map Utf8.encode) := by
  induction args generalizing p with
  | nil =>
    have hline : Utf8.encode (ConfigParser.optionLine []) ++ [0] = [10, 0] := rfl
    rw [hline, parseLoop_round (round_initial_space (by decide)), continue_of_lt hp (by decide),
      parseLoop_round (round_initial_space (by decide)), List.map_nil, List.append_nil]
    exact if_pos (.inr rfl)
  | cons a args ih =>
    rw [List.forall_mem_cons] at h
    rw [List.length_cons] at hn
    have hwords : p ++ (a :: args).map Utf8.encode = p ++ [Utf8.encode a] ++ args.map Utf8.encode := by simp
    rw [encode_optionLine, reads_word h.1 hp (by decide), hwords]
    by_cases hfull : n ≤ (p ++ [Utf8.encode a]).length
    · -- the last parameter that there is room for
      have hnil : args = [] := by
        rw [List.length_append, List.length_singleton] at hfull
        exact List.length_eq_zero_iff.1 (by omega)
      subst hnil
      rw [List.map_nil, List.append_nil]
      exact if_pos (.inl hfull)
    · rw [continue_of_lt (not_le.1 hfull) (by decide)]
      apply ih h.2 (not_le.1 hfull)
      rw [List.length_append, List.length_singleton]
      omega

/-! ## What is read at all -/

theorem finish_ok {r : List Bytes} (h : finish s = .ok r) : s.state = .STATE_INITIAL ∧ r = s.p := by
  unfold finish at h
  split at h
  · cases h
  · cases h
  · rename_i hstate
    exact ⟨hstate, (Except.ok.inj h).symm⟩
  · cases h

/-- A line that is read to its end, or up to its comment. -/
theorem parseLoop_ok {r : List Bytes} (h : parseLoop n (b :: rest) s = .ok r) :
    (round b s = .ok none ∧ finish s = .ok r) ∨
      ∃ s', round b s = .ok (some s') ∧ (finish s' = .ok r ∨ s'.p.length < n ∧ parseLoop n rest s' = .ok r) := by
  rw [parseLoop] at h
  cases hround : round b s with
  | error e =>
    rw [hround] at h
    cases h
  | ok o =>
    rw [hround] at h
    cases o with
    | none => exact .inl ⟨rfl, h⟩
    | some s' =>
      refine .inr ⟨s', rfl, ?_⟩
      simp only at h
      split at h
      · exact .inl h
      · rename_i hn
        exact .inr ⟨not_le.1 (not_or.1 hn).1, h⟩

/-- The parameters of a line are no longer than `parm`, and end at a zero. -/
structure Bounded (s : Line) : Prop where
  parm : s.parm.length ≤ OPTION_PARM_SIZE ∧ 0 ∉ s.parm
  p : ∀ w ∈ s.p, w.length ≤ OPTION_PARM_SIZE ∧ 0 ∉ w

theorem finishParm_bounded (h : Bounded s) : Bounded (finishParm s) ∧ (finishParm s).p.length ≤ s.p.length + 1 := by
  unfold finishParm
  split
  · refine ⟨⟨⟨by simp, by simp⟩, ?_⟩, by simp⟩
    intro w hw
    rcases List.mem_append.1 hw with hw | hw
    · exact h.p w hw
    · exact List.mem_singleton.1 hw ▸ h.parm
  · exact ⟨h, Nat.le_succ _⟩

theorem round_bounded {s' : Line} (h : Bounded s) (hround : round b s = .ok (some s')) :
    Bounded s' ∧ s'.p.length ≤ s.p.length + 1 := by
  unfold round at hround
  split at hround
  · obtain rfl := Option.some.inj (Except.ok.inj hround)
    exact ⟨⟨h.parm, h.p⟩, Nat.le_succ _⟩
  · split at hround
    · cases hround
    · rename_i state out hnext
      obtain ⟨hb, hlen⟩ := finishParm_bounded (s := { s with state := state }) ⟨h.parm, h.p⟩
      simp only at hround
      split_ifs at hround with h1 h2 h3
      · obtain rfl := Option.some.inj (Except.ok.inj hround)
        exact ⟨⟨hb.parm, hb.p⟩, hlen⟩
      · obtain rfl := Option.some.inj (Except.ok.inj hround)
        refine ⟨⟨⟨?_, ?_⟩, hb.p⟩, hlen⟩
        · rw [List.length_append, List.length_singleton]
          omega
        · rw [List.mem_append, List.mem_singleton, not_or]
          exact ⟨hb.parm.2, Ne.symm h2⟩

theorem parseLoop_bounded {r : List Bytes} (h : Bounded s) (hn : s.p.length ≤ n) (hloop : parseLoop n rest s = .ok r)
    (hrest : rest ≠ [] → s.p.length < n) : r.length ≤ n ∧ ∀ w ∈ r, w.length ≤ OPTION_PARM_SIZE ∧ 0 ∉ w := by
  induction rest generalizing s with
  | nil =>
    obtain ⟨-, rfl⟩ := finish_ok hloop
    exact ⟨hn, h.p⟩
  | cons b rest ih =>
    have hlt := hrest (List.cons_ne_nil _ _)
    rcases parseLoop_ok hloop with ⟨-, hfinish⟩ | ⟨s', hround, hfinish | ⟨hlt', hloop'⟩⟩
    · obtain ⟨-, rfl⟩ := finish_ok hfinish
      exact ⟨hn, h.p⟩
    · obtain ⟨hb, hlen⟩ := round_bounded h hround
      obtain ⟨-, rfl⟩ := finish_ok hfinish
      exact ⟨by omega, hb.p⟩
    · obtain ⟨hb, -⟩ := round_bounded h hround
      exact ih hb hlt'.le hloop' fun _ => hlt'

/-! ## What a written line can be read as -/

/-- A parameter as a written line gives it: without white space, or a word that was quoted and has no line break. -/
def Good (w : Bytes) : Prop := (w ≠ [] ∧ ∀ b ∈ w, space b = false) ∨ ∃ a, Quoted a ∧ '\n' ∉ a ∧ w = Utf8.encode a

/-- From between two words the rest of a line gives good parameters. -/
def Reads (n : ℕ) (rest : Bytes) : Prop :=
  ∀ p, (∀ w ∈ p, Good w) → ∀ r, parseLoop n rest ⟨.STATE_INITIAL, false, [], p⟩ = .ok r → ∀ w ∈ r, Good w

/-- And so it does from inside a word without white space. -/
def ReadsOn (n : ℕ) (rest : Bytes) : Prop :=
  ∀ parm p, parm ≠ [] → (∀ b ∈ parm, space b = false) → (∀ w ∈ p, Good w) →
    ∀ r, parseLoop n rest ⟨.STATE_READING_UNQUOTED_PARM, false, parm, p⟩ = .ok r → ∀ w ∈ r, Good w

/-- The ways a line goes on behind a round. -/
theorem parseLoop_next {s' : Line} {r : List Bytes} (hround : round b s = .ok (some s')) (h : parseLoop n (b :: rest) s = .ok r) :
    finish s' = .ok r ∨ parseLoop n rest s' = .ok r := by
  rw [parseLoop_round hround] at h
  unfold continue' at h
  split at h
  · exact .inl h
  · exact .inr h

theorem Reads.nil (n : ℕ) : Reads n [] := by
  intro p hp r h
  obtain ⟨-, rfl⟩ := finish_ok h
  exact hp

theorem Reads.space (hspace : OpenVpn.space b = true) (h : Reads n rest) : Reads n (b :: rest) := by
  intro p hp r hloop
  rcases parseLoop_next (round_initial_space hspace) hloop with hfinish | hloop
  · obtain ⟨-, rfl⟩ := finish_ok hfinish
    exact hp
  · exact h p hp r hloop

/-- White space leads from inside a word to between two. -/
theorem ReadsOn.space (hspace : OpenVpn.space b = true) (h : Reads n rest) : ReadsOn n (b :: rest) := by
  intro parm p hparm hunbroken hp r hloop
  have hp' : ∀ w ∈ p ++ [parm], Good w := by
    intro w hw
    rcases List.mem_append.1 hw with hw | hw
    · exact hp w hw
    · exact List.mem_singleton.1 hw ▸ .inl ⟨hparm, hunbroken⟩
  rcases parseLoop_next (round_unquoted_space hspace) hloop with hfinish | hloop
  · obtain ⟨-, rfl⟩ := finish_ok hfinish
    exact hp'
  · exact h _ hp' r hloop

theorem Reads.cons (hb : Plain b) (h : Reads n rest) (hon : ReadsOn n rest) : Reads n (b :: rest) := by
  cases hspace : OpenVpn.space b with
  | true => exact h.space hspace
  | false =>
    intro p hp r hloop
    rcases parseLoop_next (round_initial_plain hb hspace) hloop with hfinish | hloop
    · cases (finish_ok hfinish).1
    · exact hon [b] p (List.cons_ne_nil _ _) (by simpa using hspace) hp r hloop

theorem ReadsOn.cons (hb : Plain b) (h : Reads n rest) (hon : ReadsOn n rest) : ReadsOn n (b :: rest) := by
  cases hspace : OpenVpn.space b with
  | true => exact .space hspace h
  | false =>
    intro parm p hparm hunbroken hp r hloop
    have hround := round_unquoted_plain parm p hb hspace
    split at hround
    · rw [parseLoop_error hround] at hloop
      cases hloop
    · rcases parseLoop_next hround hloop with hfinish | hloop
      · cases (finish_ok hfinish).1
      · refine hon _ p (by simp) ?_ hp r hloop
        intro x hx
        rcases List.mem_append.1 hx with hx | hx
        · exact hunbroken x hx
        · exact List.mem_singleton.1 hx ▸ hspace

/-- Words that are not quoted give no parameter with white space. -/
theorem Reads.append {bs : Bytes} (hbs : ∀ b ∈ bs, Plain b) (h : Reads n rest) (hon : ReadsOn n rest) :
    Reads n (bs ++ rest) ∧ ReadsOn n (bs ++ rest) := by
  induction bs with
  | nil => exact ⟨h, hon⟩
  | cons b bs ih =>
    rw [List.forall_mem_cons] at hbs
    obtain ⟨ih1, ih2⟩ := ih hbs.2
    exact ⟨.cons hbs.1 ih1 ih2, .cons hbs.1 ih1 ih2⟩

/-- A quoted word gives itself. -/
theorem Reads.quoted (hq : Quoted a) (h : Reads n rest) : Reads n (Utf8.encode (openVpnEscape a) ++ rest) := by
  intro p hp r hloop
  have hopen : round 34 ⟨.STATE_INITIAL, false, [], p⟩ = .ok (some ⟨.STATE_READING_QUOTED_PARM, false, [], p⟩) := rfl
  have hbytes : Utf8.encode (openVpnEscape a) ++ rest = 34 :: (Utf8.encode (a.flatMap escapeChar) ++ 34 :: rest) := by
    rw [openVpnEscape_eq, if_pos hq, Utf8.encode_append, Utf8.encode_append, List.append_assoc, List.append_assoc]
    rfl
  rw [hbytes, parseLoop_round hopen] at hloop
  by_cases hlt : p.length < n
  · rw [continue_of_lt hlt (by decide)] at hloop
    rcases reads_quoted a [] (34 :: rest) hlt (by simp) with ⟨⟨hnl, -, -⟩, heq⟩ | ⟨-, e, he⟩
    · have hclose : round 34 ⟨.STATE_READING_QUOTED_PARM, false, Utf8.encode a, p⟩ =
        .ok (some ⟨.STATE_INITIAL, false, [], p ++ [Utf8.encode a]⟩) := rfl
      have hp' : ∀ w ∈ p ++ [Utf8.encode a], Good w := by
        intro w hw
        rcases List.mem_append.1 hw with hw | hw
        · exact hp w hw
        · exact .inr ⟨a, hq, hnl, List.mem_singleton.1 hw⟩
      rw [heq, List.nil_append] at hloop
      rcases parseLoop_next hclose hloop with hfinish | hloop
      · obtain ⟨-, rfl⟩ := finish_ok hfinish
        exact hp'
      · exact h _ hp' r hloop
    · rw [he] at hloop
      cases hloop
  · unfold continue' at hloop
    rw [if_pos (.inl (not_lt.1 hlt))] at hloop
    cases (finish_ok hloop).1

/-- A word and white space behind it. -/
theorem Reads.word (a : List Char) (hb : OpenVpn.space b = true) (h : Reads n rest) :
    Reads n (Utf8.encode (openVpnEscape a) ++ b :: rest) := by
  by_cases hq : Quoted a
  · exact (h.space hb).quoted hq
  · rw [openVpnEscape_eq, if_neg hq]
    exact (Reads.append (plain_encode hq) (h.space hb) (.space hb h)).1

theorem reads_optionLine (n : ℕ) (args : List (List Char)) : Reads n (Utf8.encode (ConfigParser.optionLine args) ++ [0]) := by
  induction args with
  | nil => exact .space (b := 10) (by decide) (.space (by decide) (.nil n))
  | cons a args ih =>
    rw [encode_optionLine]
    exact ih.word a (by decide)

/-- A good parameter that is a word is one that a line can carry. -/
theorem carried_of_good (h : Good (Utf8.encode a)) (hfits : (Utf8.encode a).length ≤ OPTION_PARM_SIZE)
    (hzero : 0 ∉ Utf8.encode a) : Carried a := by
  have hzero' : '\x00' ∉ a := fun hmem => hzero ((Utf8.mem_encode (d := '\x00') (by decide)).2 hmem)
  by_cases hq : Quoted a
  · refine ⟨?_, hzero', hfits, .inl hq⟩
    intro hnl
    have hbyte : (10 : Byte) ∈ Utf8.encode a := (Utf8.mem_encode (d := '\n') (by decide)).2 hnl
    rcases h with ⟨-, hunbroken⟩ | ⟨a', -, hnone, heq⟩
    · cases hunbroken 10 hbyte
    · rw [heq] at hbyte
      exact hnone ((Utf8.mem_encode (d := '\n') (by decide)).1 hbyte)
  · have hplain := plain_encode hq
    have hunbroken : ∀ b ∈ Utf8.encode a, space b = false := by
      rcases h with ⟨-, hunbroken⟩ | ⟨a', hq', hnone, heq⟩
      · exact hunbroken
      · -- the bytes are those of a quoted word, so one of them is special
        exfalso
        rcases hq' with rfl | ⟨c, hc, hspecial⟩
        · exact hq (.inl (Utf8.encode_eq_nil.1 heq))
        · have hlt : c.toNat < 128 := by rcases hspecial with rfl | rfl | rfl | rfl | rfl | rfl | rfl <;> decide
          have hbyte := (Utf8.mem_encode hlt).2 hc
          rw [← heq, Utf8.mem_encode hlt] at hbyte
          exact hq (.inr ⟨c, hbyte, hspecial⟩)
    have hnl : '\n' ∉ a := fun hmem => hq (.inr ⟨_, hmem, by decide⟩)
    exact ⟨hnl, hzero', hfits, .inr ((unbroken_iff hq).1 hunbroken).2⟩

theorem optionLine_of_carried {args : List (List Char)} (hlen : args.length ≤ MAX_PARMS) (h : ∀ a ∈ args, Carried a) :
    parse_line (Utf8.encode (ConfigParser.optionLine args)) MAX_PARMS = .ok (args.map Utf8.encode) :=
  reads_line h (by decide) (by simpa using hlen)

theorem carried_of_optionLine {args : List (List Char)}
    (h : parse_line (Utf8.encode (ConfigParser.optionLine args)) MAX_PARMS = .ok (args.map Utf8.encode)) :
    args.length ≤ MAX_PARMS ∧ ∀ a ∈ args, Carried a := by
  obtain ⟨hlen, hbounds⟩ := parseLoop_bounded (n := MAX_PARMS) (s := {}) ⟨⟨by simp, by simp⟩, by simp⟩ (by simp) h
    (fun _ => by decide)
  rw [List.length_map] at hlen
  refine ⟨hlen, fun a ha => ?_⟩
  obtain ⟨hfits, hzero⟩ := hbounds _ (List.mem_map_of_mem ha)
  exact carried_of_good (reads_optionLine MAX_PARMS args [] (by simp) _ h _ (List.mem_map_of_mem ha)) hfits hzero

/-- **An option line is read as it was meant** iff it has no more words than `openvpn` takes, and a line can carry
each of them. -/
theorem parse_line_optionLine_iff (args : List (List Char)) :
    parse_line (Utf8.encode (ConfigParser.optionLine args)) MAX_PARMS = .ok (args.map Utf8.encode) ↔
      args.length ≤ MAX_PARMS ∧ ∀ a ∈ args, Carried a :=
  ⟨carried_of_optionLine, fun h => optionLine_of_carried h.1 h.2⟩

/-- A tab is not quoted, so a word with one is read as two. -/
example : parse_line (Utf8.encode (ConfigParser.optionLine ["a\tb".toList])) MAX_PARMS = .ok [[97], [98]] := rfl

/-! ## Commands -/

theorem reads_squoted {bs : Bytes} (h : ∀ b ∈ bs, b ≠ 0 ∧ b ≠ 39) (hp : p.length < n)
    (hfits : parm.length + bs.length ≤ OPTION_PARM_SIZE) :
    parseLoop n (bs ++ rest) ⟨.STATE_READING_SQUOTED_PARM, false, parm, p⟩ =
      parseLoop n rest ⟨.STATE_READING_SQUOTED_PARM, false, parm ++ bs, p⟩ := by
  induction bs generalizing parm with
  | nil => simp
  | cons b bs ih =>
    rw [List.forall_mem_cons] at h
    rw [List.length_cons] at hfits
    have hround : round b ⟨.STATE_READING_SQUOTED_PARM, false, parm, p⟩ =
        .ok (some ⟨.STATE_READING_SQUOTED_PARM, false, parm ++ [b], p⟩) := by
      have hnext : next b ⟨.STATE_READING_SQUOTED_PARM, false, parm, p⟩ = some (.STATE_READING_SQUOTED_PARM, b) :=
        if_neg h.1.2
      have hroom : ¬ OPTION_PARM_SIZE ≤ parm.length := by omega
      unfold round
      rw [if_neg (by simp), hnext]
      exact (if_neg (by simp [finishParm])).trans ((if_neg h.1.1).trans (if_neg hroom))
    rw [List.cons_append, parseLoop_round hround, continue_of_lt hp h.1.1, ih h.2, List.append_assoc, List.singleton_append]
    rw [List.length_append, List.length_singleton]
    omega

/-- A word in single quotes. -/
theorem reads_squoted_word (hsquote : '\'' ∉ a) (hzero : '\x00' ∉ a) (hfits : (Utf8.encode a).length ≤ OPTION_PARM_SIZE)
    (hp : p.length + 1 < n) :
    parseLoop n (39 :: (Utf8.encode a ++ 39 :: rest)) ⟨.STATE_INITIAL, false, [], p⟩ =
      parseLoop n rest ⟨.STATE_INITIAL, false, [], p ++ [Utf8.encode a]⟩ := by
  have hopen : round 39 ⟨.STATE_INITIAL, false, [], p⟩ = .ok (some ⟨.STATE_READING_SQUOTED_PARM, false, [], p⟩) := rfl
  have hclose : round 39 ⟨.STATE_READING_SQUOTED_PARM, false, Utf8.encode a, p⟩ =
    .ok (some ⟨.STATE_INITIAL, false, [], p ++ [Utf8.encode a]⟩) := rfl
  have hbytes : ∀ b ∈ Utf8.encode a, b ≠ 0 ∧ b ≠ 39 := by
    intro b hb
    constructor
    · rintro rfl
      exact hzero ((Utf8.mem_encode (d := '\x00') (by decide)).1 hb)
    · rintro rfl
      exact hsquote ((Utf8.mem_encode (d := '\'') (by decide)).1 hb)
  rw [parseLoop_round hopen, continue_of_lt (by simp only; omega) (by decide), reads_squoted hbytes (by omega) (by simpa using hfits),
    List.nil_append, parseLoop_round hclose, continue_of_lt (by simpa using hp) (by decide)]

end OpenVpn

namespace OpenVpnManagementThread

open OpenVpn

variable {profile : Profile} {argument kind need text cmd : List Char}

/-- What the commands are about. -/
def Needs (need : List Char) : Prop :=
  need = "Private Key".toList ∨ need = "Auth".toList ∨ need = "HTTP Proxy".toList

/-- A command without its line break. -/
def command (kind need text : List Char) : List Char := kind ++ " '".toList ++ need ++ "' ".toList ++ openVpnEscape text

theorem carried_kind (h : kind = "username".toList ∨ kind = "password".toList) : ¬ Quoted kind ∧ Carried kind := by
  rcases h with rfl | rfl <;> decide +kernel

theorem fits_need (h : Needs need) :
    '\'' ∉ need ∧ '\x00' ∉ need ∧ '\n' ∉ need ∧ (Utf8.encode need).length ≤ OPTION_PARM_SIZE := by
  rcases h with rfl | rfl | rfl <;> decide +kernel

/-- The words of a command. -/
theorem parse_line_command (hkind : kind = "username".toList ∨ kind = "password".toList) (hneed : Needs need)
    (text : List Char) :
    parse_line (Utf8.encode (command kind need text)) MAX_PARMS =
        .ok [Utf8.encode kind, Utf8.encode need, Utf8.encode text] ↔ Carried text := by
  have hkind' := carried_kind hkind
  have hneed' := fits_need hneed
  have hstart : parse_line (Utf8.encode (command kind need text)) MAX_PARMS =
      parseLoop MAX_PARMS (Utf8.encode (openVpnEscape text) ++ [0])
        ⟨.STATE_INITIAL, false, [], [Utf8.encode kind, Utf8.encode need]⟩ := by
    have hword : openVpnEscape kind = kind := by rw [openVpnEscape_eq, if_neg hkind'.1]
    have hbytes : Utf8.encode (command kind need text) ++ [0] = Utf8.encode (openVpnEscape kind) ++
        32 :: 39 :: (Utf8.encode need ++ 39 :: 32 :: (Utf8.encode (openVpnEscape text) ++ [0])) := by
      unfold command
      rw [hword]
      simp only [Utf8.encode_append, List.append_assoc]
      rfl
    unfold parse_line
    rw [hbytes]
    exact (reads_word hkind'.2 (Nat.succ_pos 15) (by decide)).trans
      ((continue_of_lt (by simp [MAX_PARMS]) (by decide)).trans
        ((reads_squoted_word hneed'.1 hneed'.2.1 hneed'.2.2.2 (by simp [MAX_PARMS])).trans
          ((parseLoop_round (round_initial_space (by decide))).trans (continue_of_lt (by simp [MAX_PARMS]) (by decide)))))
  rw [hstart]
  constructor
  · intro h
    have hgood : ∀ w ∈ [Utf8.encode kind, Utf8.encode need], Good w := by
      intro w hw
      rcases List.mem_cons.1 hw with rfl | hw
      · left
        have hunbroken := (unbroken_iff hkind'.1).2 ⟨hkind'.2.zero, hkind'.2.space.resolve_left hkind'.1⟩
        exact ⟨fun hnil => hkind'.1 (.inl (Utf8.encode_eq_nil.1 hnil)), hunbroken⟩
      · obtain rfl := List.mem_singleton.1 hw
        rcases hneed with rfl | rfl | rfl
        · exact .inr ⟨_, .inr ⟨' ', by simp, by decide⟩, by simp, rfl⟩
        · exact .inl (by decide)
        · exact .inr ⟨_, .inr ⟨' ', by simp, by decide⟩, by simp, rfl⟩
    have hbounded : Bounded ⟨.STATE_INITIAL, false, [], [Utf8.encode kind, Utf8.encode need]⟩ := by
      refine ⟨⟨by simp, by simp⟩, ?_⟩
      intro w hw
      have hzero : ∀ {a : List Char}, '\x00' ∉ a → (0 : Byte) ∉ Utf8.encode a := fun ha hmem =>
        ha ((Utf8.mem_encode (d := '\x00') (by decide)).1 hmem)
      rcases List.mem_cons.1 hw with rfl | hw
      · exact ⟨hkind'.2.fits, hzero hkind'.2.zero⟩
      · obtain rfl := List.mem_singleton.1 hw
        exact ⟨hneed'.2.2.2, hzero hneed'.2.1⟩
    have hread : Reads MAX_PARMS (Utf8.encode (openVpnEscape text) ++ [0]) := Reads.word text (by decide) (.nil _)
    obtain ⟨hfits, hzero⟩ := (parseLoop_bounded hbounded (by simp [MAX_PARMS]) h fun _ => by simp [MAX_PARMS]).2
      (Utf8.encode text) (by simp)
    exact carried_of_good (hread _ hgood _ h _ (by simp)) hfits hzero
  · intro h
    rw [reads_word h (by simp [MAX_PARMS]) (by decide)]
    exact if_pos (.inr rfl)

theorem newline_openVpnEscape (text : List Char) : '\n' ∉ openVpnEscape text := by
  rw [openVpnEscape_eq]
  split
  · intro h
    simp only [List.mem_append, List.mem_singleton, List.mem_flatMap] at h
    rcases h with (h | ⟨c, -, h⟩) | h
    · cases h
    · unfold escapeChar at h
      split_ifs at h with h1 h2 h3
      · simp at h
      · simp at h
      · simp at h
      · exact h3 (List.mem_singleton.1 h).symm
    · cases h
  · rename_i hq
    intro h
    exact hq (.inr ⟨_, h, by decide⟩)

/-- A command is one line. -/
theorem newline_command (hkind : kind = "username".toList ∨ kind = "password".toList) (hneed : Needs need)
    (text : List Char) : '\n' ∉ command kind need text := by
  unfold command
  simp only [List.mem_append, not_or]
  refine ⟨⟨⟨⟨?_, by decide⟩, ?_⟩, by decide⟩, newline_openVpnEscape text⟩
  · exact (carried_kind hkind).2.newline
  · exact (fits_need hneed).2.2.1

theorem needs_of_password {pw : List Char} (h : (profile.credentials need).password = some pw) : Needs need := by
  unfold Profile.credentials at h
  split_ifs at h with h1 h2 h3
  · exact .inl h1
  · exact .inr (.inl h2)
  · exact .inr (.inr h3)

/-- **A password is one word of one line.** Each command that `processPWCommand` sends is a single line, whatever
the user name and the password are, and it is for what is needed. `openvpn` reads it as the user name or the password
that the profile has for that iff a line can carry this text; no other text is taken for it. This is about
`parse_line` alone: `command_line_add` has dropped control characters from the line before. -/
theorem processPWCommand_read (profile : Profile) (argument : List Char) :
    ∀ cmd ∈ processPWCommand profile argument, ∃ kind need text,
      cmd = command kind need text ++ ['\n'] ∧ '\n' ∉ command kind need text ∧ needed argument = some need ∧
      (kind = "username".toList ∧ (profile.credentials need).username = some text ∨
        kind = "password".toList ∧ (profile.credentials need).password = some text) ∧
      (parse_line (Utf8.encode (command kind need text)) MAX_PARMS =
        .ok [Utf8.encode kind, Utf8.encode need, Utf8.encode text] ↔ Carried text) := by
  intro cmd hcmd
  unfold processPWCommand at hcmd
  split at hcmd
  · cases hcmd
  · cases hneed : needed argument with
    | none =>
      rw [hneed] at hcmd
      cases hcmd
    | some need =>
      rw [hneed] at hcmd
      simp only at hcmd
      split at hcmd
      · cases hcmd
      · cases hpw : (profile.credentials need).password with
        | none =>
          rw [hpw] at hcmd
          cases hcmd
        | some pw =>
          rw [hpw] at hcmd
          have hneeds := needs_of_password hpw
          rcases List.mem_append.1 hcmd with hcmd | hcmd
          · obtain ⟨username, huser, rfl⟩ := Option.map_eq_some_iff.1 (Option.mem_toList.1 hcmd)
            exact ⟨_, need, username, rfl, newline_command (.inl rfl) hneeds username, rfl, .inl ⟨rfl, huser⟩,
              parse_line_command (.inl rfl) hneeds username⟩
          · obtain rfl := List.mem_singleton.1 hcmd
            exact ⟨_, need, pw, rfl, newline_command (.inr rfl) hneeds pw, rfl, .inr ⟨rfl, hpw⟩,
              parse_line_command (.inr rfl) hneeds pw⟩

theorem processPWCommand_read_auth : ∃ kind need text,
    "password 'Auth' \"a b\"\n".toList = command kind need text ++ ['\n'] ∧ '\n' ∉ command kind need text := by
  obtain ⟨kind, need, text, hcmd, hline, -⟩ := processPWCommand_read { auth := ⟨some ['u'], some ['a', ' ', 'b']⟩ }
    "Need 'Auth' username/password".toList "password 'Auth' \"a b\"\n".toList (by decide)
  exact ⟨kind, need, text, hcmd, hline⟩

end OpenVpnManagementThread

end SmartTunnel
