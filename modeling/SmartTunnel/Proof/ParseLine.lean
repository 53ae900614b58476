import SmartTunnel.Proof.ConfigLine

/-!
# `parseline` and `parse_line`

The app adapted `parse_line`, and on a line without backslashes the two read the same: what `openvpn` reads of such
a line the app reads too (`Same` is what the two loops keep). So an option that the app imports and writes again is
read by `openvpn` as it was in the file, exactly when its words can be carried (`import_preserves`). With a backslash
the app reads something else: it stores the character before it twice.
-/

namespace SmartTunnel

open Jvm OpenVpn

namespace ConfigParser

variable {n : ℕ} {c : Char} {cs line : List Char} {j j' : Parsing} {s s' : Line} {rest : Bytes} {r : List Bytes}
  {state : LineState}

/-! ## Characters and their bytes -/

/-- What both take for white space is the same, and nothing is escaped. -/
structure Common (c : Char) : Prop where
  backslash : c ≠ '\\'
  zero : c ≠ '\x00'
  space : isWhitespace c = true → c.toNat = 32 ∨ 9 ≤ c.toNat ∧ c.toNat ≤ 13

instance (c : Char) : Decidable (Common c) :=
  decidable_of_iff (_ ∧ _ ∧ _) ⟨fun h => ⟨h.1, h.2.1, h.2.2⟩, fun h => ⟨h.1, h.2, h.3⟩⟩

theorem byte_ne {d : Char} (hd : d.toNat < 128) (h : c ≠ d) : ∀ b ∈ Utf8.encodeChar c, b ≠ BitVec.ofNat 8 d.toNat := by
  rintro b hb rfl
  have := (Utf8.mem_encode (s := [c]) hd).1 (by simpa using hb)
  exact h (List.mem_singleton.1 this).symm

theorem isWhitespace_of_range (h : c.toNat = 32 ∨ 9 ≤ c.toNat ∧ c.toNat ≤ 13) : isWhitespace c = true := by
  unfold isWhitespace
  simp only [Bool.or_eq_true, Bool.and_eq_true, decide_eq_true_eq, beq_iff_eq]
  omega

/-- Of a character that is not white space no byte is. -/
theorem byte_space_false (h : ConfigParser.space c = false) : ∀ b ∈ Utf8.encodeChar c, OpenVpn.space b = false := by
  intro b hb
  by_contra hspace
  rw [Bool.not_eq_false] at hspace
  obtain ⟨d, hd, hdb⟩ := exists_of_space (a := [c]) (by simpa using hb) hspace
  obtain rfl := List.mem_singleton.1 hd
  simp only [ConfigParser.space, Bool.or_eq_false_iff, beq_eq_false_iff_ne] at h
  simp only [OpenVpn.space, Bool.or_eq_true, beq_iff_eq, Bool.and_eq_true, decide_eq_true_eq] at hspace
  have hwhite : ¬ (d.toNat = 32 ∨ 9 ≤ d.toNat ∧ d.toNat ≤ 13) := by
    intro hrange
    rw [isWhitespace_of_range hrange] at h
    cases h.1
  rcases hspace with (rfl | rfl) | hrange
  · exact h.2 (Char.toNat_inj.1 hdb)
  · exact hwhite (.inl hdb)
  · exact hwhite (.inr (by omega))

/-- White space that both know is one byte. -/
theorem byte_space (h : Common c) (hspace : ConfigParser.space c = true) :
    ∃ b, Utf8.encodeChar c = [b] ∧ OpenVpn.space b = true := by
  simp only [ConfigParser.space, Bool.or_eq_true, beq_iff_eq] at hspace
  have hrange := h.space (hspace.resolve_right h.zero)
  refine ⟨_, Utf8.encodeChar_ascii (by omega), ?_⟩
  simp only [OpenVpn.space, Bool.or_eq_true, beq_iff_eq, Bool.and_eq_true, decide_eq_true_eq, BitVec.toNat_ofNat]
  rcases hrange with hc | hc
  · left
    right
    rw [hc]
    rfl
  · right
    omega

/-! ## The two loops -/

def stateOf : Linestate → LineState
  | .initial => .STATE_INITIAL
  | .readin_single_quote => .STATE_READING_SQUOTED_PARM
  | .reading_quoted => .STATE_READING_QUOTED_PARM
  | .reading_unquoted => .STATE_READING_UNQUOTED_PARM
  | .done => .STATE_DONE

/-- The loops have read the same. -/
structure Same (j : Parsing) (s : Line) : Prop where
  state : stateOf j.state = s.state ∧ j.state ≠ .done
  backslash : j.backslash = false ∧ s.backslash = false
  currentarg : Utf8.encode j.currentarg = s.parm
  parameters : j.parameters.map Utf8.encode = s.p
  initial : j.state = .initial → j.out = '\x00' ∧ j.currentarg = []

/-- How the loop of `parse_line` goes on. -/
def Goes (n : ℕ) (rest : Bytes) (s : Line) (r : List Bytes) : Prop :=
  finish s = .ok r ∧ n ≤ s.p.length ∨ s.p.length < n ∧ parseLoop n rest s = .ok r

/-- A byte that is stored where it stands. -/
structure Stored (state : LineState) (b : Byte) : Prop where
  next : ∀ parm p, OpenVpn.next b ⟨state, false, parm, p⟩ = some (state, b)
  zero : b ≠ 0
  backslash : b ≠ 92

/-- A parameter goes on, as far as there is room for it. -/
theorem stores {bs parm : Bytes} {p : List Bytes} (hstate : state ≠ .STATE_DONE) (h : ∀ b ∈ bs, Stored state b)
    (hp : p.length < n) (hloop : parseLoop n (bs ++ rest) ⟨state, false, parm, p⟩ = .ok r) :
    parseLoop n rest ⟨state, false, parm ++ bs, p⟩ = .ok r := by
  induction bs generalizing parm with
  | nil => simpa using hloop
  | cons b bs ih =>
    rw [List.forall_mem_cons] at h
    have hround : OpenVpn.round b ⟨state, false, parm, p⟩ =
        if OPTION_PARM_SIZE ≤ parm.length then .error .tooLong else .ok (some ⟨state, false, parm ++ [b], p⟩) := by
      have hbs := h.1.backslash
      have hfinish : finishParm ⟨state, false, parm, p⟩ = ⟨state, false, parm, p⟩ := if_neg hstate
      unfold OpenVpn.round
      rw [if_neg (by simp_all), h.1.next]
      simp only [hfinish]
      exact (if_neg (by simp)).trans (if_neg h.1.zero)
    split at hround
    · rw [List.cons_append, parseLoop_error hround] at hloop
      cases hloop
    · rw [List.cons_append, parseLoop_round hround, continue_of_lt hp h.1.zero] at hloop
      rw [← List.singleton_append, ← List.append_assoc]
      exact ih h.2 hloop

theorem stored_encodeChar (hc : Common c) (hnext : ∀ b ∈ Utf8.encodeChar c, ∀ parm p,
    OpenVpn.next b ⟨state, false, parm, p⟩ = some (state, b)) : ∀ b ∈ Utf8.encodeChar c, Stored state b :=
  fun b hb => ⟨hnext b hb, byte_ne (d := '\x00') (by decide) hc.zero b hb, byte_ne (d := '\\') (by decide) hc.backslash b hb⟩

/-- What a round of `parseline` that ends in `o` leads to. -/
def after (j : Parsing) (o : Linestate × Char) : Parsing := store (finishArg { j with state := o.1, out := o.2 })

/-- A round of `parseline` without a backslash. -/
theorem round_eq (hb : j.backslash = false) (hc : c ≠ '\\') :
    round c j = .ok ((next c j).map (after j)) := by
  unfold round
  rw [if_neg (by simp [hc])]
  cases hnext : next c j with
  | none => rfl
  | some o =>
    have hfinish : (finishArg { j with state := o.1, out := o.2 }).backslash = false := by
      unfold finishArg
      split <;> exact hb
    simp only [hfinish, Bool.false_eq_true, false_and, if_false, Option.map_some]
    congr 3
    rw [← hfinish]

theorem Goes.of_loop {b : Byte} (hround : OpenVpn.round b s = .ok (some s')) (hb : b ≠ 0)
    (hloop : parseLoop n (b :: rest) s = .ok r) : Goes n rest s' r := by
  rw [parseLoop_round hround] at hloop
  unfold continue' at hloop
  split at hloop
  · rename_i hn
    exact .inl ⟨hloop, hn.resolve_right hb⟩
  · rename_i hn
    exact .inr ⟨not_le.1 (not_or.1 hn).1, hloop⟩

/-- The step that both loops take. -/
def Steps (n : ℕ) (rest : Bytes) (c : Char) (j : Parsing) (r : List Bytes) : Prop :=
  ∃ j' s', (next c j).map (after j) = some j' ∧ Same j' s' ∧ Goes n rest s' r

variable {jstate : Linestate} {jout : Char} {jarg : List Char} {jparams : List (List Char)}

/-- A character inside a word. -/
theorem steps_inside (hstate : jstate ≠ .initial ∧ jstate ≠ .done) (hc : Common c)
    (hnext : next c ⟨jstate, false, jout, jarg, jparams⟩ = some (jstate, c))
    (hbytes : ∀ b ∈ Utf8.encodeChar c, ∀ parm p, OpenVpn.next b ⟨stateOf jstate, false, parm, p⟩ = some (stateOf jstate, b))
    (hp : (jparams.map Utf8.encode).length < n) (hloop : parseLoop n (Utf8.encodeChar c ++ rest)
      ⟨stateOf jstate, false, Utf8.encode jarg, jparams.map Utf8.encode⟩ = .ok r) :
    Steps n rest c ⟨jstate, false, jout, jarg, jparams⟩ r := by
  have hdone : stateOf jstate ≠ .STATE_DONE := by
    cases jstate with
    | done => exact absurd rfl hstate.2
    | _ => decide
  have hafter : after ⟨jstate, false, jout, jarg, jparams⟩ (jstate, c) = ⟨jstate, false, c, jarg ++ [c], jparams⟩ := by
    have hfinish : finishArg ⟨jstate, false, c, jarg, jparams⟩ = ⟨jstate, false, c, jarg, jparams⟩ := if_neg hstate.2
    unfold after
    rw [hfinish]
    exact if_pos hc.zero
  refine ⟨_, ⟨stateOf jstate, false, Utf8.encode jarg ++ Utf8.encodeChar c, jparams.map Utf8.encode⟩,
    (congrArg (Option.map _) hnext).trans (congrArg some hafter), ?_, .inr ⟨hp, stores hdone (stored_encodeChar hc hbytes) hp hloop⟩⟩
  exact ⟨⟨rfl, hstate.2⟩, ⟨rfl, rfl⟩, by simp, rfl, fun hinitial => absurd hinitial hstate.1⟩

/-- What ends a word. -/
theorem steps_end {b : Byte} (hc : Utf8.encodeChar c = [b]) (hb : b ≠ 0)
    (hnext : next c ⟨jstate, false, jout, jarg, jparams⟩ = some (.done, jout))
    (hround : OpenVpn.round b ⟨stateOf jstate, false, Utf8.encode jarg, jparams.map Utf8.encode⟩ =
      .ok (some ⟨.STATE_INITIAL, false, [], jparams.map Utf8.encode ++ [Utf8.encode jarg]⟩))
    (hloop : parseLoop n (Utf8.encodeChar c ++ rest) ⟨stateOf jstate, false, Utf8.encode jarg, jparams.map Utf8.encode⟩ = .ok r) :
    Steps n rest c ⟨jstate, false, jout, jarg, jparams⟩ r := by
  rw [hc] at hloop
  refine ⟨⟨.initial, false, '\x00', [], jparams ++ [jarg]⟩, _, (congrArg (Option.map _) hnext).trans rfl, ?_,
    .of_loop hround hb hloop⟩
  exact ⟨⟨rfl, by simp⟩, ⟨rfl, rfl⟩, rfl, by simp, fun _ => ⟨rfl, rfl⟩⟩

/-- What leads to a state in which nothing is stored yet. -/
theorem steps_start (jstate : Linestate) {b : Byte} (hstate : jstate ≠ .done) (hc : Utf8.encodeChar c = [b]) (hb : b ≠ 0)
    (hnext : next c ⟨.initial, false, '\x00', [], jparams⟩ = some (jstate, '\x00'))
    (hround : OpenVpn.round b ⟨.STATE_INITIAL, false, [], jparams.map Utf8.encode⟩ =
      .ok (some ⟨stateOf jstate, false, [], jparams.map Utf8.encode⟩))
    (hloop : parseLoop n (Utf8.encodeChar c ++ rest) ⟨.STATE_INITIAL, false, [], jparams.map Utf8.encode⟩ = .ok r) :
    Steps n rest c ⟨.initial, false, '\x00', [], jparams⟩ r := by
  have hafter : after ⟨.initial, false, '\x00', [], jparams⟩ (jstate, '\x00') = ⟨jstate, false, '\x00', [], jparams⟩ := by
    unfold after
    exact congrArg store (if_neg hstate)
  rw [hc] at hloop
  refine ⟨_, _, (congrArg (Option.map _) hnext).trans (congrArg some hafter), ?_, .of_loop hround hb hloop⟩
  exact ⟨⟨rfl, hstate⟩, ⟨rfl, rfl⟩, rfl, rfl, fun _ => ⟨rfl, rfl⟩⟩

/-- The first character of a word without quotes. -/
theorem steps_word (hc : Common c) (hspace : ConfigParser.space c = false) (hcomment : c ≠ ';' ∧ c ≠ '#')
    (hquote : c ≠ '"' ∧ c ≠ '\'') (hp : (jparams.map Utf8.encode).length < n)
    (hloop : parseLoop n (Utf8.encodeChar c ++ rest) ⟨.STATE_INITIAL, false, [], jparams.map Utf8.encode⟩ = .ok r) :
    Steps n rest c ⟨.initial, false, '\x00', [], jparams⟩ r := by
  have hspaces := byte_space_false hspace
  have hplain : ∀ b ∈ Utf8.encodeChar c, Plain b := fun b hb =>
    ⟨byte_ne (d := '\\') (by decide) hc.backslash b hb, byte_ne (d := '"') (by decide) hquote.1 b hb,
      byte_ne (d := '\'') (by decide) hquote.2 b hb, byte_ne (d := ';') (by decide) hcomment.1 b hb,
      byte_ne (d := '#') (by decide) hcomment.2 b hb⟩
  have hnext : next c ⟨.initial, false, '\x00', [], jparams⟩ = some (.reading_unquoted, c) := by
    unfold next
    simp [hspace, hcomment.1, hcomment.2, hquote.1, hquote.2]
  have hafter : after ⟨.initial, false, '\x00', [], jparams⟩ (.reading_unquoted, c) =
      ⟨.reading_unquoted, false, c, [c], jparams⟩ := by
    unfold after
    exact (congrArg store (if_neg (by simp))).trans (if_pos hc.zero)
  obtain ⟨x, bs, hbytes⟩ := List.exists_cons_of_ne_nil (Utf8.encodeChar_ne_nil c)
  have hstored : ∀ b ∈ bs, Stored .STATE_READING_UNQUOTED_PARM b := by
    intro b hb
    have hmem : b ∈ Utf8.encodeChar c := hbytes ▸ List.mem_cons_of_mem _ hb
    exact ⟨fun _ _ => if_neg (by simpa using hspaces b hmem), ne_zero_of_space (hspaces b hmem), (hplain b hmem).backslash⟩
  have hx : x ∈ Utf8.encodeChar c := hbytes ▸ List.mem_cons_self
  rw [hbytes, List.cons_append, parseLoop_round (round_initial_plain (hplain x hx) (hspaces x hx)),
    continue_of_lt hp (ne_zero_of_space (hspaces x hx))] at hloop
  refine ⟨_, _, (congrArg (Option.map _) hnext).trans (congrArg some hafter), ?_, .inr ⟨hp, stores (by decide) hstored hp hloop⟩⟩
  exact ⟨⟨rfl, by simp⟩, ⟨rfl, rfl⟩, by simp [hbytes], rfl, by simp⟩

/-- **A character is read the same**, unless it starts a comment. -/
theorem Same.step (h : Same j s) (hc : Common c) (hp : s.p.length < n)
    (hloop : parseLoop n (Utf8.encodeChar c ++ rest) s = .ok r) : (next c j = none ∧ r = s.p) ∨ Steps n rest c j r := by
  obtain ⟨jstate, jbackslash, jout, jarg, jparams⟩ := j
  obtain ⟨cstate, cbackslash, parm, p⟩ := s
  obtain ⟨⟨rfl, hdone⟩, ⟨rfl, rfl⟩, rfl, rfl, hinitial⟩ := h
  have hzero : ∀ b ∈ Utf8.encodeChar c, b ≠ 0 := byte_ne (d := '\x00') (by decide) hc.zero
  cases jstate with
  | done => exact absurd rfl hdone
  | initial =>
    obtain ⟨hout, harg⟩ := hinitial rfl
    simp only at hout harg
    subst hout harg
    cases hspace : ConfigParser.space c with
    | true =>
      obtain ⟨b, hb, hbspace⟩ := byte_space hc hspace
      exact .inr (steps_start _ (by decide) hb (hzero b (by simp [hb])) (if_pos hspace) (round_initial_space hbspace) hloop)
    | false =>
      by_cases hcomment : c = ';' ∨ c = '#'
      · left
        have hnext : next c ⟨.initial, false, '\x00', [], jparams⟩ = none := by
          unfold next
          simp [hspace, hcomment]
        refine ⟨hnext, ?_⟩
        rcases hcomment with rfl | rfl
        all_goals
          rcases parseLoop_ok hloop with ⟨-, hfinish⟩ | ⟨s', hround, -⟩
          · exact (finish_ok hfinish).2
          · cases hround
      · right
        by_cases hquote : c = '"'
        · subst hquote
          exact steps_start .reading_quoted (by decide) rfl (by decide) rfl rfl hloop
        · by_cases hsquote : c = '\''
          · subst hsquote
            exact steps_start .readin_single_quote (by decide) rfl (by decide) rfl rfl hloop
          · exact steps_word hc hspace (not_or.1 hcomment) ⟨hquote, hsquote⟩ hp hloop
  | reading_unquoted =>
    right
    cases hspace : ConfigParser.space c with
    | true =>
      obtain ⟨b, hb, hbspace⟩ := byte_space hc hspace
      exact steps_end hb (hzero b (by simp [hb])) (if_pos (by simpa using hspace)) (round_unquoted_space hbspace) hloop
    | false =>
      exact steps_inside (by decide) hc (if_neg (by simpa using hspace))
        (fun b hb _ _ => if_neg (by simpa using byte_space_false hspace b hb)) hp hloop
  | reading_quoted =>
    right
    by_cases hquote : c = '"'
    · subst hquote
      exact steps_end (b := 34) rfl (by decide) rfl rfl hloop
    · exact steps_inside (by decide) hc (if_neg (by simpa using hquote))
        (fun b hb _ _ => if_neg (by simpa using byte_ne (d := '"') (by decide) hquote b hb)) hp hloop
  | readin_single_quote =>
    right
    by_cases hsquote : c = '\''
    · subst hsquote
      exact steps_end (b := 39) rfl (by decide) rfl rfl hloop
    · exact steps_inside (by decide) hc (if_neg hsquote)
        (fun b hb _ _ => if_neg (byte_ne (d := '\'') (by decide) hsquote b hb)) hp hloop

theorem parselineLoop_cons (hb : j.backslash = false) (hc : c ≠ '\\') : parselineLoop (c :: cs) j =
    match (next c j).map (after j) with
    | none => .ok j.parameters
    | some j' => parselineLoop cs j' := by
  rw [parselineLoop, round_eq hb hc]
  cases (next c j).map (after j) <;> rfl

/-- Behind the line both find a zero: a word without quotes is done, and one in quotes is an error for `parse_line`. -/
theorem Same.last (h : Same j s) (hloop : parseLoop n [0] s = .ok r) :
    ∃ args, parselineLoop ['\x00'] j = .ok args ∧ args.map Utf8.encode = r := by
  obtain ⟨jstate, jbackslash, jout, jarg, jparams⟩ := j
  obtain ⟨cstate, cbackslash, parm, p⟩ := s
  obtain ⟨⟨rfl, hdone⟩, ⟨rfl, rfl⟩, rfl, rfl, hinitial⟩ := h
  rw [parselineLoop_cons rfl (by decide)]
  have hfinish : ∀ {s'}, OpenVpn.round 0 ⟨stateOf jstate, false, Utf8.encode jarg, jparams.map Utf8.encode⟩ = .ok (some s') →
      finish s' = .ok r := by
    intro s' hround
    rw [parseLoop_round hround] at hloop
    unfold continue' at hloop
    rwa [if_pos (.inr rfl)] at hloop
  cases jstate with
  | done => exact absurd rfl hdone
  | initial =>
    obtain ⟨hout, harg⟩ := hinitial rfl
    simp only at hout harg
    subst hout harg
    obtain ⟨-, rfl⟩ := finish_ok (hfinish (round_initial_space rfl))
    exact ⟨jparams, rfl, rfl⟩
  | reading_unquoted =>
    obtain ⟨-, rfl⟩ := finish_ok (hfinish (round_unquoted_space rfl))
    exact ⟨jparams ++ [jarg], rfl, by simp⟩
  | reading_quoted => cases (finish_ok (hfinish rfl)).1
  | readin_single_quote => cases (finish_ok (hfinish rfl)).1

/-- A line is read the same, when `parse_line` reads it and has room for one parameter more. -/
theorem Same.run (h : Same j s) (hcs : ∀ c ∈ cs, Common c) (hp : s.p.length < n)
    (hloop : parseLoop n (Utf8.encode cs ++ [0]) s = .ok r) (hr : r.length < n) :
    ∃ args, parselineLoop (cs ++ ['\x00']) j = .ok args ∧ args.map Utf8.encode = r := by
  induction cs generalizing j s with
  | nil => exact h.last hloop
  | cons c cs ih =>
    rw [List.forall_mem_cons] at hcs
    rw [Utf8.encode_cons, List.append_assoc] at hloop
    rw [List.cons_append, parselineLoop_cons h.backslash.1 hcs.1.backslash]
    rcases h.step hcs.1 hp hloop with ⟨hnext, rfl⟩ | ⟨j', s', hnext, hsame, ⟨hfinish, hn⟩ | ⟨hp', hloop'⟩⟩
    · -- a comment
      rw [hnext]
      exact ⟨j.parameters, rfl, h.parameters⟩
    · obtain ⟨-, rfl⟩ := finish_ok hfinish
      omega
    · rw [hnext]
      exact ih hsame hcs.2 hp' hloop'

/-! ## Bytes of a line -/

theorem next_out {b out : Byte} {st : LineState} (h : OpenVpn.next b s = some (st, out)) : out = 0 ∨ out = b := by
  unfold OpenVpn.next at h
  split at h
  all_goals
    first
      | (split_ifs at h <;> simp only [Option.some.injEq, Prod.mk.injEq] at h <;> simp [← h.2])
      | (simp only [Option.some.injEq, Prod.mk.injEq] at h; simp [← h.2])

/-- What holds of the bytes of a line holds of those of its parameters. -/
theorem parseLoop_forall {P : Byte → Prop} (hs : (∀ b ∈ s.parm, P b) ∧ ∀ w ∈ s.p, ∀ b ∈ w, P b) (hrest : ∀ b ∈ rest, b ≠ 0 → P b)
    (hloop : parseLoop n rest s = .ok r) : ∀ w ∈ r, ∀ b ∈ w, P b := by
  induction rest generalizing s with
  | nil =>
    obtain ⟨-, rfl⟩ := finish_ok hloop
    exact hs.2
  | cons b rest ih =>
    rw [List.forall_mem_cons] at hrest
    have hround : ∀ s', OpenVpn.round b s = .ok (some s') → (∀ b ∈ s'.parm, P b) ∧ ∀ w ∈ s'.p, ∀ b ∈ w, P b := by
      intro s' hround
      unfold OpenVpn.round at hround
      split at hround
      · obtain rfl := Option.some.inj (Except.ok.inj hround)
        exact hs
      · split at hround
        · cases hround
        · rename_i state out hnext
          have hparm : (∀ b ∈ (finishParm { s with state := state }).parm, P b) ∧
              ∀ w ∈ (finishParm { s with state := state }).p, ∀ b ∈ w, P b := by
            unfold finishParm
            split
            · refine ⟨by simp, fun w hw => ?_⟩
              rcases List.mem_append.1 hw with hw | hw
              · exact hs.2 w hw
              · exact List.mem_singleton.1 hw ▸ hs.1
            · exact hs
          simp only at hround
          split_ifs at hround with h1 h2 h3
          · obtain rfl := Option.some.inj (Except.ok.inj hround)
            exact hparm
          · obtain rfl := Option.some.inj (Except.ok.inj hround)
            refine ⟨fun x hx => ?_, hparm.2⟩
            rcases List.mem_append.1 hx with hx | hx
            · exact hparm.1 x hx
            · obtain rfl := List.mem_singleton.1 hx
              rcases next_out hnext with rfl | rfl
              · exact absurd rfl h2
              · exact hrest.1 h2
    rcases parseLoop_ok hloop with ⟨-, hfinish⟩ | ⟨s', hstep, hfinish | ⟨-, hloop'⟩⟩
    · obtain ⟨-, rfl⟩ := finish_ok hfinish
      exact hs.2
    · obtain ⟨-, rfl⟩ := finish_ok hfinish
      exact (hround _ hstep).2
    · exact ih (hround _ hstep) hrest.2 hloop'

/-! ## Import -/

theorem parseline_of_parse_line (hline : ∀ c ∈ line, Common c) (hread : parse_line (Utf8.encode line) MAX_PARMS = .ok r)
    (hr : r.length < MAX_PARMS) : ∃ args, parseline line = .ok args ∧ args.map Utf8.encode = r := by
  unfold parseline
  by_cases hnil : line.length = 0
  · obtain rfl := List.length_eq_zero_iff.1 hnil
    exact ⟨[], rfl, Except.ok.inj hread⟩
  · rw [if_neg hnil]
    have hstart : Same {} {} := ⟨⟨rfl, by decide⟩, ⟨rfl, rfl⟩, rfl, rfl, fun _ => ⟨rfl, rfl⟩⟩
    exact hstart.run hline (by decide) hread hr

/-- **An option survives the import.** What `openvpn` reads of a line of a file, without backslashes and with fewer
parameters than it takes, the app reads too. And when the app writes these words again, `openvpn` reads them as in
the file iff each word that has white space other than the blank has a character, too, that makes it quoted. -/
theorem import_preserves (hline : ∀ c ∈ line, Common c ∧ c ≠ '\n')
    (hread : parse_line (Utf8.encode line) MAX_PARMS = .ok r) (hr : r.length < MAX_PARMS) :
    ∃ args, parseline line = .ok args ∧ args.map Utf8.encode = r ∧
      (parse_line (Utf8.encode (optionLine args)) MAX_PARMS = .ok r ↔
        ∀ a ∈ args, Quoted a ∨ ∀ c ∈ a, ¬ (9 ≤ c.toNat ∧ c.toNat ≤ 13)) := by
  obtain ⟨args, hargs, rfl⟩ := parseline_of_parse_line (fun c hc => (hline c hc).1) hread hr
  refine ⟨args, hargs, rfl, ?_⟩
  rw [List.length_map] at hr
  have hbounds := (parseLoop_bounded (n := MAX_PARMS) (s := {}) ⟨⟨by simp, by simp⟩, by simp⟩ (by simp) hread
    (fun _ => by decide)).2
  have hnewline : ∀ w ∈ args.map Utf8.encode, ∀ b ∈ w, b ≠ 10 := by
    refine parseLoop_forall (P := (· ≠ 10)) (n := MAX_PARMS) (s := {}) ⟨by simp, by simp⟩ ?_ hread
    intro b hb hzero
    rcases List.mem_append.1 hb with hb | hb
    · rintro rfl
      exact (hline _ ((Utf8.mem_encode (d := '\n') (by decide)).1 hb)).2 rfl
    · exact absurd (List.mem_singleton.1 hb) hzero
  constructor
  · exact fun h a ha => ((carried_of_optionLine h).2 a ha).space
  · intro h
    refine optionLine_of_carried hr.le fun a ha => ?_
    obtain ⟨hfits, hzero⟩ := hbounds _ (List.mem_map_of_mem ha)
    refine ⟨fun hnl => ?_, fun hnul => ?_, hfits, h a ha⟩
    · exact hnewline _ (List.mem_map_of_mem ha) 10 ((Utf8.mem_encode (d := '\n') (by decide)).2 hnl) rfl
    · exact hzero ((Utf8.mem_encode (d := '\x00') (by decide)).2 hnul)

theorem import_preserves_remote : ∃ args, parseline ['a', ' ', '\'', 'b', ' ', 'c', '\'', '#'] = .ok args ∧
    args.map Utf8.encode = [[97], [98, 32, 99]] := by
  have hline : ∀ c ∈ ['a', ' ', '\'', 'b', ' ', 'c', '\'', '#'], Common c ∧ c ≠ '\n' :=
    @of_decide_eq_true _ (List.decidableBAll _ _) rfl
  obtain ⟨args, hargs, hwords, -⟩ := import_preserves (r := [[97], [98, 32, 99]]) hline rfl (by decide)
  exact ⟨args, hargs, hwords⟩

/-- The character before a backslash is stored twice. -/
example : parseline ['f', '\\', ' ', 'g'] = .ok [['f', 'f', ' ', 'g']] := rfl

end ConfigParser

end SmartTunnel
