import SmartTunnel.Proof.Probing

/-!
# Which hosts are taken for addresses

`getIp` looks for one kind of address only, the one that `preferIpV6` names, and takes what `split` and
`parseInt` let through: numbers of any size with a sign, fewer groups than eight, and separators at the end
(`DottedInts`, `ColonInts`). Groups behind a `::` are not let through, since the piece between the colons is
empty. `literals_iff`: the texts on which this agrees with the two grammars.
-/

namespace SmartTunnel.DNSUtil

open Jvm Fueled

variable {host s : List Char}

/-! ## The grammars -/

/-- A decimal number from 0 to 255. -/
def Octet (s : List Char) : Prop := s ≠ [] ∧ (∀ c ∈ s, c.isDigit) ∧ ∃ n ≤ 255, magnitude 10 s = some n

/-- `0` to `9`, `a` to `f` and `A` to `F`. -/
def isHexDigit (c : Char) : Bool := c.isDigit || ('a' ≤ c && c ≤ 'f') || ('A' ≤ c && c ≤ 'F')

/-- One to four hexadecimal digits. -/
def Group (s : List Char) : Prop := 1 ≤ s.length ∧ s.length ≤ 4 ∧ ∀ c ∈ s, isHexDigit c

def IPv4 (host : List Char) : Prop :=
  ∃ octets : List (List Char), octets.length = 4 ∧ (∀ s ∈ octets, Octet s) ∧ host = ['.'].intercalate octets

/-- Eight groups. -/
def Full (host : List Char) : Prop :=
  ∃ groups : List (List Char), groups.length = 8 ∧ (∀ s ∈ groups, Group s) ∧ host = [':'].intercalate groups

/-- Groups, and others behind a `::` that stands for the groups that are missing. -/
structure Compressed (host : List Char) (left right : List (List Char)) : Prop where
  before : ∀ s ∈ left, Group s
  behind : ∀ s ∈ right, Group s
  short : left.length + right.length ≤ 7
  text : host = [':'].intercalate left ++ ':' :: ':' :: [':'].intercalate right

def IPv6 (host : List Char) : Prop := Full host ∨ ∃ left right, Compressed host left right

def IsLiteral (host : List Char) : Prop := IPv4 host ∨ IPv6 host

/-! ## The pieces -/

theorem Octet.isInt (h : Octet s) : IsInt 10 s := by
  obtain ⟨hne, hdigits, n, hn, hmag⟩ := h
  refine isInt_of_digits hne ⟨fun hmem => ?_, fun hmem => ?_⟩ hmag (by omega)
  · exact absurd (hdigits _ hmem) (by decide)
  · exact absurd (hdigits _ hmem) (by decide)

theorem isHexDigit_digit {c : Char} (h : isHexDigit c) : (digit c 16).isSome := by
  have hlt : c.toNat < 128 := by
    simp only [isHexDigit, Char.isDigit, Bool.or_eq_true, Bool.and_eq_true, decide_eq_true_eq] at h
    rcases h with (⟨-, hle⟩ | ⟨-, hle⟩) | ⟨-, hle⟩
    all_goals exact lt_of_le_of_lt (UInt32.le_iff_toNat_le.1 hle) (by decide)
  have hall : ∀ n < 128, isHexDigit (Char.ofNat n) → (digit (Char.ofNat n) 16).isSome := by decide
  have hc := hall c.toNat hlt
  rw [Char.ofNat_toNat] at hc
  exact hc h

theorem Group.isInt (h : Group s) : IsInt 16 s := by
  obtain ⟨hpos, hle, hhex⟩ := h
  have hne : s ≠ [] := List.ne_nil_of_length_pos hpos
  obtain ⟨n, hmag, hlt⟩ := magnitude_lt fun c hc => isHexDigit_digit (hhex c hc)
  have hpow : 16 ^ s.length ≤ 16 ^ 4 := Nat.pow_le_pow_right (by omega) hle
  refine isInt_of_digits hne ⟨fun hmem => ?_, fun hmem => ?_⟩ hmag (by omega)
  · exact absurd (hhex _ hmem) (by decide)
  · exact absurd (hhex _ hmem) (by decide)

/-- A character that is neither a digit nor a sign is in no number. -/
theorem not_mem_of_isInt {radix : ℕ} {c : Char} (h : IsInt radix s) (hminus : c ≠ '-') (hplus : c ≠ '+')
    (hdigit : digit c radix = none) : c ∉ s := by
  intro hmem
  rcases h.chars.2 c hmem with rfl | rfl | hsome
  · exact hminus rfl
  · exact hplus rfl
  · rw [hdigit] at hsome
    cases hsome

/-! ## What is taken for an address -/

/-- Numbers with the separator between them, and separators behind them. -/
structure Joined (separator : Char) (radix : ℕ) (host : List Char) (pieces : List (List Char)) (k : ℕ) : Prop where
  ints : ∀ s ∈ pieces, IsInt radix s
  text : host = [separator].intercalate pieces ++ List.replicate k separator

def DottedInts (host : List Char) : Prop := ∃ pieces k, pieces.length = 4 ∧ Joined '.' 10 host pieces k

def ColonInts (host : List Char) : Prop :=
  (∃ pieces k, pieces ≠ [] ∧ pieces.length ≤ 8 ∧ Joined ':' 16 host pieces k) ∨ ∃ k, host = List.replicate (k + 1) ':'

theorem Joined.split_eq {separator : Char} {radix k : ℕ} {pieces : List (List Char)}
    (h : Joined separator radix host pieces k) (hne : pieces ≠ []) (hseparator : ∀ s, IsInt radix s → separator ∉ s) :
    split separator host = pieces :=
  (split_eq_iff hne fun p hp => ⟨(h.ints p hp).chars.1, hseparator p (h.ints p hp)⟩).2 ⟨k, h.text⟩

theorem Joined.of_split {separator : Char} {radix : ℕ} (hpieces : ∀ s ∈ split separator host, IsInt radix s)
    (hne : split separator host ≠ []) (hseparator : ∀ s, IsInt radix s → separator ∉ s) :
    ∃ k, Joined separator radix host (split separator host) k := by
  obtain ⟨k, hk⟩ := (split_eq_iff hne fun p hp => ⟨(hpieces p hp).chars.1, hseparator p (hpieces p hp)⟩).1 rfl
  exact ⟨k, hpieces, hk⟩

theorem dot_not_mem (s : List Char) (h : IsInt 10 s) : '.' ∉ s :=
  not_mem_of_isInt h (by decide) (by decide) (by decide)

theorem colon_not_mem (s : List Char) (h : IsInt 16 s) : ':' ∉ s :=
  not_mem_of_isInt h (by decide) (by decide) (by decide)

theorem hostIsIp_false_iff (host : List Char) : hostIsIp host false = true ↔ DottedInts host := by
  have hsplit : hostIsIp host false = true ↔
      (split '.' host).length = 4 ∧ ∀ s ∈ split '.' host, IsInt 10 s := by
    simp [hostIsIp]
  rw [hsplit]
  constructor
  · rintro ⟨hlen, hints⟩
    have hne : split '.' host ≠ [] := List.ne_nil_of_length_pos (by omega)
    obtain ⟨k, hk⟩ := Joined.of_split hints hne dot_not_mem
    exact ⟨_, k, hlen, hk⟩
  · rintro ⟨pieces, k, hlen, h⟩
    rw [h.split_eq (List.ne_nil_of_length_pos (by omega)) dot_not_mem]
    exact ⟨hlen, h.ints⟩

theorem hostIsIp_true_iff (host : List Char) : hostIsIp host true = true ↔ ColonInts host := by
  have hsplit : hostIsIp host true = true ↔
      (split ':' host).length ≤ 8 ∧ ∀ s ∈ split ':' host, IsInt 16 s := by
    simp [hostIsIp]
  rw [hsplit]
  constructor
  · rintro ⟨hlen, hints⟩
    by_cases hne : split ':' host = []
    · exact .inr (split_eq_nil_iff.1 hne)
    · obtain ⟨k, hk⟩ := Joined.of_split hints hne colon_not_mem
      exact .inl ⟨_, k, hne, hlen, hk⟩
  · rintro (⟨pieces, k, hne, hlen, h⟩ | hcolons)
    · rw [h.split_eq hne colon_not_mem]
      exact ⟨hlen, h.ints⟩
    · rw [split_eq_nil_iff.2 hcolons]
      simp

/-! ## Grammars and pieces -/

/-- An address with groups behind the `::`. -/
def Inner (host : List Char) : Prop := ∃ left right, Compressed host left right ∧ right ≠ []

theorem Group.colon_not_mem (h : Group s) : ':' ∉ s := DNSUtil.colon_not_mem s h.isInt

theorem IPv4.dottedInts (h : IPv4 host) : DottedInts host := by
  obtain ⟨octets, hlen, hoctets, rfl⟩ := h
  exact ⟨octets, 0, hlen, fun s hs => (hoctets s hs).isInt, by simp⟩

theorem IPv4.dot_mem (h : IPv4 host) : '.' ∈ host := by
  obtain ⟨octets, hlen, -, rfl⟩ := h
  exact separator_mem_intercalate (by omega)

theorem IPv6.colon_mem (h : IPv6 host) : ':' ∈ host := by
  rcases h with ⟨groups, hlen, -, rfl⟩ | ⟨left, right, h⟩
  · exact separator_mem_intercalate (by omega)
  · rw [h.text]
    simp

/-- A joined text has no character that is no separator and in no number. -/
theorem Joined.not_mem {separator c : Char} {radix k : ℕ} {pieces : List (List Char)}
    (h : Joined separator radix host pieces k) (hc : c ≠ separator) (hints : ∀ s, IsInt radix s → c ∉ s) : c ∉ host := by
  rw [h.text]
  intro hmem
  rcases List.mem_append.1 hmem with hmem | hmem
  · rcases of_mem_intercalate hmem with heq | ⟨s, hs, hmem⟩
    · exact hc heq
    · exact hints s (h.ints s hs) hmem
  · exact hc (List.eq_of_mem_replicate hmem)

theorem DottedInts.colon_not_mem (h : DottedInts host) : ':' ∉ host := by
  obtain ⟨pieces, k, -, hjoined⟩ := h
  exact hjoined.not_mem (by decide) fun s hs => not_mem_of_isInt hs (by decide) (by decide) (by decide)

theorem ColonInts.dot_not_mem (h : ColonInts host) : '.' ∉ host := by
  rcases h with ⟨pieces, k, -, -, hjoined⟩ | ⟨k, rfl⟩
  · exact hjoined.not_mem (by decide) fun s hs => not_mem_of_isInt hs (by decide) (by decide) (by decide)
  · intro hmem
    exact absurd (List.eq_of_mem_replicate hmem) (by decide)

theorem Full.colonInts (h : Full host) : ColonInts host := by
  obtain ⟨groups, hlen, hgroups, rfl⟩ := h
  exact .inl ⟨groups, 0, List.ne_nil_of_length_pos (by omega), by omega, fun s hs => (hgroups s hs).isInt, by simp⟩

/-- Colons at the end are dropped. -/
theorem Compressed.colonInts {left : List (List Char)} (h : Compressed host left []) : ColonInts host := by
  have hshort := h.short
  have htext := h.text
  by_cases hleft : left = []
  · subst hleft
    exact .inr ⟨1, by simpa using htext⟩
  · exact .inl ⟨left, 2, hleft, by simp at hshort; omega, fun s hs => (h.before s hs).isInt, by simpa using htext⟩

/-- **An address with groups behind the `::` is not let through**: the piece between the colons is empty. -/
theorem Inner.not_colonInts (h : Inner host) : ¬ ColonInts host := by
  obtain ⟨left, right, h, hright⟩ := h
  -- the pieces, with one in front of the first colon
  set front := if left = [] then [[]] else left with hfront
  have hne : front ≠ [] := by
    rw [hfront]
    split <;> simp_all
  have htext : host = [':'].intercalate (front ++ [] :: right) := by
    rw [intercalate_append hne (by simp), List.intercalate_cons_of_ne_nil hright, h.text, hfront]
    split <;> simp_all
  have hcut : host.splitOn ':' = front ++ [] :: right := by
    rw [htext]
    apply List.splitOn_intercalate
    · intro s hs
      rcases List.mem_append.1 hs with hs | hs
      · rw [hfront] at hs
        split at hs
        · simp_all
        · exact (h.before s hs).colon_not_mem
      · rcases List.mem_cons.1 hs with rfl | hs
        · simp
        · exact (h.behind s hs).colon_not_mem
    · simp
  have hlast : (front ++ [] :: right).getLast? = some (right.getLast hright) := by
    rw [List.getLast?_append, List.getLast?_cons_of_ne_nil hright, List.getLast?_eq_getLast_of_ne_nil hright]
    rfl
  have hgroup := h.behind _ (List.getLast_mem hright)
  rintro (⟨pieces, k, hpieces, -, hjoined⟩ | ⟨k, hcolons⟩)
  · have hcut' := splitOn_append_empties hpieces (fun p hp => DNSUtil.colon_not_mem p (hjoined.ints p hp)) k
    rw [← hjoined.text, hcut] at hcut'
    cases k with
    | zero =>
      have hempty : ([] : List Char) ∈ pieces := by
        rw [List.replicate_zero, List.append_nil] at hcut'
        rw [← hcut']
        simp
      exact (hjoined.ints _ hempty).chars.1 rfl
    | succ k =>
      -- then the last piece is empty
      rw [hcut', List.replicate_succ', ← List.append_assoc, List.getLast?_concat] at hlast
      have hnil := Option.some.inj hlast
      have hpos := hgroup.1
      rw [← hnil] at hpos
      simp at hpos
  · obtain ⟨c, hc⟩ := List.exists_mem_of_length_pos (Nat.lt_of_lt_of_le Nat.zero_lt_one hgroup.1)
    have hmem : c ∈ host := by
      rw [htext]
      exact mem_intercalate (by simp) hc
    rw [hcolons] at hmem
    rw [List.eq_of_mem_replicate hmem] at hc
    exact hgroup.colon_not_mem hc

/-- **Where the looking agrees with the grammars**, for each preference. -/
def Agrees : Bool → List Char → Prop
  | false, host => ¬ IPv6 host ∧ (DottedInts host → IPv4 host)
  | true, host => ¬ IPv4 host ∧ ¬ Inner host ∧ (ColonInts host → IPv6 host)

theorem hostIsIp_iff_literal (host : List Char) (preferIpV6 : Bool) :
    (hostIsIp host preferIpV6 = true ↔ IsLiteral host) ↔ Agrees preferIpV6 host := by
  cases preferIpV6 with
  | false =>
    rw [hostIsIp_false_iff]
    constructor
    · intro h
      have hnot : ¬ IPv6 host := fun h6 => (h.2 (.inr h6)).colon_not_mem h6.colon_mem
      exact ⟨hnot, fun hdotted => (h.1 hdotted).resolve_right hnot⟩
    · rintro ⟨hnot, hdotted⟩
      exact ⟨fun h => .inl (hdotted h), fun h => (h.resolve_right hnot).dottedInts⟩
  | true =>
    rw [hostIsIp_true_iff]
    constructor
    · intro h
      have hnot : ¬ IPv4 host := fun h4 => (h.2 (.inl h4)).dot_not_mem h4.dot_mem
      refine ⟨hnot, fun hinner => ?_, fun hcolon => (h.1 hcolon).resolve_left hnot⟩
      obtain ⟨left, right, hcompressed, -⟩ := id hinner
      exact hinner.not_colonInts (h.2 (.inr (.inr ⟨left, right, hcompressed⟩)))
    · rintro ⟨hnot, hinner, hcolon⟩
      refine ⟨fun h => .inr (hcolon h), fun h => ?_⟩
      rcases h.resolve_left hnot with hfull | ⟨left, right, hcompressed⟩
      · exact hfull.colonInts
      · by_cases hright : right = []
        · subst hright
          exact hcompressed.colonInts
        · exact absurd ⟨left, right, hcompressed, hright⟩ hinner

/-! ## `getIp` -/

/-- `getIp` gives the host back and asks nobody. -/
def AsIs (net : Network) (host dnsServer : List Char) (preferIpV6 : Bool) : Prop :=
  Ends (fun n => getIp net n host dnsServer preferIpV6) (.ok ⟨some host, [], []⟩)

/-- A host that is a domain name is asked for. -/
def Asks (net : Network) (host dnsServer : List Char) (preferIpV6 : Bool) : Prop :=
  ∀ name, net.fromString (host ++ ['.']) = .ok name →
    ∀ r, Ends (fun n => getIp net n host dnsServer preferIpV6) (.ok r) → r.queries ≠ []

variable {net : Network} {dnsServer : List Char} {preferIpV6 : Bool}

theorem ignoring_queries {α : Type} (x : Java (List Query) (Option α)) : (ignoring x).2 = (Java.exec x []).2 := by
  unfold ignoring
  split <;> simp_all

theorem ask_keeps {α : Type} (q query : Query) (answer : Except JavaException α) :
    Java.Keeps (fun queries => q ∈ queries) (ask query answer) :=
  Java.Keeps.bind (.modify fun _ h => List.mem_append_left _ h) fun _ => .lift _

/-- A question that was asked stays on the list. -/
theorem ask_bind {α β : Type} (query : Query) (answer : Except JavaException α) {f : α → Java (List Query) β}
    (hf : ∀ a, Java.Keeps (fun queries => query ∈ queries) (f a)) (queries : List Query) :
    query ∈ (Java.exec (ask query answer >>= f) queries).2 := by
  have hasked : query ∈ (Java.exec (ask query answer) queries).2 := by simp [ask, Java.exec_bind]
  exact Java.Keeps.after (I := fun queries => query ∈ queries) hasked hf

theorem getAllIPv6_asks (net : Network) (host dnsServer : List Char) :
    .getAllByName host ∈ (getAllIPv6 net host dnsServer).2 := by
  unfold getAllIPv6
  rw [ignoring_queries]
  apply ask_bind
  intro all
  refine Java.Keeps.ite (.pure _) ?_
  refine Java.Keeps.bind (.lift _) fun name => Java.Keeps.bind (ask_keeps _ _ _) fun records => ?_
  exact Java.Keeps.ite (.pure _) (.pure _)

theorem getIpV4_asks {name : List Char} (hname : net.fromString (host ++ ['.']) = .ok name) :
    .send dnsServer name .A ∈ (getIpV4 net host dnsServer).2 := by
  unfold getIpV4
  rw [ignoring_queries, hname, Java.exec_bind]
  simp only [Java.exec_lift]
  apply ask_bind
  intro records
  exact Java.Keeps.ite (.pure _) (.pure _)

theorem getIpV4_ends_iff (hhost : hostIsIp host false = false) {r : Resolved} :
    Ends (fun n => getIp net n host dnsServer false) (.ok r) ↔
      r = ⟨(getIpV4 net host dnsServer).1, (getIpV4 net host dnsServer).2, []⟩ := by
  have hget : (fun n => getIp net n host dnsServer false) =
      fun _ => Fueled.lift (.ok ⟨(getIpV4 net host dnsServer).1, (getIpV4 net host dnsServer).2, []⟩) := by
    funext n
    simp only [getIp, hhost, Bool.false_eq_true, if_false]
    rfl
  rw [hget, ends_const_iff]
  simp [eq_comm]

theorem getIpV4_silent (h : (getIpV4 net host dnsServer).2 = []) : (getIpV4 net host dnsServer).1 = none := by
  cases hname : net.fromString (host ++ ['.']) with
  | ok name =>
    have hasks : .send dnsServer name .A ∈ (getIpV4 net host dnsServer).2 := getIpV4_asks hname
    rw [h] at hasks
    cases hasks
  | error e =>
    unfold getIpV4 ignoring
    rw [hname, Java.exec_bind]
    rfl

theorem resolved_asks (net : Network) (host dnsServer : List Char) (s : ProbeLoop) :
    .getAllByName host ∈ (resolved net host dnsServer s).queries := by
  have hasks := getAllIPv6_asks net host dnsServer
  unfold resolved
  split
  · exact hasks
  · exact List.mem_append_left _ hasks

theorem asIs_iff (net : Network) (host dnsServer : List Char) (preferIpV6 : Bool) :
    AsIs net host dnsServer preferIpV6 ↔ hostIsIp host preferIpV6 = true := by
  constructor
  · intro h
    by_contra hhost
    have hhost : hostIsIp host preferIpV6 = false := by simpa using hhost
    cases preferIpV6 with
    | false =>
      have hr := (getIpV4_ends_iff hhost).1 h
      have hsilent := getIpV4_silent (congrArg Resolved.queries hr).symm
      have hip := congrArg Resolved.ip hr
      rw [hsilent] at hip
      cases hip
    | true =>
      obtain ⟨s, -, hr⟩ := (getIp_ends_iff hhost).1 h
      have hasks := resolved_asks net host dnsServer s
      rw [hr] at hasks
      cases hasks
  · intro hhost
    exact ⟨0, by simp [getIp, hhost]⟩

theorem asks_of_not (hhost : hostIsIp host preferIpV6 = false) : Asks net host dnsServer preferIpV6 := by
  intro name hname r hr
  cases preferIpV6 with
  | false =>
    obtain rfl := (getIpV4_ends_iff hhost).1 hr
    exact List.ne_nil_of_mem (getIpV4_asks hname)
  | true =>
    obtain ⟨s, -, rfl⟩ := (getIp_ends_iff hhost).1 hr
    exact List.ne_nil_of_mem (resolved_asks net host dnsServer s)

/-- **Which hosts `getIp` handles right**: addresses are given back without a question, and only these; other hosts are
asked for. -/
theorem literals_iff (net : Network) (host dnsServer : List Char) (preferIpV6 : Bool) :
    ((AsIs net host dnsServer preferIpV6 ↔ IsLiteral host) ∧
        (¬ IsLiteral host → Asks net host dnsServer preferIpV6)) ↔ Agrees preferIpV6 host := by
  rw [asIs_iff, hostIsIp_iff_literal]
  refine ⟨fun h => h.1, fun h => ⟨h, fun hnot => asks_of_not ?_⟩⟩
  rw [← hostIsIp_iff_literal] at h
  simpa using mt h.1 hnot

/-- The host name `cafe` is taken for an address, and the address `8.8.8.8` for a host name. -/
theorem cafe_not_asked :
    let net := aliased fun _ => .error .ioException
    (AsIs net "cafe".toList "8.8.8.8".toList true ∧ ¬ IsLiteral "cafe".toList) ∧
      (¬ AsIs net "8.8.8.8".toList "8.8.8.8".toList true ∧ IsLiteral "8.8.8.8".toList) := by
  intro net
  refine ⟨⟨(asIs_iff _ _ _ _).2 (by decide), ?_⟩, ?_, .inl ?_⟩
  · rintro (h | h)
    · exact absurd h.dot_mem (by decide)
    · exact absurd h.colon_mem (by decide)
  · rw [asIs_iff]
    decide
  · refine ⟨[['8'], ['8'], ['8'], ['8']], rfl, ?_, rfl⟩
    intro s hs
    obtain rfl : s = ['8'] := by simpa using hs
    exact ⟨by simp, by simp, 8, by omega, by decide⟩

end SmartTunnel.DNSUtil
