import SmartTunnel.Model.DNSUtil

/-!
# Probing the IPv6 addresses of a host

A round of the loop in `getIp` takes an address out of the queue only if the address is not reachable: one
that is leaves the loop, and one whose probe raises stays in the queue (`ProbeInv`). So `n` rounds empty the
queue iff none of the first `n` probes raises, or an address is found before (`getIp_probes_iff`).
-/

namespace SmartTunnel.DNSUtil

open Jvm Fueled

variable {net : Network} {answers : List (List Char)} {s s' : ProbeLoop} {host dnsServer : List Char}

/-! ## The loop -/

/-- The probes before the `m`-th that took an address out of the queue. -/
def removed (net : Network) (m : ℕ) : ℕ := (List.range m).countP fun k => net.isReachable k = .ok false

theorem removed_succ (net : Network) (m : ℕ) :
    removed net (m + 1) = removed net m + if net.isReachable m = .ok false then 1 else 0 := by
  unfold removed
  rw [List.range_succ, List.countP_append]
  simp

theorem removed_le (net : Network) (m : ℕ) : removed net m ≤ m := by
  have hle := List.countP_le_length (p := fun k => net.isReachable k = .ok false) (l := List.range m)
  simpa [removed] using hle

theorem removed_eq_iff (net : Network) (m : ℕ) : removed net m = m ↔ ∀ k < m, net.isReachable k = .ok false := by
  have hall := List.countP_eq_length (p := fun k => net.isReachable k = .ok false) (l := List.range m)
  simpa [removed] using hall

/-- **The invariant of the loop**: no address was reachable so far, and what is not in the queue was removed. -/
structure ProbeInv (net : Network) (answers : List (List Char)) (s : ProbeLoop) : Prop where
  none : s.ipv6 = none
  unreachable : ∀ k < s.probed.length, net.isReachable k ≠ .ok true
  queue : s.ipsQueue.length + removed net s.probed.length = answers.length
  subset : s.ipsQueue ⊆ answers
  probed : s.probed ⊆ answers

theorem ProbeInv.init : ProbeInv net answers { ipsQueue := answers } := by
  refine ⟨rfl, by simp, by simp [removed], by simp, by simp⟩

/-- The address that is probed. -/
def next (net : Network) (s : ProbeLoop) : List Char :=
  s.ipsQueue.getD (nextInt (net.drawn s.probed.length) s.ipsQueue.length) []

theorem nextInt_lt {drawn bound : ℕ} (h : 0 < bound) : nextInt drawn bound < bound := Nat.mod_lt _ h

theorem next_mem (hpos : s.ipsQueue.length > 0) : next net s ∈ s.ipsQueue := by
  unfold next
  rw [List.getD_eq_getElem _ _ (nextInt_lt hpos)]
  exact List.getElem_mem _

/-- **The three kinds of rounds.** -/
theorem probeRound_cases (net : Network) (s : ProbeLoop) :
    (net.isReachable s.probed.length = .ok true ∧
      probeRound net s = .leave { s with ipv6 := some (next net s), probed := s.probed ++ [next net s] }) ∨
    (net.isReachable s.probed.length = .ok false ∧ probeRound net s = .goOn { s with
      ipsQueue := s.ipsQueue.eraseIdx (nextInt (net.drawn s.probed.length) s.ipsQueue.length),
      probed := s.probed ++ [next net s] }) ∨
    ((∃ e, net.isReachable s.probed.length = .error e) ∧
      probeRound net s = .goOn { s with probed := s.probed ++ [next net s] }) := by
  unfold probeRound next
  rcases net.isReachable s.probed.length with e | (_ | _)
  · exact .inr (.inr ⟨⟨e, rfl⟩, rfl⟩)
  · exact .inr (.inl ⟨rfl, rfl⟩)
  · exact .inl ⟨rfl, rfl⟩

theorem ProbeInv.round (h : ProbeInv net answers s) (hpos : s.ipsQueue.length > 0)
    (hround : probeRound net s = .goOn s') : ProbeInv net answers s' := by
  have hprobed : s.probed ++ [next net s] ⊆ answers := by
    intro address hmem
    rcases List.mem_append.1 hmem with hmem | hmem
    · exact h.probed hmem
    · rw [List.mem_singleton.1 hmem]
      exact h.subset (next_mem hpos)
  have hunreachable (hnot : net.isReachable s.probed.length ≠ .ok true) :
      ∀ k < (s.probed ++ [next net s]).length, net.isReachable k ≠ .ok true := by
    intro k hk
    rw [List.length_append, List.length_singleton] at hk
    rcases Nat.lt_or_eq_of_le (Nat.lt_succ_iff.1 hk) with hk | rfl
    · exact h.unreachable k hk
    · exact hnot
  have hqueue := h.queue
  have hlt : nextInt (net.drawn s.probed.length) s.ipsQueue.length < s.ipsQueue.length := nextInt_lt hpos
  rcases probeRound_cases net s with ⟨-, heq⟩ | ⟨hfalse, heq⟩ | ⟨⟨e, herror⟩, heq⟩
  · cases hround.symm.trans heq
  · cases hround.symm.trans heq
    refine ⟨h.none, hunreachable (by simp [hfalse]), ?_, ?_, hprobed⟩
    · rw [List.length_append, List.length_singleton, removed_succ, if_pos hfalse, List.length_eraseIdx_of_lt hlt]
      omega
    · exact List.Subset.trans (List.eraseIdx_subset) h.subset
  · cases hround.symm.trans heq
    refine ⟨h.none, hunreachable (by simp [herror]), ?_, h.subset, hprobed⟩
    rw [List.length_append, List.length_singleton, removed_succ, if_neg (by simp [herror])]
    exact hqueue

/-- **The condition**: an address is found in the first `n` probes, or none of them raises. -/
def Settles (net : Network) (n : ℕ) : Prop :=
  (∃ k < n, net.isReachable k = .ok true) ∨ ∀ k < n, net.isReachable k = .ok false

/-- A loop that settles goes on for `n` rounds at most. -/
theorem ProbeInv.goes_on (h : ProbeInv net answers s) (hsettles : Settles net answers.length)
    (hpos : s.ipsQueue.length > 0) : s.probed.length < answers.length := by
  rcases hsettles with ⟨j, hj, hreach⟩ | hall
  · by_contra hge
    exact h.unreachable j (by omega) hreach
  · by_contra hge
    -- all the answers are removed
    have hqueue := h.queue
    have hn : removed net answers.length = answers.length := (removed_eq_iff net _).2 hall
    have hmono : removed net answers.length ≤ removed net s.probed.length :=
      (List.range_sublist.2 (by omega)).countP_le
    omega

/-- **What the loop ends with**: the queue is empty, or the last address that was probed is reachable. -/
theorem probeAll_cases (h : Ends (fun n => probeAll net n answers) (.ok s)) :
    (ProbeInv net answers s ∧ s.ipsQueue.length = 0) ∨
      ∃ u, ProbeInv net answers u ∧ u.ipsQueue.length > 0 ∧ net.isReachable u.probed.length = .ok true ∧
        s = { u with ipv6 := some (next net u), probed := u.probed ++ [next net u] } := by
  have hround : ∀ s s', ProbeInv net answers s → decide (s.ipsQueue.length > 0) = true → probeRound net s = .goOn s' →
      ProbeInv net answers s' := fun s s' hs hpos hb => hs.round (of_decide_eq_true hpos) hb
  rcases whileDo_invariant hround .init h with ⟨hinv, hend⟩ | ⟨u, hu, hpos, hleave⟩
  · exact .inl ⟨hinv, by simpa using hend⟩
  · refine .inr ⟨u, hu, of_decide_eq_true hpos, ?_⟩
    rcases probeRound_cases net u with ⟨hreach, heq⟩ | ⟨-, heq⟩ | ⟨-, heq⟩
    · exact ⟨hreach, Next.leave.inj (hleave.symm.trans heq)⟩
    · cases hleave.symm.trans heq
    · cases hleave.symm.trans heq

/-- **The loop ends after `n` probes at most** iff it settles. -/
theorem probeAll_ends_iff (net : Network) (answers : List (List Char)) :
    (∃ s, Ends (fun n => probeAll net n answers) (.ok s) ∧ s.probed.length ≤ answers.length) ↔
      Settles net answers.length := by
  constructor
  · rintro ⟨s, hs, hle⟩
    rcases probeAll_cases hs with ⟨hinv, hempty⟩ | ⟨u, -, -, hreach, rfl⟩
    · right
      have hqueue := hinv.queue
      have hremoved := removed_le net s.probed.length
      -- every probe has removed its address, so none has raised
      have hlen : s.probed.length = answers.length := by omega
      rw [← hlen, ← removed_eq_iff]
      omega
    · rw [List.length_append, List.length_singleton] at hle
      exact .inl ⟨_, by omega, hreach⟩
  · intro hsettles
    have hround : ∀ s s', ProbeInv net answers s ∧ s.probed.length ≤ answers.length →
        decide (s.ipsQueue.length > 0) = true → probeRound net s = .goOn s' →
          (ProbeInv net answers s' ∧ s'.probed.length ≤ answers.length) ∧
            answers.length - s'.probed.length < answers.length - s.probed.length := by
      rintro s s' ⟨hinv, -⟩ hpos hb
      have hpos := of_decide_eq_true hpos
      have hlt := hinv.goes_on hsettles hpos
      have hlen : s'.probed.length = s.probed.length + 1 := by
        rcases probeRound_cases net s with ⟨-, heq⟩ | ⟨-, heq⟩ | ⟨-, heq⟩
        · cases hb.symm.trans heq
        · cases hb.symm.trans heq
          simp
        · cases hb.symm.trans heq
          simp
      exact ⟨⟨hinv.round hpos hb, by omega⟩, by omega⟩
    have hinit : ProbeInv net answers { ipsQueue := answers } ∧ ([] : List (List Char)).length ≤ answers.length :=
      ⟨.init, by simp⟩
    -- each round takes one of the `n` probes
    obtain ⟨s, hs⟩ := whileDo_ends _ hround hinit
    refine ⟨s, hs, ?_⟩
    rcases whileDo_invariant (fun s s' hI hc hb => (hround s s' hI hc hb).1) hinit hs with
      ⟨⟨-, hle⟩, -⟩ | ⟨u, ⟨hinv, -⟩, hpos, hleave⟩
    · exact hle
    · have hlt := hinv.goes_on hsettles (of_decide_eq_true hpos)
      rcases probeRound_cases net u with ⟨-, heq⟩ | ⟨-, heq⟩ | ⟨-, heq⟩
      · obtain rfl := Next.leave.inj (hleave.symm.trans heq)
        simpa using hlt
      · cases hleave.symm.trans heq
      · cases hleave.symm.trans heq

/-! ## `getIp` -/

/-- The answers that the loop goes through. -/
def answersOf (net : Network) (host dnsServer : List Char) : List (List Char) :=
  (getAllIPv6 net host dnsServer).1.getD []

/-- What `getIp` returns when the loop has ended. -/
def resolved (net : Network) (host dnsServer : List Char) (s : ProbeLoop) : Resolved :=
  if s.ipv6.isSome then ⟨s.ipv6, (getAllIPv6 net host dnsServer).2, s.probed⟩
  else ⟨(getIpV4 net host dnsServer).1, (getAllIPv6 net host dnsServer).2 ++ (getIpV4 net host dnsServer).2, s.probed⟩

theorem getIp_ends_iff (hhost : hostIsIp host true = false) {r : Resolved} :
    Ends (fun n => getIp net n host dnsServer true) (.ok r) ↔
      ∃ s, Ends (fun n => probeAll net n (answersOf net host dnsServer)) (.ok s) ∧
        resolved net host dnsServer s = r := by
  have hloop (found : Resolved) : Ends (fun n => reachableIpV6 net n host dnsServer) (.ok found) ↔
      ∃ s, Ends (fun n => probeAll net n (answersOf net host dnsServer)) (.ok s) ∧
        (⟨s.ipv6, (getAllIPv6 net host dnsServer).2, s.probed⟩ : Resolved) = found := ends_map_iff
  simp only [getIp, hhost, Bool.false_eq_true, if_false, if_true]
  rw [ends_bind_iff]
  constructor
  · rintro ⟨found, hfound, hr⟩
    obtain ⟨s, hs, rfl⟩ := (hloop found).1 hfound
    refine ⟨s, hs, ?_⟩
    unfold resolved
    split
    · rw [if_pos ‹_›] at hr
      cases hr
      rfl
    · rw [if_neg ‹_›] at hr
      cases hr
      rfl
  · rintro ⟨s, hs, rfl⟩
    refine ⟨_, (hloop _).2 ⟨s, hs, rfl⟩, ?_⟩
    unfold resolved
    split <;> rfl

/-- **What `getIp` is to return**: a probed answer that is reachable, or without one what `getIpV4` returns. -/
structure Chosen (net : Network) (host dnsServer : List Char) (r : Resolved) : Prop where
  probed : r.probed ⊆ answersOf net host dnsServer
  reachable : ∀ k < r.probed.length, net.isReachable k = .ok true → r.ip = r.probed[k]?
  fallback : (∀ k < r.probed.length, net.isReachable k ≠ .ok true) → r.ip = (getIpV4 net host dnsServer).1

/-- Whatever the loop ends with, the choice is right. -/
theorem resolved_chosen (h : Ends (fun n => probeAll net n (answersOf net host dnsServer)) (.ok s)) :
    Chosen net host dnsServer (resolved net host dnsServer s) := by
  rcases probeAll_cases h with ⟨hinv, -⟩ | ⟨u, hinv, hpos, hreach, rfl⟩
  · have hr : resolved net host dnsServer s = ⟨(getIpV4 net host dnsServer).1,
        (getAllIPv6 net host dnsServer).2 ++ (getIpV4 net host dnsServer).2, s.probed⟩ := by
      unfold resolved
      rw [if_neg (by simp [hinv.none])]
    rw [hr]
    exact ⟨hinv.probed, fun k hk hreach => absurd hreach (hinv.unreachable k hk), fun _ => rfl⟩
  · have hr : resolved net host dnsServer { u with ipv6 := some (next net u), probed := u.probed ++ [next net u] } =
        ⟨some (next net u), (getAllIPv6 net host dnsServer).2, u.probed ++ [next net u]⟩ := rfl
    rw [hr]
    refine ⟨?_, fun k hk hreach' => ?_, fun hnone => absurd hreach (hnone _ (by simp))⟩
    · intro address hmem
      rcases List.mem_append.1 hmem with hmem | hmem
      · exact hinv.probed hmem
      · rw [List.mem_singleton.1 hmem]
        exact hinv.subset (next_mem hpos)
    · -- the probes before the last one were in vain
      rw [List.length_append, List.length_singleton] at hk
      rcases Nat.lt_or_eq_of_le (Nat.lt_succ_iff.1 hk) with hk | rfl
      · exact absurd hreach' (hinv.unreachable k hk)
      · simp

/-- **`getIp` probes `n` answers at most and returns the right one** iff an address is found in the first `n` probes or
none of them raises. -/
theorem getIp_probes_iff (net : Network) (hhost : hostIsIp host true = false) :
    (∃ r, Ends (fun n => getIp net n host dnsServer true) (.ok r) ∧
        r.probed.length ≤ (answersOf net host dnsServer).length ∧ Chosen net host dnsServer r) ↔
      Settles net (answersOf net host dnsServer).length := by
  rw [← probeAll_ends_iff]
  have hprobed (s : ProbeLoop) : (resolved net host dnsServer s).probed = s.probed := by
    unfold resolved
    split <;> rfl
  constructor
  · rintro ⟨r, hr, hle, -⟩
    obtain ⟨s, hs, rfl⟩ := (getIp_ends_iff hhost).1 hr
    exact ⟨s, hs, by rwa [hprobed] at hle⟩
  · rintro ⟨s, hs, hle⟩
    exact ⟨_, (getIp_ends_iff hhost).2 ⟨s, hs, rfl⟩, by rwa [hprobed], resolved_chosen hs⟩

/-- A server with one IPv4 address and, behind an alias, one IPv6 address. -/
def aliased (isReachable : ℕ → Except JavaException Bool) : Network where
  getAllByName _ := .ok (some [false, true])
  fromString name := .ok name
  send _ _
    | .A => .ok (some ["10.1.1.1".toList])
    | .AAAA => .ok (some ["v6.example.".toList, "2001:db8::1".toList])
  isReachable := isReachable
  drawn k := k
  drawn4 := 0

/-- The alias is probed first, and its address is not reachable; the other address is. -/
theorem getIp_probes_aliased :
    let net := aliased fun k => .ok (k = 1)
    ∃ r, Ends (fun n => getIp net n "example".toList "8.8.8.8".toList true) (.ok r) ∧ r.probed.length ≤ 2 ∧
      Chosen net "example".toList "8.8.8.8".toList r :=
  (getIp_probes_iff _ (by decide)).2 (.inl ⟨1, by decide, rfl⟩)

/-- Every probe raises: `getIp` never returns. -/
theorem getIp_never_returns :
    let net := aliased fun _ => .error .ioException
    (answersOf net "example".toList "8.8.8.8".toList).length = 2 ∧
      ∀ r, ¬ Ends (fun n => getIp net n "example".toList "8.8.8.8".toList true) (.ok r) := by
  intro net
  refine ⟨by decide, fun r hr => ?_⟩
  obtain ⟨s, hs, -⟩ := (getIp_ends_iff (by decide)).1 hr
  have hnone (m : ℕ) : removed net m = 0 := by simp [removed, net, aliased]
  rcases probeAll_cases hs with ⟨hinv, hempty⟩ | ⟨u, -, -, hreach, -⟩
  · have hqueue := hinv.queue
    have hlen : (answersOf net "example".toList "8.8.8.8".toList).length = 2 := by decide
    rw [hnone] at hqueue
    omega
  · cases hreach

end SmartTunnel.DNSUtil
