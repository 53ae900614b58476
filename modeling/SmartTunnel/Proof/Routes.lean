import SmartTunnel.Proof.NetworkSpace

/-!
# What `generateIPList` makes of the routes

A round of `generateIPList` is a step of a sweep over the marked blocks of the networks (`overlap_simulates`,
`round_simulates`). So for routes that are `Clear` the loop ends, whichever of several least networks a poll takes
out, no assertion of a debug build fails, and the list decides every address by the longest prefix around it
(`generateIPList_longestPrefix`).
-/

namespace SmartTunnel

open Jvm Dyadic Fueled

namespace NetworkSpace

open IpAddress

/-! ## The longest prefix -/

/-- The address is one of the network. -/
def Matches (net : IpAddress) (a : ℕ) : Prop := net.getFirstAddress ≤ a ∧ a ≤ net.getLastAddress

instance (net : IpAddress) (a : ℕ) : Decidable (Matches net a) := inferInstanceAs (Decidable (_ ∧ _))

/-- The longest prefix around the address is one to go through the tunnel (`true`), or one that is not. -/
def LongestPrefix (nets : List IpAddress) (a : ℕ) (included : Bool) : Prop :=
  ∃ net ∈ nets, net.included = included ∧ Matches net a ∧ ∀ other ∈ nets, Matches other a →
    other.networkMask ≤ net.networkMask

instance (nets : List IpAddress) (a : ℕ) (included : Bool) : Decidable (LongestPrefix nets a included) :=
  inferInstanceAs (Decidable (∃ net ∈ nets, _))

variable {v4 debug : Bool} {c n : IpAddress} {q rest nets done : List IpAddress} {a : ℕ} {t : Bool}

theorem matches_iff : Matches n a ↔ a ∈ n.block := by
  rw [Matches, getFirstAddress_eq, getLastAddress_eq, Block.mem_iff]

/-- The longest prefix is the smallest block. -/
theorem longestPrefix_iff (h : ∀ n ∈ nets, n.OfFamily v4) :
    LongestPrefix nets a t ↔ Marked.Decides (nets.map marked) a t := by
  simp only [LongestPrefix, Marked.Decides, List.mem_map, exists_exists_and_eq_and, forall_exists_index, and_imp,
    forall_apply_eq_imp_iff₂, matches_iff]
  refine exists_congr fun n => and_congr_right fun hn => and_congr_right fun _ => and_congr_right fun ha => ?_
  refine forall_congr' fun m => forall_congr' fun hm => forall_congr' fun ham => ?_
  rw [← not_lt, (h n hn).mask_lt_iff (h m hm), not_lt]
  exact ⟨fun horder => Block.le_of_mem ha ham horder, Block.order_le⟩

/-! ## A round -/

theorem map_addUnlessContained (hn : n.OfFamily v4) (hq : ∀ m ∈ q, m.OfFamily v4) :
    (addUnlessContained n q).map marked = Marked.addMissing n.marked (q.map marked) := by
  have hany : q.any n.equals = (q.map marked).any fun m => n.marked.block = m.block := by
    rw [List.any_map, Bool.eq_iff_iff, List.any_eq_true, List.any_eq_true]
    refine exists_congr fun m => and_congr_right fun hm => ?_
    rw [equals_iff hn (hq m hm)]
    exact decide_eq_true_iff.symm
  unfold addUnlessContained Marked.addMissing
  rw [hany, apply_ite (List.map marked), List.map_append, List.map_singleton]

theorem family_addUnlessContained (hn : n.OfFamily v4) (hq : ∀ m ∈ q, m.OfFamily v4) :
    ∀ m ∈ addUnlessContained n q, m.OfFamily v4 := by
  intro m hm
  unfold addUnlessContained at hm
  split at hm
  · exact hq m hm
  · rcases List.mem_append.1 hm with hm | hm
    · exact hq m hm
    · exact List.mem_singleton.1 hm ▸ hn

theorem assertTrue_true (debug : Bool) : assertTrue debug true = .ok () := by
  simp [assertTrue]

/-- **Two networks that overlap**: the assertions hold, and what becomes of them is a step of the sweep. -/
theorem overlap_simulates (hc : c.OfFamily v4) (hn : n.OfFamily v4) (hrest : ∀ m ∈ rest, m.OfFamily v4)
    (hprec : c.block.precedes n.block) (hin : n.block.first ≤ c.block.last)
    (htwin : c.block = n.block → c.included = n.included) (debug : Bool) :
    ∃ c' q', overlap debug c n rest = .ok (c', q') ∧ c'.OfFamily v4 ∧ (∀ m ∈ q', m.OfFamily v4) ∧
      Marked.Overlap c.marked n.marked (rest.map marked) c'.marked (q'.map marked) := by
  unfold overlap
  simp only [getFirstAddress_eq, getLastAddress_eq]
  by_cases hsame : c.block.first = n.block.first ∧ c.networkMask ≥ n.networkMask
  · have horder : c.block.order ≤ n.block.order := by
      rw [← not_lt, ← hc.mask_lt_iff hn]
      omega
    have hle : c.block ≤ n.block := hprec.le_of_first_eq hsame.1
    rw [if_pos hsame]
    by_cases hmark : c.included = n.included
    · rw [if_pos hmark]
      exact ⟨n, rest, rfl, hn, hrest, .absorb hle hmark⟩
    · -- the next network is split around the current one
      have hlt : c.block < n.block := lt_of_le_of_ne hle fun h => hmark (htwin h)
      have hpos : 0 < n.block.order := Nat.zero_lt_of_lt (Block.lt_iff_order.1 hlt).2
      obtain ⟨lower, upper, hsplit, hlower, hupper, hlowerOf, hupperOf⟩ := hn.split_eq hpos debug
      have hq := family_addUnlessContained hupper hrest
      have hlowerBlock : lower.block = n.block.lower := congrArg Marked.block hlowerOf
      have hstep := @Marked.Overlap.splitNext _ c.marked n.marked (rest.map marked) hlt hsame.1 hmark
      have hlast : lower.block.last = c.block.last ↔ n.block.lower = c.block := by
        rw [hlowerBlock]
        constructor
        · intro h
          have hfirst : n.block.lower.first = c.block.first := (Block.lower_first hpos).trans hsame.1.symm
          refine (Block.eq_of_le_of_last ?_ hfirst.symm h.symm).symm
          refine Block.le_of_mem c.block.first_mem (hfirst ▸ Block.first_mem _) ?_
          exact Nat.le_sub_one_of_lt (Block.lt_iff_order.1 hlt).2
        · intro h
          rw [h]
      unfold Marked.around at hstep
      rw [if_neg hmark, hsplit]
      simp only [bind, Except.bind, hlast]
      by_cases heq : n.block.lower = c.block
      · have hmask : lower.networkMask = c.networkMask := by
          rw [hlower.mask_eq_iff hc, hlowerBlock, heq]
        rw [if_pos heq, hmask, beq_self_eq_true, assertTrue_true]
        refine ⟨c, _, rfl, hc, hq, ?_⟩
        rw [map_addUnlessContained hupper hrest, hupperOf]
        rwa [if_pos (show n.marked.block.lower = c.marked.block from heq)] at hstep
      · rw [if_neg heq]
        refine ⟨c, _, rfl, hc, family_addUnlessContained hlower hq, ?_⟩
        rw [map_addUnlessContained hlower hq, map_addUnlessContained hupper hrest, hlowerOf, hupperOf]
        rwa [if_neg (show ¬ n.marked.block.lower = c.marked.block from heq)] at hstep
  · have hfirst : c.block.first < n.block.first := by
      rcases hprec with h | ⟨h, horder⟩
      · exact h
      · refine absurd ⟨h, ?_⟩ hsame
        rw [ge_iff_le, ← not_lt, hc.mask_lt_iff hn]
        omega
    have hlt : n.block < c.block := Block.lt_of_first_lt hfirst hin
    have hpos : 0 < c.block.order := Nat.zero_lt_of_lt (Block.lt_iff_order.1 hlt).2
    have hmask : c.networkMask < n.networkMask := (hc.mask_lt_iff hn).2 (Block.lt_iff_order.1 hlt).2
    rw [if_neg hsame]
    simp only [hmask, hfirst, Block.last_le hlt.le, decide_true, assertTrue_true, bind, Except.bind]
    by_cases hmark : c.included = n.included
    · rw [if_pos hmark]
      exact ⟨c, rest, rfl, hc, hrest, .drop hlt hfirst hmark⟩
    · -- the current network is split, and the next one goes back to the queue
      obtain ⟨lower, upper, hsplit, hlower, hupper, hlowerOf, hupperOf⟩ := hc.split_eq hpos debug
      have hupperBlock : upper.block = c.block.upper := congrArg Marked.block hupperOf
      have hstep := @Marked.Overlap.splitCurrent _ c.marked n.marked (rest.map marked) hlt hfirst hmark
      have hmask' : upper.networkMask = n.networkMask ↔ c.block.upper = n.block := by
        rw [hupper.mask_eq_iff hn, hupperBlock]
        constructor
        · intro horder
          rcases Block.le_lower_or_upper hlt with h | h
          · have heq := Block.eq_of_le h horder.le
            rw [heq, Block.lower_first hpos] at hfirst
            exact absurd hfirst (lt_irrefl _)
          · exact (Block.eq_of_le h horder.le).symm
        · intro h
          rw [h]
      unfold Marked.beside at hstep
      rw [if_neg hmark, hsplit]
      simp only [hmask']
      have hfamily : ∀ m ∈ rest ++ [n], m.OfFamily v4 := by
        simp only [List.mem_append, List.mem_singleton]
        rintro m (hm | rfl)
        · exact hrest m hm
        · exact hn
      by_cases heq : c.block.upper = n.block
      · rw [if_pos heq, hupperBlock, Block.upper_last hpos, heq, beq_self_eq_true, beq_self_eq_true, assertTrue_true]
        refine ⟨lower, _, rfl, hlower, hfamily, ?_⟩
        rw [hlowerOf, List.map_append, List.map_singleton]
        rwa [if_pos (show c.marked.block.upper = n.marked.block from heq)] at hstep
      · rw [if_neg heq]
        refine ⟨lower, _, rfl, hlower, ?_, ?_⟩
        · simp only [List.mem_append, List.mem_cons, List.not_mem_nil, or_false]
          rintro m (hm | rfl | rfl)
          · exact hrest m hm
          · exact hupper
          · exact hn
        · rw [hlowerOf, List.map_append, List.map_cons, List.map_singleton, hupperOf]
          rwa [if_neg (show ¬ c.marked.block.upper = n.marked.block from heq)] at hstep

/-- What a poll takes out comes first on the line. -/
theorem first_of_poll {pq : PriorityQueue compareTo} (hq : ∀ m ∈ q, m.OfFamily v4) (h : pq.poll q = some (n, rest)) :
    Marked.First (q.map marked) n.marked (rest.map marked) := by
  refine ⟨(pq.perm q n rest h).map marked, ?_⟩
  intro m hm
  obtain ⟨k, hk, rfl⟩ := List.mem_map.1 hm
  have hn := hq n ((PriorityQueue.mem_of_poll h).2 (.inl rfl))
  have hk' := hq k ((PriorityQueue.mem_of_poll h).2 (.inr hk))
  exact (compareTo_ne_gt_iff hn hk').1 (pq.least q n rest h k hk)

/-- What a round keeps, of the networks `nets`. With no current network left the list is the result. -/
structure Keeps (v4 : Bool) (nets : List IpAddress) (s : Listing) : Prop where
  family : (∀ m ∈ s.networks, m.OfFamily v4) ∧ ∀ m ∈ s.ipsDone, m.OfFamily v4
  sweep : ∀ c, s.currentNet = some c → c.OfFamily v4 ∧
    Marked.Inv (nets.map marked) c.marked (s.networks.map marked) (s.ipsDone.map marked)
  result : s.currentNet = none →
    (s.ipsDone.map marked).Pairwise (fun d e => d.block.last < e.block.first) ∧
      ∀ a t, Marked.Decides (nets.map marked) a t ↔ ∃ d ∈ s.ipsDone.map marked, a ∈ d.block ∧ d.mark = t

/-- What a round brings down. -/
def left (s : Listing) : ℕ := Marked.weight ((s.currentNet.toList ++ s.networks).map marked)

/-- **A round is a step of the sweep.** -/
theorem round_simulates (hclear : Marked.Clear (nets.map marked)) (debug : Bool) (pq : PriorityQueue compareTo)
    {s : Listing} (h : Keeps v4 nets s) (hs : s.currentNet.isSome) :
    ∃ s', round debug pq s = .ok s' ∧ Keeps v4 nets s' ∧ left s' < left s := by
  obtain ⟨c, hcur⟩ := Option.isSome_iff_exists.1 hs
  obtain ⟨hc, hinv⟩ := h.sweep c hcur
  obtain ⟨hq, hdone⟩ := h.family
  have hadd : TreeSet.add compareTo c s.ipsDone = s.ipsDone ++ [c] := by
    apply TreeSet.add_last
    intro d hd
    exact compareTo_gt (hinv.behind d.marked (List.mem_map_of_mem hd))
  have hdone' : ∀ m ∈ s.ipsDone ++ [c], m.OfFamily v4 := by
    intro m hm
    rcases List.mem_append.1 hm with hm | hm
    · exact hdone m hm
    · exact List.mem_singleton.1 hm ▸ hc
  have hpos : 0 < 3 ^ c.block.order := by positivity
  have hleft : left s = 3 ^ c.block.order + Marked.weight (s.networks.map marked) := by
    unfold left
    rw [hcur]
    rfl
  unfold round
  rw [hcur, deref_some]
  simp only [bind, Except.bind]
  rcases hpoll : pq.poll s.networks with _ | ⟨n, rest⟩
  · -- the current network is the last one
    have hnil : s.networks = [] := PriorityQueue.poll_eq_none.1 hpoll
    rw [hnil, List.map_nil] at hinv
    refine ⟨_, rfl, ⟨⟨hq, hadd ▸ hdone'⟩, by simp, fun _ => ?_⟩, ?_⟩
    · simp only [hadd, List.map_append, List.map_singleton]
      exact hinv.finish
    · rw [hleft]
      simp only [left, hnil, Option.toList_none, List.nil_append, List.map_nil, Marked.weight_nil]
      omega
  · have hfirst := first_of_poll hq hpoll
    have hmem : ∀ m, m ∈ s.networks ↔ m = n ∨ m ∈ rest := fun m => PriorityQueue.mem_of_poll hpoll
    have hn : n.OfFamily v4 := hq n ((hmem n).2 (.inl rfl))
    have hrest : ∀ m ∈ rest, m.OfFamily v4 := fun m hm => hq m ((hmem m).2 (.inr hm))
    have hweight : Marked.weight (s.networks.map marked) = 3 ^ n.block.order + Marked.weight (rest.map marked) :=
      Marked.weight_perm hfirst.1
    simp only [getFirstAddress_eq, getLastAddress_eq]
    by_cases hlast : c.block.last < n.block.first
    · -- the current network is done
      rw [if_pos hlast]
      refine ⟨_, rfl, ⟨⟨hrest, hadd ▸ hdone'⟩, ?_, by simp⟩, ?_⟩
      · rintro _ ⟨⟩
        simp only [hadd, List.map_append, List.map_singleton]
        exact ⟨hn, hinv.pass hfirst hlast⟩
      · rw [hleft, hweight]
        change 3 ^ n.block.order + Marked.weight (rest.map marked) < _
        omega
    · have htwin : c.block = n.block → c.included = n.included := fun heq =>
        hinv.agree c.marked List.mem_cons_self n.marked
          (List.mem_cons_of_mem _ (List.mem_map_of_mem ((hmem n).2 (.inl rfl)))) heq
      obtain ⟨c', q', hoverlap, hc', hq', hstep⟩ := overlap_simulates hc hn hrest (hinv.first_next hfirst)
        (not_lt.1 hlast) htwin debug
      rw [if_neg hlast, hoverlap]
      refine ⟨_, rfl, ⟨⟨hq', hdone⟩, ?_, by simp⟩, ?_⟩
      · rintro _ ⟨⟩
        exact ⟨hc', hinv.overlap hclear hfirst hstep⟩
      · have hlt := hstep.weight_lt
        simp only [Marked.weight_cons] at hlt
        rw [hleft, hweight]
        exact hlt

/-! ## The networks of a profile -/

/-- The networks that are added one after the other. -/
def addAll (nets : List IpAddress) : Networks := nets.foldl (fun mIpAddresses net => addIP net mIpAddresses) []

/-- What adding keeps of the set. -/
theorem addAll_keeps {P : Networks → Prop} (hnil : P []) (hadd : ∀ ips, ∀ n ∈ nets, P ips → P (addIP n ips)) :
    P (addAll nets) :=
  List.foldlRecOn nets _ hnil fun ips h n hn => hadd ips n hn h

/-- Two networks of the set are not the same. -/
theorem pairwise_addAll (nets : List IpAddress) : (addAll nets).Pairwise fun n m => compareTo n m = .lt :=
  addAll_keeps .nil fun _ _ _ h => TreeSet.pairwise_add h

/-- **Networks that were added are of the family and agree**, so what is left to ask of them is how they lie. -/
theorem addAll_clear_iff (h : ∀ n ∈ nets, n.OfFamily v4) : (∀ n ∈ addAll nets, n.OfFamily v4) ∧
    (Marked.Clear ((addAll nets).map marked) ↔ Marked.Untangled ((addAll nets).map marked)) := by
  have hfamily : ∀ n ∈ addAll nets, n.OfFamily v4 := by
    refine addAll_keeps (P := fun ips => ∀ n ∈ ips, n.OfFamily v4) (by simp) fun ips n hn hips m hm => ?_
    rcases TreeSet.of_mem_add hm with rfl | hm
    · exact h m hn
    · exact hips m hm
  refine ⟨hfamily, fun hclear => hclear.toUntangled, fun huntangled => ⟨huntangled, ?_⟩⟩
  simp only [Marked.Agree, List.mem_map, forall_exists_index, and_imp, forall_apply_eq_imp_iff₂]
  intro n hn m hm hblock
  have hapart : (addAll nets).Pairwise fun n m => compareTo n m ≠ .eq :=
    (pairwise_addAll nets).imp fun hlt heq => by rw [hlt] at heq; cases heq
  have : Std.Symm fun n m : IpAddress => compareTo n m ≠ .eq := ⟨fun _ _ hne heq => hne (Std.OrientedCmp.eq_symm heq)⟩
  have hsame : n = m := by
    by_contra hne
    exact hapart.forall hn hm hne (compareTo_eq (hfamily n hn) (hfamily m hm) hblock)
  rw [hsame]

/-! ## The whole loop -/

/-- The loop ends with blocks that decide every address as those of the networks do. -/
theorem generateIPList_decides (hfamily : ∀ n ∈ nets, n.OfFamily v4) (hclear : Marked.Clear (nets.map marked))
    (debug : Bool) (pq : PriorityQueue compareTo) :
    ∃ l, Ends (generateIPList debug pq nets) (.ok l) ∧ (∀ n ∈ l, n.OfFamily v4) ∧
      l.Pairwise (fun d e => d.block.last < e.block.first) ∧
      ∀ a t, (∃ d ∈ l, a ∈ d.block ∧ d.included = t) ↔ Marked.Decides (nets.map marked) a t := by
  unfold generateIPList
  rcases hpoll : pq.poll nets with _ | ⟨c, rest⟩
  · obtain rfl := PriorityQueue.poll_eq_none.1 hpoll
    refine ⟨[], ⟨0, rfl⟩, by simp, .nil, ?_⟩
    simp [Marked.Decides]
  · have hmem : ∀ m, m ∈ nets ↔ m = c ∨ m ∈ rest := fun m => PriorityQueue.mem_of_poll hpoll
    have hstart : Keeps v4 nets ⟨some c, rest, []⟩ := by
      refine ⟨⟨fun m hm => hfamily m ((hmem m).2 (.inr hm)), by simp⟩, ?_, by simp⟩
      rintro _ ⟨⟩
      exact ⟨hfamily c ((hmem c).2 (.inl rfl)), .init hclear (first_of_poll hfamily hpoll)⟩
    obtain ⟨s, hends, hkeeps, hnone⟩ := doWhile_ends left
      (fun s hs hcur => round_simulates hclear debug pq hs hcur) hstart rfl
    obtain ⟨hsorted, hdecides⟩ := hkeeps.result (by simpa using hnone)
    refine ⟨s.ipsDone, ends_map_iff.2 ⟨s, hends, rfl⟩, hkeeps.family.2, List.pairwise_map.1 hsorted, fun a t => ?_⟩
    rw [hdecides]
    simp only [List.mem_map, exists_exists_and_eq_and]
    rfl

/-- **What `generateIPList` returns**, for networks of one family that are clear. Whichever network a poll takes
out and whether or not the assertions are checked, it ends; its networks are ascending and do not overlap, and the
one around an address has the `included` of the longest prefix of `nets` around it. -/
theorem generateIPList_longestPrefix (hfamily : ∀ n ∈ nets, n.OfFamily v4) (hclear : Marked.Clear (nets.map marked))
    (debug : Bool) (pq : PriorityQueue compareTo) :
    ∃ l, Ends (generateIPList debug pq nets) (.ok l) ∧ (∀ n ∈ l, n.OfFamily v4) ∧
      l.Pairwise (fun d e => d.getLastAddress < e.getFirstAddress) ∧
      ∀ a t, (∃ d ∈ l, Matches d a ∧ d.included = t) ↔ LongestPrefix nets a t := by
  obtain ⟨l, hends, hl, hsorted, hdecides⟩ := generateIPList_decides hfamily hclear debug pq
  refine ⟨l, hends, hl, ?_, ?_⟩
  · simpa only [getFirstAddress_eq, getLastAddress_eq] using hsorted
  · intro a t
    rw [longestPrefix_iff hfamily, ← hdecides]
    simp only [matches_iff]

/-- All addresses, but `10.0.0.0/8` is excluded and `10.8.0.0/16` is not. -/
def splitTunnel : Networks := [⟨0, 0, true, true⟩, ⟨10 * 2 ^ 24, 8, false, true⟩, ⟨10 * 2 ^ 24 + 8 * 2 ^ 16, 16, true, true⟩]

theorem splitTunnel_family : ∀ n ∈ splitTunnel, n.OfFamily true := by decide +kernel

/-- A poll that can be run. -/
def firstLeast : PriorityQueue compareTo := .firstLeast compareTo compareTo_trans compareTo_total

theorem generateIPList_splitTunnel : ∃ l, Ends (generateIPList true firstLeast splitTunnel) (.ok l) ∧
    (∃ d ∈ l, Matches d (10 * 2 ^ 24 + 1) ∧ d.included = false) ∧
    ∃ d ∈ l, Matches d (10 * 2 ^ 24 + 8 * 2 ^ 16 + 1) ∧ d.included = true := by
  obtain ⟨l, hends, -, -, hdecides⟩ := generateIPList_longestPrefix splitTunnel_family (by decide +kernel) true
    firstLeast
  exact ⟨l, hends, (hdecides _ _).2 (by decide +kernel), (hdecides _ _).2 (by decide +kernel)⟩

/-- Networks that are not clear: `10.0.0.0/16` is dropped for it is included as `0.0.0.0/0` is, though the excluded
`10.0.0.0/8` lies between them. -/
example :
    let nets : Networks := [⟨0, 0, true, true⟩, ⟨10 * 2 ^ 24, 16, true, true⟩, ⟨10 * 2 ^ 24, 8, false, true⟩]
    LongestPrefix nets (10 * 2 ^ 24) true ∧ (match generateIPList true firstLeast nets 40 with
      | some (.ok l) => l.any fun d => !d.included && decide (Matches d (10 * 2 ^ 24))
      | _ => false) = true := by
  decide +kernel

/-! ## To the builder -/

theorem foldl_addRoute (l : List IpAddress) (builder : Builder) :
    l.foldl Builder.addRoute builder = { builder with routes := builder.routes ++ l } := by
  induction l generalizing builder with
  | nil => simp
  | cons n l ih =>
    rw [List.foldl_cons, ih]
    simp [Builder.addRoute]

theorem foldl_excludeRoute (l : List IpAddress) (builder : Builder) :
    l.foldl Builder.excludeRoute builder = { builder with excludedRoutes := builder.excludedRoutes ++ l } := by
  induction l generalizing builder with
  | nil => simp
  | cons n l ih =>
    rw [List.foldl_cons, ih]
    simp [Builder.excludeRoute]

/-- All the networks are given to the builder, each as what it is. -/
theorem mem_installRoutesExcluded : n ∈ (installRoutesExcluded {} nets).routes ++ (installRoutesExcluded {} nets).excludedRoutes ↔
    n ∈ nets := by
  unfold installRoutesExcluded getNetworks
  rw [foldl_addRoute, foldl_excludeRoute]
  cases hn : n.included <;> simp [hn]

theorem mem_installRoutesPostiveOnly (l : List IpAddress) (builder : Builder) :
    n ∈ (installRoutesPostiveOnly builder l).routes ↔ n ∈ builder.routes ∨ n ∈ l ∧ multicastRange.containsNet n = false := by
  unfold installRoutesPostiveOnly
  induction l generalizing builder with
  | nil => simp
  | cons m l ih =>
    rw [List.foldl_cons, ih, List.mem_cons]
    cases hm : multicastRange.containsNet m
    · simp only [Builder.addRoute, Bool.false_eq_true, if_false, List.mem_append, List.mem_singleton]
      constructor
      · rintro ((h | rfl) | ⟨h, hn⟩)
        · exact .inl h
        · exact .inr ⟨.inl rfl, hm⟩
        · exact .inr ⟨.inr h, hn⟩
      · rintro (h | ⟨rfl | h, hn⟩)
        · exact .inl (.inl h)
        · exact .inl (.inr rfl)
        · exact .inr ⟨h, hn⟩
    · simp only [if_true]
      constructor
      · rintro (h | ⟨h, hn⟩)
        · exact .inl h
        · exact .inr ⟨.inr h, hn⟩
      · rintro (h | ⟨rfl | h, hn⟩)
        · exact .inl h
        · rw [hm] at hn
          cases hn
        · exact .inr ⟨h, hn⟩

theorem LongestPrefix.congr {nets' : List IpAddress} (h : ∀ n, n ∈ nets ↔ n ∈ nets') :
    LongestPrefix nets a t ↔ LongestPrefix nets' a t := by
  unfold LongestPrefix
  simp only [h]

/-- A network of the list that is left out has no address below the range. -/
theorem containsNet_multicastRange (hn : Matches n a) (ha : a < 224 * 2 ^ 24) : multicastRange.containsNet n = false := by
  have hfirst : multicastRange.getFirstAddress = 224 * 2 ^ 24 := by decide +kernel
  unfold containsNet
  rw [hfirst, Bool.and_eq_false_iff]
  left
  have := hn.1
  rw [decide_eq_false_iff_not]
  omega

/-- **Both ways to install the routes agree.** For networks of IPv4 that are clear, the networks that go through the
tunnel after the rewriting route an address below the multicast range iff the longest prefix of those that the
builder is given otherwise is one of its routes; and above it they route no other address. -/
theorem install_agrees (hfamily : ∀ n ∈ nets, n.OfFamily true) (hclear : Marked.Clear (nets.map marked)) (debug : Bool)
    (pq : PriorityQueue compareTo) :
    ∃ l, Ends (getPositiveIPList debug pq nets) (.ok l) ∧ ∀ a,
      let builder := installRoutesExcluded {} nets
      ((∃ d ∈ (installRoutesPostiveOnly {} l).routes, Matches d a) →
        LongestPrefix (builder.routes ++ builder.excludedRoutes) a true) ∧
      (a < 224 * 2 ^ 24 → LongestPrefix (builder.routes ++ builder.excludedRoutes) a true →
        ∃ d ∈ (installRoutesPostiveOnly {} l).routes, Matches d a) := by
  obtain ⟨l, hends, -, -, hlist⟩ := generateIPList_decides hfamily hclear debug pq
  refine ⟨_, ends_map_iff.2 ⟨l, hends, rfl⟩, fun a => ?_⟩
  simp only [mem_installRoutesPostiveOnly, List.mem_filter, List.not_mem_nil, false_or, matches_iff]
  rw [LongestPrefix.congr fun _ => mem_installRoutesExcluded, longestPrefix_iff hfamily, ← hlist]
  constructor
  · rintro ⟨d, ⟨⟨hd, hincluded⟩, -⟩, hmatches⟩
    exact ⟨d, hd, hmatches, hincluded⟩
  · rintro ha ⟨d, hd, hmatches, hincluded⟩
    exact ⟨d, ⟨⟨hd, hincluded⟩, containsNet_multicastRange (matches_iff.2 hmatches) ha⟩, hmatches⟩

theorem install_agrees_splitTunnel : ∃ l, Ends (getPositiveIPList true firstLeast splitTunnel) (.ok l) ∧
    ∃ d ∈ (installRoutesPostiveOnly {} l).routes, Matches d (10 * 2 ^ 24 + 8 * 2 ^ 16 + 1) := by
  obtain ⟨l, hends, hagrees⟩ := install_agrees splitTunnel_family (by decide +kernel) true firstLeast
  exact ⟨l, hends, (hagrees _).2 (by decide +kernel) (by decide +kernel)⟩

end NetworkSpace

end SmartTunnel
