import SmartTunnel.Base.Run
import SmartTunnel.Model.SshChannelManager
import SmartTunnel.Proof.Send

/-!
# Flows and their channels

An id is six fields between underscores, and an address four octets between dots, so ids are
equal only for equal flows (`channelId_eq_iff`). Every registered channel has the id of the
packet it was constructed from (`Registered`), which creation, delivery and removal keep.
-/

namespace SmartTunnel

open Jvm ByteUtil BigEndian

/-! ## Ids -/

theorem intercalate_inj {α : Type} [DecidableEq α] {x : α} {l m : List (List α)} (hl : ∀ f ∈ l, x ∉ f)
    (hm : ∀ f ∈ m, x ∉ f) (hl0 : l ≠ []) (hm0 : m ≠ []) (h : [x].intercalate l = [x].intercalate m) :
    l = m := by
  rw [← List.splitOn_intercalate x hl hl0, h, List.splitOn_intercalate x hm hm0]

theorem isDigit_of_mem_repr {c : Char} {n : ℕ} (h : c ∈ (Nat.repr n).toList) : c.isDigit := by
  rw [Nat.toList_repr] at h
  exact Nat.isDigit_of_mem_toDigits (by decide) (by decide) h

theorem underscore_not_mem_intRepr (a : ℤ) : '_' ∉ (Int.repr a).toList := by
  intro h
  rw [Int.repr_eq_if] at h
  split at h
  · exact absurd (isDigit_of_mem_repr h) (by decide)
  · rw [String.toList_append, List.mem_append] at h
    rcases h with h | h
    · exact absurd h (by decide)
    · exact absurd (isDigit_of_mem_repr h) (by decide)

namespace IPV4Header

theorem toList_getIPAddress (address : Bytes) :
    (getIPAddress address).toList = ['.'].intercalate (address.map fun b => (Nat.repr b.toNat).toList) := by
  induction address with
  | nil => rfl
  | cons b address ih =>
    rw [getIPAddress, String.toList_append, String.toList_append, ih]
    cases address with
    | nil => simp [List.intercalate]
    | cons b' address => simp [List.intercalate]

theorem underscore_not_mem_getIPAddress (address : Bytes) : '_' ∉ (getIPAddress address).toList := by
  induction address with
  | nil => exact List.not_mem_nil
  | cons b address ih =>
    rw [getIPAddress, String.toList_append, String.toList_append]
    intro h
    rcases List.mem_append.1 h with h | h
    · rcases List.mem_append.1 h with h | h
      · exact absurd (isDigit_of_mem_repr h) (by decide)
      · split at h
        · exact absurd h (by decide)
        · exact absurd h (by decide)
    · exact ih h

/-- Addresses are read back from their text. -/
theorem getIPAddress_inj {a b : Bytes} (ha : a ≠ []) (hb : b ≠ []) (h : getIPAddress a = getIPAddress b) :
    a = b := by
  have hdot : ∀ (l : Bytes), ∀ f ∈ l.map fun b => (Nat.repr b.toNat).toList, '.' ∉ f := by
    intro l f hf hmem
    obtain ⟨b, -, rfl⟩ := List.mem_map.1 hf
    exact absurd (isDigit_of_mem_repr hmem) (by decide)
  have hlist := congrArg String.toList h
  rw [toList_getIPAddress, toList_getIPAddress] at hlist
  have hmap := intercalate_inj (hdot a) (hdot b) (by simpa using ha) (by simpa using hb) hlist
  refine List.map_injective_iff.2 ?_ hmap
  intro x y hxy
  exact BitVec.eq_of_toNat_eq (Nat.repr_injective (String.toList_injective hxy))

end IPV4Header

/-- Addresses of four bytes and ports of two. -/
structure PacketV4.Addressed (p : PacketV4) : Prop where
  source : p.getSourceAddress.length = 4
  dest : p.getDestAddress.length = 4
  sourcePort : p.getSourcePort.length = 2
  destPort : p.getDestPort.length = 2

instance (p : PacketV4) : Decidable p.Addressed :=
  decidable_of_iff (p.getSourceAddress.length = 4 ∧ p.getDestAddress.length = 4 ∧
      p.getSourcePort.length = 2 ∧ p.getDestPort.length = 2)
    ⟨fun h => ⟨h.1, h.2.1, h.2.2.1, h.2.2.2⟩, fun h => ⟨h.source, h.dest, h.sourcePort, h.destPort⟩⟩

/-- What tells flows apart. -/
structure FiveTuple where
  sourceAddress : Bytes
  sourcePort : Bytes
  destAddress : Bytes
  destPort : Bytes
  protocol : Byte
  deriving DecidableEq, Repr

def PacketV4.fiveTuple (p : PacketV4) : FiveTuple :=
  ⟨p.getSourceAddress, p.getSourcePort, p.getDestAddress, p.getDestPort, p.getProtocolNumber⟩

/-- UDP to another port than 53. -/
def PacketV4.OtherUDP (p : PacketV4) : Prop := p.isUDP = true ∧ beNat p.getDestPort ≠ 53

instance (p : PacketV4) : Decidable p.OtherUDP := inferInstanceAs (Decidable (_ ∧ _))

namespace SshChannelManager

variable {p q : PacketV4}

theorem getIntValue_port {port : Bytes} (h : port.length = 2) :
    ∃ n : BitVec 32, getIntValue port = .ok n ∧ n.toNat = beNat port := by
  have hlt : beNat port < 256 ^ 2 := h ▸ beNat_lt port
  refine ⟨_, getIntValue_eq (by omega), ?_⟩
  rw [BitVec.toNat_ofNat]
  omega

theorem isOtherUDP_eq (hp : p.Addressed) : isOtherUDP p = .ok (decide p.OtherUDP) := by
  obtain ⟨n, hn, hnat⟩ := getIntValue_port hp.destPort
  have h53 : n = 53 ↔ beNat p.getDestPort = 53 := by
    rw [← hnat]
    exact BitVec.toNat_inj.symm
  cases hu : p.isUDP with
  | false => simp [isOtherUDP, PacketV4.OtherUDP, hu, pure, Except.pure]
  | true =>
    simp only [isOtherUDP, PacketV4.OtherUDP, hu, hn, if_true, pure, Except.pure, bind, Except.bind, ne_eq, h53,
      true_and]

/-- The six fields of an id. -/
def idFields (p : PacketV4) (sourcePort destPort : BitVec 32) : List (List Char) :=
  [(IPV4Header.getIPAddress p.getSourceAddress).toList, (Int.repr sourcePort.toInt).toList, ['t', 'o'],
    (IPV4Header.getIPAddress p.getDestAddress).toList, (Int.repr destPort.toInt).toList,
    (Int.repr p.getProtocolNumber.toInt).toList]

theorem underscore_not_mem_idFields (p : PacketV4) (sourcePort destPort : BitVec 32) :
    ∀ f ∈ idFields p sourcePort destPort, '_' ∉ f := by
  intro f hf
  simp only [idFields, List.mem_cons, List.not_mem_nil, or_false] at hf
  rcases hf with rfl | rfl | rfl | rfl | rfl | rfl
  · exact IPV4Header.underscore_not_mem_getIPAddress _
  · exact underscore_not_mem_intRepr _
  · decide
  · exact IPV4Header.underscore_not_mem_getIPAddress _
  · exact underscore_not_mem_intRepr _
  · exact underscore_not_mem_intRepr _

/-- The id of a flow, from the values of its ports. -/
theorem flowId_eq (hp : p.Addressed) :
    ∃ s d : BitVec 32, s.toNat = beNat p.getSourcePort ∧ d.toNat = beNat p.getDestPort ∧
      flowId p = .ok (String.ofList (['_'].intercalate (idFields p s d))) := by
  obtain ⟨s, hs, hsnat⟩ := getIntValue_port hp.sourcePort
  obtain ⟨d, hd, hdnat⟩ := getIntValue_port hp.destPort
  refine ⟨s, d, hsnat, hdnat, ?_⟩
  simp only [flowId, hs, hd, bind, Except.bind, pure, Except.pure, Except.ok.injEq]
  apply String.toList_injective
  simp [idFields, List.intercalate]

theorem flowId_inj (hp : p.Addressed) (hq : q.Addressed) (h : flowId p = flowId q) :
    p.fiveTuple = q.fiveTuple := by
  obtain ⟨s, d, hs, hd, hid⟩ := flowId_eq hp
  obtain ⟨s', d', hs', hd', hid'⟩ := flowId_eq hq
  rw [hid, hid', Except.ok.injEq, String.ofList_inj] at h
  have hfields := intercalate_inj (underscore_not_mem_idFields p s d) (underscore_not_mem_idFields q s' d')
    (List.cons_ne_nil _ _) (List.cons_ne_nil _ _) h
  simp only [idFields, List.cons.injEq, and_true, true_and, String.toList_inj, Int.repr_inj,
    BitVec.toInt_inj] at hfields
  obtain ⟨hsrc, rfl, hdst, rfl, hproto⟩ := hfields
  have hne : ∀ {a : Bytes}, a.length = 4 → a ≠ [] := by
    rintro _ h4 rfl
    cases h4
  simp only [PacketV4.fiveTuple, FiveTuple.mk.injEq]
  refine ⟨IPV4Header.getIPAddress_inj (hne hp.source) (hne hq.source) hsrc, ?_,
    IPV4Header.getIPAddress_inj (hne hp.dest) (hne hq.dest) hdst, ?_, hproto⟩
  · exact beNat_inj (hp.sourcePort.trans hq.sourcePort.symm) (hs.symm.trans hs')
  · exact beNat_inj (hp.destPort.trans hq.destPort.symm) (hd.symm.trans hd')

theorem flowId_ne (hp : p.Addressed) : flowId p ≠ .ok "udp_channel" := by
  obtain ⟨s, d, -, -, hid⟩ := flowId_eq hp
  rw [hid]
  intro h
  have hlist := congrArg String.toList (Except.ok.inj h)
  rw [String.toList_ofList] at hlist
  -- the reserved name has two fields
  have hsplit := congrArg (List.splitOn '_') hlist
  rw [List.splitOn_intercalate '_' (underscore_not_mem_idFields p s d) (List.cons_ne_nil _ _)] at hsplit
  have hlen := congrArg List.length hsplit
  have htwo : (List.splitOn '_' "udp_channel".toList).length = 2 := by decide +kernel
  rw [htwo] at hlen
  exact absurd hlen (by simp [idFields])

theorem channelId_eq (hp : p.Addressed) :
    channelId p = if p.OtherUDP then .ok "udp_channel" else flowId p := by
  simp only [channelId, isOtherUDP_eq hp, bind, Except.bind, decide_eq_true_eq]
  rfl

/-- **Ids are equal only for equal flows**, or for the UDP flows that share a channel. -/
theorem channelId_eq_iff (hp : p.Addressed) (hq : q.Addressed) :
    channelId p = channelId q ↔
      (p.OtherUDP ∧ q.OtherUDP) ∨ (¬ p.OtherUDP ∧ ¬ q.OtherUDP ∧ p.fiveTuple = q.fiveTuple) := by
  rw [channelId_eq hp, channelId_eq hq]
  by_cases hpu : p.OtherUDP <;> by_cases hqu : q.OtherUDP
  · simp [hpu, hqu]
  · simp only [hpu, hqu, if_true, if_false, not_true, false_and, or_false, and_false]
    exact ⟨fun h => absurd h.symm (flowId_ne hq), False.elim⟩
  · simp only [hpu, hqu, if_true, if_false, not_true, false_and, and_false, or_false]
    exact ⟨fun h => absurd h (flowId_ne hp), False.elim⟩
  · simp only [hpu, hqu, if_false, false_and, false_or, not_false_eq_true, true_and]
    constructor
    · exact flowId_inj hp hq
    · intro h
      simp only [PacketV4.fiveTuple, FiveTuple.mk.injEq] at h
      simp only [flowId, h.1, h.2.1, h.2.2.1, h.2.2.2.1, h.2.2.2.2]

/-! ## Runs -/

/-- The channel and the packet of a delivery, at construction or later. -/
def Effect.handed : Effect → Option (Channel × PacketV4)
  | .constructed channel => some (channel, channel.initialPacket)
  | .onNewPacket channel packet => some (channel, packet)
  | .interrupt _ => none

/-- The packets that the manager is given have addresses of four bytes and ports of two. -/
def Event.Addressed : Event → Prop
  | .sendToRemoteServer packet _ => packet.Addressed
  | .removeChannel _ _ => True

instance (e : Event) : Decidable e.Addressed :=
  match e with
  | .sendToRemoteServer packet _ => inferInstanceAs (Decidable packet.Addressed)
  | .removeChannel _ _ => inferInstanceAs (Decidable True)

/-- If a packet is TCP, it has SYN. -/
def Opens (p : PacketV4) : Prop :=
  ∀ tcp, p.mTransmissionProtocol = .tcp tcp → ∃ flag, tcp.mFlag = some flag ∧ flag.SYN ≠ 0

/-- A channel under its id, constructed from a packet of its flow. -/
structure ChannelOf (log : List Effect) (id : String) (ch : Channel) : Prop where
  constructed : .constructed ch ∈ log
  id_eq : ch.id = id
  addressed : ch.initialPacket.Addressed
  channelId : channelId ch.initialPacket = .ok id
  opens : Opens ch.initialPacket

/-- Registered channels and deliveries are under the ids of their packets. -/
structure Registered (m : SshChannelManager) : Prop where
  channels : ∀ id ch, m.mChannels.lookup id = some ch → ChannelOf m.log id ch
  handed : ∀ e ∈ m.log, ∀ ch p, e.handed = some (ch, p) →
    p.Addressed ∧ ∃ id, SshChannelManager.channelId p = .ok id ∧ ChannelOf m.log id ch

variable {m : SshChannelManager} {random : BitVec 32 × BitVec 16} {ids : List String}

theorem ChannelOf.append {log : List Effect} {id : String} {ch : Channel} (h : ChannelOf log id ch)
    (es : List Effect) : ChannelOf (log ++ es) id ch :=
  { h with constructed := List.mem_append_left _ h.constructed }

theorem createChannel_some {ref : ℕ} {id : String} {ch : Channel}
    (h : createChannel random ref id p = .ok (some ch)) :
    ch.ref = ref ∧ ch.id = id ∧ ch.initialPacket = p ∧ Opens p := by
  unfold createChannel at h
  split at h
  · rename_i tcp htcp
    rcases hflag : tcp.mFlag with _ | flag
    · rw [hflag] at h; cases h
    rw [hflag] at h
    simp only [deref_some, bind, Except.bind, pure, Except.pure] at h
    split_ifs at h with hsyn
    · cases Except.ok.inj h
    · split at h
      · cases h
      · cases Except.ok.inj h
        refine ⟨rfl, rfl, rfl, ?_⟩
        intro tcp' htcp'
        rw [htcp] at htcp'
        cases htcp'
        exact ⟨flag, hflag, hsyn⟩
  · rename_i udp hudp
    have hopens : Opens p := by
      intro tcp htcp
      rw [hudp] at htcp
      cases htcp
    simp only [bind, Except.bind, pure, Except.pure] at h
    split at h
    · cases h
    · split_ifs at h
      · cases Except.ok.inj h
        exact ⟨rfl, rfl, rfl, hopens⟩
      · cases Except.ok.inj h
        exact ⟨rfl, rfl, rfl, hopens⟩

/-- **What `sendToRemoteServer` can do**: nothing, deliver, or create. -/
theorem sendToRemoteServer_cases (random : BitVec 32 × BitVec 16) (p : PacketV4) (m : SshChannelManager) :
    (Java.exec (sendToRemoteServer random p) m).2 = m ∨
    (∃ id ch, channelId p = .ok id ∧ m.mChannels.lookup id = some ch ∧
      (Java.exec (sendToRemoteServer random p) m).2 = { m with log := m.log ++ [.onNewPacket ch p] }) ∨
    (∃ id ch, channelId p = .ok id ∧ m.mChannels.lookup id = none ∧
      createChannel random m.nextRef id p = .ok (some ch) ∧
      (Java.exec (sendToRemoteServer random p) m).2 = register id ch m) := by
  simp only [sendToRemoteServer, Java.exec_bind, Java.exec_lift, Java.exec_get, Java.exec_ite]
  rcases isOtherUDP p with _ | other
  · exact .inl rfl
  simp only
  split_ifs
  · exact .inl rfl
  rcases hid : channelId p with _ | id
  · exact .inl rfl
  simp only
  rcases hch : m.mChannels.lookup id with _ | ch
  · simp only [Java.exec_bind, Java.exec_lift, Java.exec_get]
    rcases hnew : createChannel random m.nextRef id p with _ | _ | ch
    · exact .inl rfl
    · exact .inl rfl
    · exact .inr (.inr ⟨id, ch, rfl, hch, hnew, rfl⟩)
  · exact .inr (.inl ⟨id, ch, rfl, hch, rfl⟩)

/-- `removeChannel` does nothing, or removes an entry that equals the channel. -/
theorem removeChannel_cases (ids : List String) (c : Channel) (m : SshChannelManager) :
    removeChannel ids c m = m ∨
    ∃ id ch, id ∈ ids ∧ m.mChannels.lookup id = some ch ∧ c.equals ch = true ∧
      removeChannel ids c m = { m with
        mChannels := m.mChannels.erase id
        mThreads := m.mThreads.erase id
        log := m.log ++ ((m.mThreads.lookup id).map Effect.interrupt).toList } := by
  unfold removeChannel
  rcases hfind : ids.find? fun id => (m.mChannels.lookup id).any c.equals with _ | id
  · exact .inl rfl
  · have hany := List.find?_some hfind
    simp only [Option.any_eq_true] at hany
    obtain ⟨ch, hch, heq⟩ := hany
    exact .inr ⟨id, ch, List.mem_of_find?_eq_some hfind, hch, heq, rfl⟩

theorem Registered.send (h : Registered m) (hp : p.Addressed) :
    Registered (Java.exec (sendToRemoteServer random p) m).2 := by
  rcases sendToRemoteServer_cases random p m with heq | ⟨id, ch, hid, hch, heq⟩ | ⟨id, ch, hid, hnone, hnew, heq⟩
  · rwa [heq]
  · rw [heq]
    constructor
    · intro id' ch' h'
      exact (h.channels id' ch' h').append _
    · intro e he ch' p' h'
      rcases List.mem_append.1 he with he | he
      · obtain ⟨hp', id', hid', hof⟩ := h.handed e he ch' p' h'
        exact ⟨hp', id', hid', hof.append _⟩
      · obtain rfl := List.mem_singleton.1 he
        cases h'
        exact ⟨hp, id, hid, (h.channels id ch hch).append _⟩
  · rw [heq]
    obtain ⟨-, hid', rfl, hopens⟩ := createChannel_some hnew
    have hof : ChannelOf (register id ch m).log id ch :=
      ⟨List.mem_append_right _ (List.mem_singleton_self _), hid', hp, hid, hopens⟩
    constructor
    · intro id' ch' h'
      by_cases hne : id' = id
      · subst hne
        rw [register, AList.lookup_insert] at h'
        cases h'
        exact hof
      · rw [register, AList.lookup_insert_ne hne] at h'
        exact (h.channels id' ch' h').append _
    · intro e he ch' p' h'
      rcases List.mem_append.1 he with he | he
      · obtain ⟨hp', id', hid', hof'⟩ := h.handed e he ch' p' h'
        exact ⟨hp', id', hid', hof'.append _⟩
      · obtain rfl := List.mem_singleton.1 he
        cases h'
        exact ⟨hp, id, hid, hof⟩

theorem Registered.remove (h : Registered m) (ids : List String) (c : Channel) :
    Registered (removeChannel ids c m) := by
  rcases removeChannel_cases ids c m with heq | ⟨id, ch, -, -, -, heq⟩
  · rwa [heq]
  · rw [heq]
    constructor
    · intro id' ch' h'
      by_cases hne : id' = id
      · subst hne
        rw [AList.lookup_erase] at h'
        cases h'
      · rw [AList.lookup_erase_ne hne] at h'
        exact (h.channels id' ch' h').append _
    · intro e he ch' p' h'
      rcases List.mem_append.1 he with he | he
      · obtain ⟨hp', id', hid', hof⟩ := h.handed e he ch' p' h'
        exact ⟨hp', id', hid', hof.append _⟩
      · -- an interrupted thread takes no packet
        obtain ⟨t, -, rfl⟩ := Option.map_eq_some_iff.1 (Option.mem_toList.1 he)
        cases h'

theorem Registered.step (h : Registered m) {e : Event} (he : e.Addressed) : Registered (step m e) := by
  cases e with
  | sendToRemoteServer packet random => exact h.send he
  | removeChannel channel ids => exact h.remove ids channel

theorem registered_new (udpgwPort : BitVec 32) : Registered (new udpgwPort) := by
  constructor
  · intro id ch h
    cases h
  · intro e he
    cases he

/-- **Calls keep registered channels under the ids of their flows.** -/
theorem registered_run (udpgwPort : BitVec 32) {es : List Event} (hes : ∀ e ∈ es, e.Addressed) :
    Registered (Run.run SshChannelManager.step (new udpgwPort) es) := by
  have hstep : ∀ (m : SshChannelManager) (e : Event), Registered m → e.Addressed →
      Registered (SshChannelManager.step m e) := fun _ _ h he => h.step he
  exact Run.invariant_run hstep (registered_new udpgwPort) (Run.Always.of_events hes)

/-- A packet was handed to a channel. -/
def Handed (m : SshChannelManager) (ch : Channel) (p : PacketV4) : Prop :=
  ∃ e ∈ m.log, e.handed = some (ch, p)

/-- Flows have their own channels. -/
structure Isolated (m : SshChannelManager) : Prop where
  /-- A packet goes to a channel that a packet of its flow created. -/
  flow : ∀ ch p, Handed m ch p → ¬ p.OtherUDP →
    .constructed ch ∈ m.log ∧ p.fiveTuple = ch.initialPacket.fiveTuple
  /-- The other UDP packets go to the channel with the reserved name, and only they do. -/
  shared : ∀ ch p, Handed m ch p → (ch.id = "udp_channel" ↔ p.OtherUDP)
  /-- There is one channel of a name. -/
  single : ∀ id ch, m.mChannels.lookup id = some ch → ch.id = id
  /-- No channel is created for a TCP packet without SYN. -/
  opened : ∀ ch, .constructed ch ∈ m.log → Opens ch.initialPacket

theorem Registered.isolated (h : Registered m) : Isolated m where
  flow := by
    rintro ch p ⟨e, he, hhanded⟩ hother
    obtain ⟨hp, id, hid, hof⟩ := h.handed e he ch p hhanded
    rcases (channelId_eq_iff hp hof.addressed).1 (hid.trans hof.channelId.symm) with ⟨hu, -⟩ | ⟨-, -, htuple⟩
    · exact absurd hu hother
    · exact ⟨hof.constructed, htuple⟩
  shared := by
    rintro ch p ⟨e, he, hhanded⟩
    obtain ⟨hp, id, hid, hof⟩ := h.handed e he ch p hhanded
    rw [channelId_eq hp] at hid
    rw [hof.id_eq]
    split_ifs at hid with hu
    · exact ⟨fun _ => hu, fun _ => (Except.ok.inj hid).symm⟩
    · refine ⟨fun hname => ?_, fun hu' => absurd hu' hu⟩
      rw [hname] at hid
      exact absurd hid (flowId_ne hp)
  single := fun id ch hch => (h.channels id ch hch).id_eq
  opened := by
    intro ch hch
    obtain ⟨-, _, -, hof⟩ := h.handed _ hch ch ch.initialPacket rfl
    exact hof.opens

/-- A client's SYN to `destAddress`. -/
def synTo (destAddress : Bytes) : PacketV4 where
  mIPV4Header := { TCPController.clientHeader with mDestAddress := destAddress }
  mTransmissionProtocol := .tcp (TCPController.clientSyn 1000)
  data := none

/-- A datagram of the client to `destPort`. -/
def datagramTo (destPort : Bytes) : PacketV4 where
  mIPV4Header := { TCPController.clientHeader with mProtocol := UDP.PROTOCOL_NUMBER }
  mTransmissionProtocol := .udp { mSourcePort := [200, 0], mDestPort := destPort }
  data := some [1]

/-- A connection, a DNS query and two other datagrams: three channels are created. -/
def fourPackets : List Event :=
  [.sendToRemoteServer (synTo [93, 184, 216, 34]) 0, .sendToRemoteServer (datagramTo [0, 53]) 0,
    .sendToRemoteServer (datagramTo [0, 123]) 0, .sendToRemoteServer (datagramTo [1, 187]) 0]

/-- Every registered channel has its thread under its id. -/
def Threaded (m : SshChannelManager) : Prop :=
  ∀ id ch, m.mChannels.lookup id = some ch → m.mThreads.lookup id = some ⟨ch.ref, id⟩

theorem Threaded.step (h : Threaded m) (e : Event) : Threaded (step m e) := by
  cases e with
  | sendToRemoteServer p random =>
    simp only [SshChannelManager.step]
    rcases sendToRemoteServer_cases random p m with heq | ⟨id, ch, -, -, heq⟩ | ⟨id, ch, -, -, -, heq⟩
    · rwa [heq]
    · rw [heq]
      exact h
    · rw [heq]
      intro id' ch' h'
      by_cases hne : id' = id
      · subst hne
        rw [register, AList.lookup_insert] at h'
        cases h'
        rw [register, AList.lookup_insert]
      · rw [register, AList.lookup_insert_ne hne] at h'
        rw [register, AList.lookup_insert_ne hne]
        exact h id' ch' h'
  | removeChannel c ids =>
    simp only [SshChannelManager.step]
    rcases removeChannel_cases ids c m with heq | ⟨id, ch, -, -, -, heq⟩
    · rwa [heq]
    · rw [heq]
      intro id' ch' h'
      by_cases hne : id' = id
      · subst hne
        rw [AList.lookup_erase] at h'
        cases h'
      · rw [AList.lookup_erase_ne hne] at h'
        rw [AList.lookup_erase_ne hne]
        exact h id' ch' h'

theorem threaded_run (udpgwPort : BitVec 32) (es : List Event) :
    Threaded (Run.run SshChannelManager.step (new udpgwPort) es) := by
  have hstep : ∀ (m : SshChannelManager) (e : Event), Threaded m → True →
      Threaded (SshChannelManager.step m e) := fun _ e h _ => h.step e
  refine Run.invariant_run hstep ?_ (Run.Always.of_events fun _ _ => trivial)
  intro id ch h
  cases h

/-- Only the channel `c` and its thread are touched. -/
structure TouchesOnly (c : Channel) (m after : SshChannelManager) : Prop where
  registered : ∀ id ch, m.mChannels.lookup id = some ch → ch.ref ≠ c.ref →
    after.mChannels.lookup id = some ch ∧ after.mThreads.lookup id = m.mThreads.lookup id
  interrupted : ∃ es, after.log = m.log ++ es ∧ ∀ t, .interrupt t ∈ es → t.channel = c.ref

/-- Every registered channel that equals `c` is `c`, or comes after `c` in the iteration. -/
def MetFirst (c : Channel) (ids : List String) (m : SshChannelManager) : Prop :=
  ∀ before id later, ids = before ++ id :: later → ∀ ch, m.mChannels.lookup id = some ch →
    c.equals ch = true → ch.ref = c.ref ∨ ∃ id' ∈ before, ∃ ch', m.mChannels.lookup id' = some ch' ∧ ch'.ref = c.ref

theorem equals_of_ref {c ch : Channel} (h : ch.ref = c.ref) : c.equals ch = true := by
  simp [Channel.equals, h]

theorem touchesOnly_of_removed (h : Threaded m) {c ch : Channel} {id : String}
    (hch : m.mChannels.lookup id = some ch) (href : ch.ref = c.ref) :
    TouchesOnly c m { m with
      mChannels := m.mChannels.erase id
      mThreads := m.mThreads.erase id
      log := m.log ++ ((m.mThreads.lookup id).map Effect.interrupt).toList } where
  registered := by
    intro id' ch' hch' hother
    have hne : id' ≠ id := by
      rintro rfl
      rw [hch] at hch'
      cases hch'
      exact hother href
    exact ⟨by rw [AList.lookup_erase_ne hne, hch'], by rw [AList.lookup_erase_ne hne]⟩
  interrupted := by
    refine ⟨_, rfl, ?_⟩
    intro t ht
    rw [h id ch hch] at ht
    simp only [Option.map_some, Option.toList_some, List.mem_singleton, Effect.interrupt.injEq] at ht
    rw [ht]
    exact href

/-- **Closing a channel touches only it exactly if the iteration meets no other channel that
equals it first.** -/
theorem removeChannel_touchesOnly_iff (udpgwPort : BitVec 32) (es : List Event) (c : Channel) (ids : List String) :
    let m := Run.run SshChannelManager.step (new udpgwPort) es
    TouchesOnly c m (removeChannel ids c m) ↔ MetFirst c ids m := by
  intro m
  have hthreads : Threaded m := threaded_run udpgwPort es
  constructor
  · intro h before id later hids ch hch heq
    by_contra hnot
    rw [not_or] at hnot
    obtain ⟨hother, hbefore⟩ := hnot
    -- the entry that goes is `id` or one before it, and is not `c`
    have hgone : ∃ id₀ ch₀, m.mChannels.lookup id₀ = some ch₀ ∧ ch₀.ref ≠ c.ref ∧
        ids.find? (fun id => (m.mChannels.lookup id).any c.equals) = some id₀ := by
      rcases hfind : before.find? fun id => (m.mChannels.lookup id).any c.equals with _ | id₀
      · refine ⟨id, ch, hch, hother, ?_⟩
        rw [hids, List.find?_append, hfind, Option.none_or]
        exact List.find?_cons_of_pos (by simp [hch, heq])
      · have hany := List.find?_some hfind
        obtain ⟨ch₀, hch₀, -⟩ := (Option.any_eq_true _ _).1 hany
        refine ⟨id₀, ch₀, hch₀, ?_, ?_⟩
        · intro href
          exact hbefore ⟨id₀, List.mem_of_find?_eq_some hfind, ch₀, hch₀, href⟩
        · rw [hids, List.find?_append, hfind, Option.some_or]
    obtain ⟨id₀, ch₀, hch₀, hother₀, hfind⟩ := hgone
    have hkept := (h.registered id₀ ch₀ hch₀ hother₀).1
    simp only [removeChannel, hfind, AList.lookup_erase] at hkept
    cases hkept
  · intro h
    rcases hfind : ids.find? fun id => (m.mChannels.lookup id).any c.equals with _ | id
    · simp only [removeChannel, hfind]
      exact ⟨fun id ch hch _ => ⟨hch, rfl⟩, [], (List.append_nil _).symm, fun t ht => by cases ht⟩
    · obtain ⟨hany, before, later, hids, hbefore⟩ := List.find?_eq_some_iff_append.1 hfind
      obtain ⟨ch, hch, heq⟩ := (Option.any_eq_true _ _).1 hany
      have href : ch.ref = c.ref := by
        rcases h before id later hids ch hch heq with href | ⟨id', hid', ch', hch', href⟩
        · exact href
        · have hnone := hbefore id' hid'
          simp [hch', equals_of_ref href] at hnone
      simp only [removeChannel, hfind]
      exact touchesOnly_of_removed hthreads hch href

/-- Two connections from one local port. -/
def twoConnections : SshChannelManager :=
  Run.run step (new 0) [.sendToRemoteServer (synTo [93, 184, 216, 34]) 0, .sendToRemoteServer (synTo [1, 1, 1, 1]) 0]

/-- The same connection is opened, closed and opened again. -/
def reopened (first : Channel) : SshChannelManager :=
  Run.run step (new 0) [.sendToRemoteServer (synTo [93, 184, 216, 34]) 0, .removeChannel first [first.id],
    .sendToRemoteServer (synTo [93, 184, 216, 34]) 0]

/-- Whichever connection the iteration meets first is removed when the other closes, and a
second close of a removed channel removes the new channel of its flow. -/
theorem other_connection_removed :
    let idA := "10.0.0.2_51200_to_93.184.216.34_80_6"
    let idB := "10.0.0.2_51200_to_1.1.1.1_80_6"
    let a := newChannel 0 .SshChannelV4TCP idA (synTo [93, 184, 216, 34])
    let b := newChannel 1 .SshChannelV4TCP idB (synTo [1, 1, 1, 1])
    ¬ TouchesOnly b twoConnections (removeChannel [idA, idB] b twoConnections) ∧
      ¬ TouchesOnly a twoConnections (removeChannel [idB, idA] a twoConnections) ∧
      ¬ TouchesOnly a (reopened a) (removeChannel [idA] a (reopened a)) := by
  intro idA idB a b
  refine ⟨fun h => ?_, fun h => ?_, fun h => ?_⟩
  · have hkept := (h.registered idA a (by decide +kernel) (by decide)).1
    exact absurd hkept (by decide +kernel)
  · have hkept := (h.registered idB b (by decide +kernel) (by decide)).1
    exact absurd hkept (by decide +kernel)
  · have hkept := (h.registered idA { a with ref := 1 } (by decide +kernel) (by decide)).1
    exact absurd hkept (by decide +kernel)

end SshChannelManager

end SmartTunnel
