import SmartTunnel.Proof.ClientTable
import SmartTunnel.Proof.Download
import SmartTunnel.Proof.HeaderCodec

/-!
# The identification of IP headers

A channel numbers its packets with a `short` that it widens to an `int` and writes with as many bytes
as that takes: four once the counter is negative, and for UDP, where no minimum is asked for, one or
none while it is small.

* `Steady.step`: what a run of the controller keeps, whichever threads take part.
* `Generates`: the headers that a controller generates one after the other (`run_generates`).
* `responsesFor`: the packets that a channel makes for one of its clients.
* `identification_iff`: **which packets carry their number in two bytes.**
-/

namespace SmartTunnel

open Jvm BigEndian ByteUtil

/-! ## What the events of a controller keep -/

namespace TCPController

/-- What neither sending a packet nor anything else that a thread does changes. -/
structure Steady (I : TCPController → Prop) : Prop where
  identified : ∀ c, I c → I c.identified
  sent : ∀ c data flag option, I c → I (c.sent data flag option)
  /-- The channel and the SYN stay; packets are dropped, or handed out again. -/
  other : ∀ c c' : TCPController, c'.mInitialHeader = c.mInitialHeader → c'.mIpIdentification = c.mIpIdentification →
    c'.mMaxSegmentSize = c.mMaxSegmentSize → (∀ w ∈ c'.mClientPackets, w ∈ c.mClientPackets) →
    (∀ packet, Effect.onPacketReadyForClient packet ∈ c'.log →
      Effect.onPacketReadyForClient packet ∈ c.log ∨ ∃ w ∈ c.mClientPackets, w.mPacket = some packet) →
    I c → I c'

namespace Steady

variable {I : TCPController → Prop} (h : Steady I)

include h

/-- A change of other fields only, with effects that hand out no packet. -/
theorem quiet {c c' : TCPController} (hc : I c) (effects : List Effect)
    (heffects : ∀ packet, Effect.onPacketReadyForClient packet ∉ effects)
    (hheader : c'.mInitialHeader = c.mInitialHeader) (hid : c'.mIpIdentification = c.mIpIdentification)
    (hmss : c'.mMaxSegmentSize = c.mMaxSegmentSize) (hclient : c'.mClientPackets = c.mClientPackets)
    (hlog : c'.log = c.log ++ effects) : I c' := by
  refine h.other c c' hheader hid hmss (by rw [hclient]; exact fun _ hw => hw) ?_ hc
  intro packet hmem
  rw [hlog, List.mem_append] at hmem
  exact .inl (hmem.resolve_right (heffects packet))

/-- A change of other fields only. -/
theorem silent {c c' : TCPController} (hc : I c) (hheader : c'.mInitialHeader = c.mInitialHeader)
    (hid : c'.mIpIdentification = c.mIpIdentification) (hmss : c'.mMaxSegmentSize = c.mMaxSegmentSize)
    (hclient : c'.mClientPackets = c.mClientPackets) (hlog : c'.log = c.log) : I c' :=
  h.quiet hc [] (by simp) hheader hid hmss hclient (by rw [hlog, List.append_nil])

theorem sendStable : SendStable I where
  identified := h.identified
  sent := h.sent
  state _ _ hc := h.silent hc rfl rfl rfl rfl rfl
  remoteSeq _ _ hc := h.silent hc rfl rfl rfl rfl rfl
  ended _ hc := h.silent hc rfl rfl rfl rfl rfl
  terminated _ hc := h.quiet hc [.onTermination] (by simp) rfl rfl rfl rfl rfl

theorem putToQueue (w : TCPPacketWrapper Segment) : Java.Keeps I (putToQueue w) := by
  intro c hc
  rw [putToQueue_exec]
  exact h.quiet hc [.queued w] (by simp) rfl rfl rfl rfl rfl

theorem updateClientSeqNumber (pk : Segment) : Java.Keeps I (updateClientSeqNumber pk) :=
  Java.Keeps.modify fun _ hc => h.silent hc rfl rfl rfl rfl rfl

theorem queueInSequence (pk : Segment) (push : Bool) : Java.Keeps I (queueInSequence pk push) :=
  Java.Keeps.bind (h.putToQueue _) fun _ => h.updateClientSeqNumber pk

theorem removeAcknowledgedPackets (ack : BitVec 32) : Java.Keeps I (removeAcknowledgedPackets ack) := by
  refine Java.Keeps.modify fun c hc => h.other c _ rfl rfl rfl ?_ (fun _ hlog => .inl hlog) hc
  intro w hw
  simp only at hw
  split at hw
  · exact List.mem_of_mem_drop hw
  · exact hw

/-- What is sent again was a packet in `mClientPackets`. -/
theorem acknowledge (pk : Segment) : Java.Keeps I (acknowledge pk) := by
  intro c hc
  have hcases := acknowledge_cases c pk
  generalize (Java.exec (TCPController.acknowledge pk) c).2 = c' at hcases
  cases hcases with
  | removed => exact h.removeAcknowledgedPackets _ c hc
  | resent lost _ _ hlost =>
    refine h.other c _ rfl rfl rfl (fun _ hw => hw) ?_ hc
    intro packet hmem
    simp only [List.mem_append, List.mem_map, Effect.onPacketReadyForClient.injEq, exists_eq_right] at hmem
    rcases hmem with hlog | hmem
    · exact .inl hlog
    · rcases hlost with rfl | ⟨option, sacks, -, -, hloss⟩
      · cases hmem
      · obtain ⟨w, hw, hpacket, -⟩ := lossPackets_mem hloss packet hmem
        exact .inr ⟨w, hw, hpacket⟩
  | finAcknowledged => exact h.silent hc rfl rfl rfl rfl rfl
  | terminated => exact h.sendStable.onTermination c hc
  | established => exact h.quiet hc [.onConnectionEstablished] (by simp) rfl rfl rfl rfl rfl
  | ignored => exact hc

theorem acceptFin (pk : Segment) : Java.Keeps I (acceptFin pk) := by
  have hs := h.sendStable
  have hemit : Java.Keeps I (emit .finAccepted) :=
    Java.Keeps.modify fun _ hc => h.quiet hc [.finAccepted] (by simp) rfl rfl rfl rfl rfl
  refine Java.Keeps.bind (h.updateClientSeqNumber pk) fun _ => Java.Keeps.bind hemit fun _ =>
    Java.Keeps.bind Java.Keeps.get fun _ => Java.Keeps.ite ?_ ?_
  · exact Java.Keeps.bind (hs.setState _) fun _ => Java.Keeps.bind (hs.sendACKToClient _) fun _ =>
      Java.Keeps.bind (hs.setState _) fun _ => hs.sendFINPacket
  · exact Java.Keeps.bind (hs.setState _) fun _ => hs.sendACKToClient _

theorem inSequence (pk : Segment) : Java.Keeps I (inSequence pk) := by
  have hs := h.sendStable
  rw [inSequence_eq]
  refine Java.Keeps.bind (Java.Keeps.ite ?_ (Java.Keeps.pure _)) fun _ => Java.Keeps.bind ?_ fun _ => ?_
  · exact Java.Keeps.bind (h.updateClientSeqNumber pk) fun _ => hs.sendACKToClient _
  · exact Java.Keeps.ite (h.queueInSequence pk _) (Java.Keeps.ite
      (Java.Keeps.ite (h.queueInSequence pk _) (h.acknowledge pk)) (Java.Keeps.pure _))
  · exact Java.Keeps.bind (Java.Keeps.ite hs.onTermination (Java.Keeps.pure _)) fun _ =>
      Java.Keeps.ite (h.acceptFin pk) (Java.Keeps.pure _)

theorem process (pk : Segment) : Java.Keeps I (process pk) := by
  have hs := h.sendStable
  refine Java.Keeps.ite (Java.Keeps.pure _) (Java.Keeps.bind ?_ fun _ => Java.Keeps.bind Java.Keeps.get fun _ =>
    Java.Keeps.ite ?_ (h.inSequence pk))
  · exact Java.Keeps.modify fun _ hc => h.silent hc rfl rfl rfl rfl rfl
  · exact outOfSequence_keeps (fun _ _ => hs.onTermination) hs.sendSacks (h.putToQueue _)

/-- **A step of any thread keeps it.** -/
theorem step (c : TCPController) (e : Event) (hc : I c) : I (c.step e) := by
  have hs := h.sendStable
  cases e with
  | connected => exact hs.handshake c hc
  | client pk => exact packetFromClient_keeps hs.ended c (fun _ => hc) fun _ => h.process pk c hc
  | poll =>
    change I (pollQueue c)
    unfold pollQueue
    split
    · exact hc
    · rename_i w queue _
      exact h.quiet hc [.polled w] (by simp) rfl rfl rfl rfl rfl
  | packetFromRemote data push => exact hs.sendDataToClient data push c hc
  | tick => exact hs.sendKeepAlivePacket c hc
  | close => exact hs.sendFINPacket c hc
  | remoteClosed => exact hs.sendFINPacket c hc
  | terminate => exact hs.terminate c hc

theorem run (c : TCPController) (events : List Event) (hc : I c) : I (Run.run TCPController.step c events) := by
  induction events generalizing c with
  | nil => exact hc
  | cons e events ih => exact ih (c.step e) (h.step c e hc)

end Steady

/-! ## The headers of a run -/

/-- `c` generates the headers one after the other and becomes `c'`; between two calls of `generateHeader`
anything may happen that leaves the channel and its SYN alone. -/
inductive Generates (c : TCPController) : List IPV4Header → TCPController → Prop
  | refl : Generates c [] c
  | other {headers : List IPV4Header} {c' c'' : TCPController} : Generates c headers c' →
      c''.mInitialHeader = c'.mInitialHeader → c''.mIpIdentification = c'.mIpIdentification →
      Generates c headers c''
  | call {headers : List IPV4Header} {c' c'' : TCPController} {h : IPV4Header} : Generates c headers c' →
      Java.exec generateHeader c' = (.ok h, c'') → Generates c (headers ++ [h]) c''

/-- The `n`-th header that a controller generates. -/
def headerAt (c : TCPController) (n : ℕ) : IPV4Header :=
  nextHeader { c with mIpIdentification := c.mIpIdentification + BitVec.ofNat 16 n }

theorem Generates.headers_eq {c c' : TCPController} {headers : List IPV4Header} (h : Generates c headers c') :
    c'.mInitialHeader = c.mInitialHeader ∧
      c'.mIpIdentification = c.mIpIdentification + BitVec.ofNat 16 headers.length ∧
      ∀ n header, headers[n]? = some header → header = c.headerAt n := by
  induction h with
  | refl => exact ⟨rfl, by simp, by simp⟩
  | other _ hinitial hid ih =>
    obtain ⟨h₁, h₂, h₃⟩ := ih
    exact ⟨hinitial.trans h₁, hid.trans h₂, h₃⟩
  | @call headers c' c'' h _ hexec ih =>
    obtain ⟨h₁, h₂, h₃⟩ := ih
    have hnext : ((Except.ok c'.nextHeader : Except JavaException IPV4Header), c'.identified) = (.ok h, c'') := hexec
    obtain ⟨rfl⟩ := Except.ok.inj (Prod.mk.inj hnext).1
    obtain rfl := (Prod.mk.inj hnext).2
    -- a call advances the identification by one
    refine ⟨h₁, ?_, ?_⟩
    · change c'.mIpIdentification + 1 = _
      rw [h₂, List.length_append, List.length_singleton, BitVec.ofNat_add, BitVec.add_assoc]
      rfl
    · intro n header hn
      rw [List.getElem?_append] at hn
      split at hn
      · exact h₃ n header hn
      · rw [List.getElem?_singleton] at hn
        split at hn
        · obtain rfl : n = headers.length := by omega
          rw [← Option.some.inj hn]
          unfold headerAt nextHeader
          rw [h₁, h₂]
        · cases hn

/-- **A run of a controller generates headers**, and every packet that it hands to its client, or keeps for
it, has one of them. -/
theorem run_generates {c : TCPController} (hlog : c.log = []) (hclient : c.mClientPackets = []) (events : List Event) :
    ∃ headers, Generates c headers (Run.run step c events) ∧
      ∀ packet, Effect.onPacketReadyForClient packet ∈ (Run.run step c events).log → packet.mIPV4Header ∈ headers := by
  set I : TCPController → Prop := fun c' => ∃ headers, Generates c headers c' ∧
    (∀ packet, Effect.onPacketReadyForClient packet ∈ c'.log → packet.mIPV4Header ∈ headers) ∧
    ∀ w ∈ c'.mClientPackets, ∀ packet, w.mPacket = some packet → packet.mIPV4Header ∈ headers with hI
  -- a header is drawn, a packet with it is handed out, or neither happens
  have hsteady : Steady I := by
    refine ⟨?_, ?_, ?_⟩
    · rintro c' ⟨headers, hgen, hhanded, hkept⟩
      refine ⟨headers ++ [c'.nextHeader], .call hgen rfl, ?_, ?_⟩
      · intro packet hmem
        exact List.mem_append_left _ (hhanded packet hmem)
      · intro w hw packet hpacket
        exact List.mem_append_left _ (hkept w hw packet hpacket)
    · rintro c' data flag option ⟨headers, hgen, hhanded, hkept⟩
      have hcall : Generates c (headers ++ [c'.nextHeader]) c'.identified := .call hgen rfl
      refine ⟨headers ++ [c'.nextHeader], .other hcall rfl rfl, ?_, ?_⟩
      · intro packet hmem
        simp only [sent, List.mem_append, List.mem_singleton, Effect.onPacketReadyForClient.injEq] at hmem
        rcases hmem with hmem | rfl
        · exact List.mem_append_left _ (hhanded packet hmem)
        · exact List.mem_append_right _ (List.mem_singleton_self _)
      · intro w hw packet hpacket
        simp only [sent, List.mem_append] at hw
        rcases hw with hw | hw
        · exact List.mem_append_left _ (hkept w hw packet hpacket)
        · split at hw
          · rw [List.mem_singleton] at hw
            subst hw
            rw [← Option.some.inj hpacket]
            exact List.mem_append_right _ (List.mem_singleton_self _)
          · cases hw
    · rintro c₁ c₂ hinitial hid - hclients hpackets ⟨headers, hgen, hhanded, hkept⟩
      refine ⟨headers, .other hgen hinitial hid, ?_, ?_⟩
      · intro packet hmem
        rcases hpackets packet hmem with hmem | ⟨w, hw, hpacket⟩
        · exact hhanded packet hmem
        · exact hkept w hw packet hpacket
      · intro w hw packet hpacket
        exact hkept w (hclients w hw) packet hpacket
  obtain ⟨headers, hgen, hhanded, -⟩ := hsteady.run c events ⟨[], .refl, by simp [hlog], by simp [hclient]⟩
  exact ⟨headers, hgen, hhanded⟩

end TCPController

/-! ## What a number takes -/

namespace IPV4Header

/-- The header carries the number in two bytes, and is laid out in twenty for every length of its packet. -/
structure Numbered (h : IPV4Header) (k : ℕ) : Prop where
  identification : ∃ id, h.mIdentification = some id ∧ id.length = 2 ∧ beNat id = k % 2 ^ 16
  serialises : ∀ totalLength < 2 ^ 16, ∃ header h', Java.exec getHeader (h.reset totalLength) = (.ok header, h') ∧
    header.length = 20

/-- A header whose identification has two bytes is laid out iff its flag has three bits. -/
theorem serialises_iff {h : IPV4Header} {id : Bytes} (hs : h.mSourceAddress.length = 4) (hd : h.mDestAddress.length = 4)
    (ho : h.mOptions = none) (hid : h.mIdentification = some id) (hid2 : id.length = 2) :
    (∀ totalLength < 2 ^ 16, ∃ header h', Java.exec getHeader (h.reset totalLength) = (.ok header, h') ∧
      header.length = 20) ↔ h.mFlag.toNat < 8 := by
  have hsized : h.Sized := by
    refine ⟨hs, hd, fun id' hid' => ?_, fun o ho' => ?_⟩
    · rw [← Option.some.inj (hid.symm.trans hid')]
      exact hid2
    · cases ho.symm.trans ho'
  have htwo : ∀ n < 2 ^ 16, (getByteFromInt (BitVec.ofNat 32 n) 2).length = 2 := fun n hn =>
    getByteFromInt_two_length (by rw [BitVec.toNat_ofNat]; omega)
  constructor
  · intro hall
    by_contra hflag
    obtain ⟨header, h', hexec, -⟩ := hall 0 (by decide)
    rw [getHeader_exec _ rfl] at hexec
    split at hexec
    · cases hexec
    · rename_i b hb
      exact (hsized.reset 0).generateInitialHeader_overflow rfl (htwo 0 (by decide)) hid (not_lt.1 hflag) b hb
  · intro hflag n hn
    obtain ⟨hlayout, hten, hafter⟩ := (hsized.reset n).generateInitialHeader_fits rfl (htwo n hn) hid hflag
    rw [show (h.reset n).mOptions = none from ho] at hafter
    obtain ⟨x, y, h', hexec, -⟩ := getHeader_fresh (.inl rfl) (by intro c hc; cases hc) hlayout hten
    refine ⟨_, h', hexec, ?_⟩
    simp only [List.length_append, List.length_cons, hten, hafter]
    rfl

end IPV4Header

/-- A `short` is widened with its sign. -/
theorem signExtend_short (x : BitVec 16) : (x.signExtend 32 : BitVec 32).toNat =
    if x.toNat < 2 ^ 15 then x.toNat else 2 ^ 32 - 2 ^ 16 + x.toNat := by
  have hlt := x.isLt
  rw [BitVec.toNat_signExtend, BitVec.toNat_setWidth]
  by_cases hx : x.toNat < 2 ^ 15
  · rw [BitVec.msb_eq_false_iff_two_mul_lt.2 (by omega), if_pos hx]
    simp only [Bool.false_eq_true, if_false]
    omega
  · rw [BitVec.msb_eq_true_iff_two_mul_ge.2 (by omega), if_neg hx]
    simp only [if_true]
    omega

/-- A header that is numbered by a `short`: what is asked of it is that the number takes two bytes. -/
theorem IPV4Header.numbered_iff {h : IPV4Header} {x : BitVec 16} {minByteArraySize k : ℕ}
    (hid : h.mIdentification = some (getByteFromInt (x.signExtend 32) minByteArraySize)) (hx : x.toNat = k % 2 ^ 16)
    (hs : h.mSourceAddress.length = 4) (hd : h.mDestAddress.length = 4) (ho : h.mOptions = none) :
    h.Numbered k ↔ (getByteFromInt (x.signExtend 32) minByteArraySize).length = 2 ∧ h.mFlag.toNat < 8 := by
  constructor
  · rintro ⟨⟨id, hid', htwo, -⟩, hserial⟩
    obtain rfl := Option.some.inj (hid.symm.trans hid')
    exact ⟨htwo, (serialises_iff hs hd ho hid htwo).1 hserial⟩
  · rintro ⟨htwo, hflag⟩
    refine ⟨⟨_, hid, htwo, ?_⟩, (serialises_iff hs hd ho hid htwo).2 hflag⟩
    have hlt := beNat_lt (getByteFromInt (x.signExtend 32) minByteArraySize)
    rw [htwo, beNat_getByteFromInt, signExtend_short] at hlt
    rw [beNat_getByteFromInt, signExtend_short, ← hx]
    split
    · rfl
    · rename_i hnegative
      rw [if_neg hnegative] at hlt
      omega

/-- Asked for two bytes, a `short` takes two unless it is negative. -/
theorem short_two_length (x : BitVec 16) : (getByteFromInt (x.signExtend 32) 2).length = 2 ↔ x.toNat < 2 ^ 15 := by
  have hlt := x.isLt
  have hmin := two_le_getByteFromInt_length (x.signExtend 32)
  have hle := getByteFromInt_length_le (x.signExtend 32) (n := 2) (k := 2) le_rfl (by decide)
  rw [signExtend_short] at hle
  split at hle <;> omega

/-- Asked for none, a `short` takes two unless it is negative or fits one. -/
theorem short_zero_length (x : BitVec 16) :
    (getByteFromInt (x.signExtend 32) 0).length = 2 ↔ 2 ^ 8 ≤ x.toNat ∧ x.toNat < 2 ^ 15 := by
  have hlt := x.isLt
  have htwo := getByteFromInt_length_le (x.signExtend 32) (n := 0) (k := 2) (by decide) (by decide)
  have hone := getByteFromInt_length_le (x.signExtend 32) (n := 0) (k := 1) (by decide) (by decide)
  rw [signExtend_short] at htwo hone
  split at htwo <;> split at hone <;> omega

/-! ## The responses of a client -/

namespace UDPChannel

/-- The packet that a call makes for the client at index `i`. -/
def responseFor (i : ℕ) (ch : UDPChannel) : Call → Option PacketV4
  | .generate _ _ => none
  | .create read =>
    if selected read = some (i : ℤ) then ((Java.exec (createUDPPacket read) ch).1.toOption).join else none

/-- The packets that a run makes for the client at index `i`, one after the other. -/
def responsesFor (i : ℕ) : UDPChannel → List Call → List PacketV4
  | _, [] => []
  | ch, call :: calls => (responseFor i ch call).toList ++ responsesFor i (callStep ch call) calls

/-- The writer does not replace the client at index `i`. -/
def LeavesEntry (i : ℕ) (ch : UDPChannel) (call : Call) : Prop :=
  ∀ random packet, call = .generate random packet → (callStep ch call).mUDPClients[i]? = ch.mUDPClients[i]?

/-- A call makes a response with the identification of the client and moves it on, or does neither. -/
theorem responseFor_cases {i : ℕ} {ch : UDPChannel} {client : UDPClient} {call : Call}
    (hentry : ch.mUDPClients[i]? = some client) (hleaves : LeavesEntry i ch call) :
    (responseFor i ch call = none ∧ (callStep ch call).mUDPClients[i]? = some client) ∨
      ∃ packet, responseFor i ch call = some packet ∧ packet.mIPV4Header = responseHeader client ∧
        (callStep ch call).mUDPClients[i]? = some { client with id := client.id + 1 } := by
  cases call with
  | generate random packet => exact .inl ⟨rfl, (hleaves random packet rfl).trans hentry⟩
  | create read =>
    simp only [responseFor, callStep]
    rcases createUDPPacket_cases read ch with ⟨r, hexec, hr⟩ | ⟨j, entry, packet, hsel, hj, hheader, hexec⟩
    · refine .inl ⟨?_, by rw [hexec]; exact hentry⟩
      rw [hexec]
      rcases r with e | (_ | packet)
      · simp [Except.toOption]
      · simp [Except.toOption]
      · exact absurd rfl (hr packet)
    · rw [hexec, hsel]
      simp only [getElem?_bumpId, hentry, Option.map_some]
      by_cases hij : j = i
      · subst hij
        obtain rfl : entry = client := Option.some.inj (hj.symm.trans hentry)
        exact .inr ⟨packet, by simp [Except.toOption], hheader, by simp⟩
      · exact .inl ⟨if_neg (by simpa using hij), by rw [if_neg hij]⟩

/-- **The `n`-th response of a client has its first identification plus `n`.** -/
theorem responsesFor_header {i : ℕ} {ch : UDPChannel} {client : UDPClient} {calls : List Call}
    (hentry : ch.mUDPClients[i]? = some client) (hleaves : Run.Always callStep (LeavesEntry i) ch calls) {n : ℕ}
    {packet : PacketV4} (hn : (responsesFor i ch calls)[n]? = some packet) :
    packet.mIPV4Header = responseHeader { client with id := client.id + BitVec.ofNat 16 n } := by
  induction calls generalizing ch client n with
  | nil => cases hn
  | cons call calls ih =>
    rw [responsesFor] at hn
    rcases responseFor_cases hentry hleaves.1 with ⟨hnone, hnext⟩ | ⟨first, hsome, hheader, hnext⟩
    · rw [hnone] at hn
      exact ih hnext hleaves.2 hn
    · rw [hsome] at hn
      cases n with
      | zero =>
        obtain rfl : first = packet := Option.some.inj hn
        rw [hheader]
        simp
      | succ n =>
        rw [ih hnext hleaves.2 (n := n) hn]
        rw [BitVec.add_assoc, show n + 1 = 1 + n by omega, BitVec.ofNat_add 1 n]
        rfl

end UDPChannel

/-! ## Which numbers are carried -/

theorem short_add (init : Fin UDPChannel.SHORT_MAX_VALUE) (n : ℕ) :
    (BitVec.ofNat 16 init + BitVec.ofNat 16 n).toNat = (init + n) % 2 ^ 16 := by
  rw [← BitVec.ofNat_add, BitVec.toNat_ofNat]

/-- **Which packets carry their number in two bytes.** The `n`-th header of a TCP channel does, and is laid
out, iff the counter is not negative and the flag of the SYN has three bits; the `n`-th response of a UDP
client does iff its counter is neither negative nor below 256. -/
theorem identification_iff (init : Fin UDPChannel.SHORT_MAX_VALUE)
    {header : IPV4Header} {tcp : TCP} {random : BitVec 32} {c c' : TCPController} {headers : List IPV4Header}
    (hnew : TCPController.new header tcp random (BitVec.ofNat 16 init) = .ok c)
    (hsource : header.mSourceAddress.length = 4) (hdest : header.mDestAddress.length = 4)
    (hgen : c.Generates headers c')
    {ch : UDPChannel} {i : ℕ} {client : UDPClient} {calls : List UDPChannel.Call}
    (hentry : ch.mUDPClients[i]? = some client) (hclient : client.id = BitVec.ofNat 16 init)
    (hlocal : client.localAddress.length = 4) (hremote : client.remoteAddress.length = 4)
    (hleaves : Run.Always UDPChannel.callStep (UDPChannel.LeavesEntry i) ch calls) (n : ℕ) :
    (∀ h, headers[n]? = some h → (h.Numbered (init + n) ↔ (init + n) % 2 ^ 16 < 2 ^ 15 ∧ header.mFlag.toNat < 8)) ∧
      ∀ packet, (UDPChannel.responsesFor i ch calls)[n]? = some packet →
        (packet.mIPV4Header.Numbered (init + n) ↔ 2 ^ 8 ≤ (init + n) % 2 ^ 16 ∧ (init + n) % 2 ^ 16 < 2 ^ 15) := by
  have hadd := short_add init n
  constructor
  · intro h hn
    obtain ⟨isn, window, mss, -, -, rfl⟩ := TCPController.new_ok hnew
    rw [hgen.headers_eq.2.2 n h hn, IPV4Header.numbered_iff rfl hadd hdest hsource rfl, short_two_length, hadd]
    rfl
  · intro packet hn
    rw [UDPChannel.responsesFor_header hentry hleaves hn, hclient,
      IPV4Header.numbered_iff rfl hadd hremote hlocal rfl, short_zero_length, hadd]
    have hflag : (UDPChannel.responseHeader { client with id := BitVec.ofNat 16 init + BitVec.ofNat 16 n }).mFlag.toNat < 8 := by
      change (0b010 : Byte).toNat < 8
      decide
    exact and_iff_left hflag

/-- A controller whose channel has drawn `init`. -/
def drawn (init : BitVec 16) : TCPController := { TCPController.accepting 1000 7 with mIpIdentification := init }

/-- The DNS client of `queried` with an identification of its own. -/
def dnsClient (id : BitVec 16) : UDPClient where
  id := id
  localPort := 51201
  localAddress := [10, 0, 0, 2]
  remotePort := 53
  remoteAddress := [8, 8, 8, 8]

/-- The first header and the first response carry the number 1000. -/
theorem identification_thousand :
    (drawn 1000).nextHeader.Numbered (1000 + 0) ∧
      ∃ packet, (UDPChannel.responsesFor 0 { mUDPClients := [dnsClient 1000], mClientIdCounter := 1 }
        [.create (UDPChannel.reply 0 53).encode])[0]? = some packet ∧ packet.mIPV4Header.Numbered (1000 + 0) := by
  have hnew : TCPController.new TCPController.clientHeader (TCPController.clientSyn 1000) 7 1000 = .ok (drawn 1000) := by
    decide +kernel
  have hgen : (drawn 1000).Generates [(drawn 1000).nextHeader] (drawn 1000).identified :=
    .call .refl rfl
  have hentry : ({ mUDPClients := [dnsClient 1000], mClientIdCounter := 1 } : UDPChannel).mUDPClients[0]? =
    some (dnsClient 1000) := rfl
  have hleaves : Run.Always UDPChannel.callStep (UDPChannel.LeavesEntry 0)
      { mUDPClients := [dnsClient 1000], mClientIdCounter := 1 } [.create (UDPChannel.reply 0 53).encode] :=
    ⟨(by rintro _ _ ⟨⟩), trivial⟩
  obtain ⟨htcp, hudp⟩ := identification_iff (1000 : Fin UDPChannel.SHORT_MAX_VALUE) hnew rfl rfl hgen hentry rfl rfl rfl
    hleaves 0
  refine ⟨(htcp _ rfl).2 (by decide), ⟨UDPChannel.responseHeader (dnsClient 1000), .udp (UDP.ofInts 53 51201), some [9]⟩, ?_, ?_⟩
  · decide +kernel
  · exact (hudp _ (by decide +kernel)).2 (by decide)

/-- **The third packet of a channel that has drawn 32766 has a number of four bytes**, and the first response
of a client that has drawn 7 a number of one. -/
theorem identification_not_carried :
    (∃ c c' headers h, TCPController.new TCPController.clientHeader (TCPController.clientSyn 1000) 7 32766 = .ok c ∧
      c.Generates headers c' ∧ headers[2]? = some h ∧ ¬ h.Numbered (32766 + 2)) ∧
    ∃ packet, (UDPChannel.responsesFor 0 UDPChannel.queried [.create (UDPChannel.reply 0 53).encode])[0]? = some packet ∧
      ¬ packet.mIPV4Header.Numbered (7 + 0) := by
  refine ⟨⟨drawn 32766, drawn 32769, [(drawn 32766).nextHeader, (drawn 32767).nextHeader, (drawn 32768).nextHeader],
    (drawn 32768).nextHeader, by decide +kernel, ?_, rfl, ?_⟩, ?_⟩
  · have hone : (drawn 32766).Generates [(drawn 32766).nextHeader] (drawn 32767) := .call .refl rfl
    have htwo : (drawn 32766).Generates [(drawn 32766).nextHeader, (drawn 32767).nextHeader] (drawn 32768) :=
      .call hone rfl
    exact .call htwo rfl
  · intro h
    have htwo := ((IPV4Header.numbered_iff rfl (by decide) rfl rfl rfl).1 h).1
    exact absurd ((short_two_length _).1 htwo) (by decide)
  · refine ⟨⟨UDPChannel.responseHeader (dnsClient 7), .udp (UDP.ofInts 53 51201), some [9]⟩, by decide +kernel, ?_⟩
    intro h
    have htwo := ((IPV4Header.numbered_iff rfl (by decide) rfl rfl rfl).1 h).1
    exact absurd ((short_zero_length _).1 htwo).1 (by decide)

end SmartTunnel
