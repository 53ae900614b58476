import SmartTunnel.Base.Run
import SmartTunnel.Proof.UDPDemux

/-!
# The table of UDP clients

`generateUdpgwPacket` looks the flow of a packet up in `mUDPClients` and adds it at
`mClientIdCounter` if it is not there. The counter is the length of the table until the table is
full, and wraps from then on (`TableInv`); an entry is replaced only by a flow that is not in
the table, so its flows stay different.

* `assigned_cases`: what happens to the table, with the flag and the id of the frame.
* `clientTable_run`: **over any run, every call does what its frame says.**
-/

namespace SmartTunnel

open Jvm ByteUtil

namespace UDPChannel

/-! ## Flows -/

/-- The entries are of one flow; the identification is not part of it. -/
structure SameFlow (a b : UDPClient) : Prop where
  localPort : a.localPort = b.localPort
  remotePort : a.remotePort = b.remotePort
  localAddress : a.localAddress = b.localAddress
  remoteAddress : a.remoteAddress = b.remoteAddress

theorem equals_iff {a b : UDPClient} : a.equals b = true ↔ SameFlow a b := by
  unfold UDPClient.equals
  simp only [Bool.and_eq_true, beq_iff_eq]
  constructor
  · rintro ⟨⟨⟨hlp, hrp⟩, hla⟩, hra⟩
    exact ⟨hlp, hrp, hla, hra⟩
  · rintro ⟨hlp, hrp, hla, hra⟩
    exact ⟨⟨⟨hlp, hrp⟩, hla⟩, hra⟩

theorem SameFlow.refl (a : UDPClient) : SameFlow a a := ⟨rfl, rfl, rfl, rfl⟩

theorem SameFlow.symm {a b : UDPClient} (h : SameFlow a b) : SameFlow b a :=
  ⟨h.localPort.symm, h.remotePort.symm, h.localAddress.symm, h.remoteAddress.symm⟩

theorem SameFlow.trans {a b c : UDPClient} (h : SameFlow a b) (h' : SameFlow b c) : SameFlow a c :=
  ⟨h.localPort.trans h'.localPort, h.remotePort.trans h'.remotePort, h.localAddress.trans h'.localAddress,
    h.remoteAddress.trans h'.remoteAddress⟩

/-- The entry is of the flow of the packet: its source and destination address and port. -/
structure FlowIs (packet : PacketV4) (client : UDPClient) : Prop where
  localPort : getIntValue packet.mTransmissionProtocol.getSourcePort = .ok client.localPort
  localAddress : packet.mIPV4Header.mSourceAddress = client.localAddress
  remotePort : getIntValue packet.mTransmissionProtocol.getDestPort = .ok client.remotePort
  remoteAddress : packet.mIPV4Header.mDestAddress = client.remoteAddress

variable {packet : PacketV4} {client client' : UDPClient} {ch : UDPChannel} {random : Fin SHORT_MAX_VALUE}

theorem FlowIs.sameFlow_iff (h : FlowIs packet client) : FlowIs packet client' ↔ SameFlow client client' := by
  constructor
  · intro h'
    exact ⟨Except.ok.inj (h.localPort.symm.trans h'.localPort), Except.ok.inj (h.remotePort.symm.trans h'.remotePort),
      h.localAddress.symm.trans h'.localAddress, h.remoteAddress.symm.trans h'.remoteAddress⟩
  · rintro ⟨hlp, hrp, hla, hra⟩
    exact ⟨by rw [h.localPort, hlp], h.localAddress.trans hla, by rw [h.remotePort, hrp], h.remoteAddress.trans hra⟩

/-! ## The table -/

/-- **The invariant of the table.** The counter is its length until it is full; its flows are different. -/
structure TableInv (ch : UDPChannel) : Prop where
  counter : (ch.mUDPClients.length ≤ MAX_CLIENT_ID ∧ ch.mClientIdCounter = ch.mUDPClients.length) ∨
    (ch.mUDPClients.length = MAX_CLIENT_ID + 1 ∧ ch.mClientIdCounter ≤ MAX_CLIENT_ID)
  distinct : ∀ (i j : ℕ) (a b : UDPClient), ch.mUDPClients[i]? = some a → ch.mUDPClients[j]? = some b → SameFlow a b → i = j

theorem TableInv.init : TableInv {} := by
  refine ⟨.inl ⟨by decide, rfl⟩, ?_⟩
  intro i j a b ha
  cases ha

/-- A new client takes the slot at the counter, and every other slot stays. -/
theorem getElem?_addClient (h : TableInv ch) (client : UDPClient) (j : ℕ) :
    (addClient client ch).mUDPClients[j]? = if j = ch.mClientIdCounter then some client else ch.mUDPClients[j]? := by
  have hcount := h.counter
  unfold addClient
  -- a full table gives the slot of an older flow
  by_cases hlt : ch.mClientIdCounter < ch.mUDPClients.length
  · simp only [if_pos hlt]
    rw [List.getElem?_set]
    by_cases hj : ch.mClientIdCounter = j
    · rw [if_pos hj, if_pos (by omega), if_pos hj.symm]
    · rw [if_neg hj, if_neg (Ne.symm hj)]
  · have hend : ch.mClientIdCounter = ch.mUDPClients.length := by omega
    simp only [if_neg hlt]
    rw [List.getElem?_append, hend]
    by_cases hj : j < ch.mUDPClients.length
    · rw [if_pos hj, if_neg (by omega)]
    · rw [if_neg hj, List.getElem?_singleton, List.getElem?_eq_none (by omega)]
      by_cases heq : j = ch.mUDPClients.length
      · rw [if_pos heq, if_pos (by omega)]
      · rw [if_neg heq, if_neg (by omega)]

theorem TableInv.addClient (h : TableInv ch) (hnew : ∀ c ∈ ch.mUDPClients, ¬ SameFlow client c) :
    TableInv (addClient client ch) := by
  have hcount := h.counter
  constructor
  · have hmax : MAX_CLIENT_ID = 255 := rfl
    unfold UDPChannel.addClient
    by_cases hlt : ch.mClientIdCounter < ch.mUDPClients.length
    · simp only [if_pos hlt, List.length_set]
      split <;> omega
    · simp only [if_neg hlt, List.length_append, List.length_singleton]
      split <;> omega
  · intro i j a b ha hb hab
    rw [getElem?_addClient h] at ha hb
    by_cases hi : i = ch.mClientIdCounter
    · by_cases hj : j = ch.mClientIdCounter
      · rw [hi, hj]
      · -- the new flow is not in the table
        rw [if_pos hi] at ha
        rw [if_neg hj] at hb
        cases ha
        exact absurd hab (hnew b (List.mem_of_getElem? hb))
    · by_cases hj : j = ch.mClientIdCounter
      · rw [if_neg hi] at ha
        rw [if_pos hj] at hb
        cases hb
        exact absurd hab.symm (hnew a (List.mem_of_getElem? ha))
      · rw [if_neg hi] at ha
        rw [if_neg hj] at hb
        exact h.distinct i j a b ha hb hab

theorem getElem?_bumpId (i j : ℕ) : (bumpId i ch).mUDPClients[j]? =
    (ch.mUDPClients[j]?).map fun c => if i = j then { c with id := c.id + 1 } else c := by
  unfold bumpId
  rw [List.getElem?_modify]
  by_cases hij : i = j
  · simp [hij]
  · simp [hij]

/-- A response changes an identification only. -/
theorem TableInv.bumpId (h : TableInv ch) (i : ℕ) : TableInv (bumpId i ch) := by
  refine ⟨?_, ?_⟩
  · have hcount := h.counter
    simpa [UDPChannel.bumpId] using hcount
  · intro j k a b ha hb hab
    rw [getElem?_bumpId, Option.map_eq_some_iff] at ha hb
    obtain ⟨a', ha', rfl⟩ := ha
    obtain ⟨b', hb', rfl⟩ := hb
    -- the identification is not part of the flow
    have hflow : ∀ (c : UDPClient) (l : ℕ), SameFlow (if i = l then { c with id := c.id + 1 } else c) c := by
      intro c l
      split
      · exact ⟨rfl, rfl, rfl, rfl⟩
      · exact .refl c
    exact h.distinct j k a' b' ha' hb' ((hflow a' j).symm.trans (hab.trans (hflow b' k)))

/-- **What happens to the table for a packet of the flow of `client`.** A flow that is in it keeps its slot,
with flag zero; one that is not takes the slot at the counter, with flag two. -/
theorem assigned_cases (random : Fin SHORT_MAX_VALUE) (client : UDPClient) (ch : UDPChannel) :
    (∃ i c, ch.mUDPClients[i]? = some c ∧ SameFlow client c ∧ assigned random client ch = ((0, i), ch)) ∨
      ((∀ c ∈ ch.mUDPClients, ¬ SameFlow client c) ∧ assigned random client ch =
        ((2, ch.mClientIdCounter), addClient { client with id := BitVec.ofNat 16 random } ch)) := by
  unfold assigned
  cases hfind : ch.mUDPClients.findIdx? client.equals with
  | some i =>
    obtain ⟨hi, heq, -⟩ := List.findIdx?_eq_some_iff_getElem.1 hfind
    exact .inl ⟨i, ch.mUDPClients[i], List.getElem?_eq_getElem hi, equals_iff.1 heq, rfl⟩
  | none =>
    refine .inr ⟨?_, rfl⟩
    intro c hc hsame
    have hfalse := List.findIdx?_eq_none_iff.1 hfind c hc
    rw [equals_iff.2 hsame] at hfalse
    cases hfalse

theorem TableInv.assigned (h : TableInv ch) (client : UDPClient) : TableInv (assigned random client ch).2 := by
  rcases assigned_cases random client ch with ⟨i, c, -, -, heq⟩ | ⟨hnew, heq⟩
  · rw [heq]
    exact h
  · rw [heq]
    exact h.addClient fun c hc hsame => hnew c hc ⟨hsame.localPort, hsame.remotePort, hsame.localAddress, hsame.remoteAddress⟩

/-! ## A call -/

/-- A call for a packet raises before it looks at the table, or it assigns an id. The frame it returns
carries the flag and the id in its third and fourth byte. -/
theorem generateUdpgwPacket_cases (random : Fin SHORT_MAX_VALUE) (packet : PacketV4) (ch : UDPChannel) :
    (∃ e, Java.exec (generateUdpgwPacket random (some packet)) ch = (.error e, ch)) ∨
      ∃ client r, FlowIs packet client ∧
        Java.exec (generateUdpgwPacket random (some packet)) ch = (r, (assigned random client ch).2) ∧
        ∀ frame, r = .ok frame → frame[2]? = some (assigned random client ch).1.1 ∧
          frame[3]? = some (BitVec.ofNat 8 (assigned random client ch).1.2) := by
  unfold generateUdpgwPacket
  simp only [Java.exec_bind, Java.exec_lift]
  cases hsp : getIntValue packet.mTransmissionProtocol.getSourcePort with
  | error e => exact .inl ⟨e, rfl⟩
  | ok localPort =>
  cases hdp : getIntValue packet.mTransmissionProtocol.getDestPort with
  | error e => exact .inl ⟨e, rfl⟩
  -- from here on an id is assigned, whether or not a frame comes of it
  | ok remotePort =>
    right
    set client : UDPClient := ⟨0, localPort, packet.mIPV4Header.mSourceAddress, remotePort, packet.mIPV4Header.mDestAddress⟩
    have hflow : FlowIs packet client := ⟨hsp, rfl, hdp, rfl⟩
    simp only [assignId_exec]
    cases hdata : packet.data with
    | none => exact ⟨client, _, hflow, rfl, fun frame hframe => by cases hframe⟩
    | some data =>
      simp only [deref_some]
      cases hlayout : ByteBuffer.layout (data.length + 3 + packet.mIPV4Header.mDestAddress.length +
          packet.mTransmissionProtocol.getDestPort.length) [some [(assigned random client ch).1.1],
            some [BitVec.ofNat 8 (assigned random client ch).1.2], some [0], some packet.mIPV4Header.mDestAddress,
            some packet.mTransmissionProtocol.getDestPort, some data] with
      | error e => exact ⟨client, _, hflow, rfl, fun frame hframe => by cases hframe⟩
      | ok payload =>
        refine ⟨client, _, hflow, rfl, ?_⟩
        rintro frame ⟨⟩
        set parts : List Bytes := [[(assigned random client ch).1.1], [BitVec.ofNat 8 (assigned random client ch).1.2], [0],
          packet.mIPV4Header.mDestAddress, packet.mTransmissionProtocol.getDestPort, data] with hparts
        have hlen : parts.flatten.length = data.length + 3 + packet.mIPV4Header.mDestAddress.length +
            packet.mTransmissionProtocol.getDestPort.length := by
          simp only [hparts, List.flatten_cons, List.flatten_nil, List.length_append, List.length_cons, List.length_nil]
          omega
        have hlayout' : ByteBuffer.layout (data.length + 3 + packet.mIPV4Header.mDestAddress.length +
          packet.mTransmissionProtocol.getDestPort.length) (parts.map some) = .ok payload := hlayout
        obtain ⟨bs, hbs, rfl, -, -⟩ := ByteBuffer.layout_ok hlayout' fun bs hbs => by
          rw [← List.map_injective_iff.2 (Option.some_injective _) hbs, hlen]
        obtain rfl := List.map_injective_iff.2 (Option.some_injective _) hbs
        exact ⟨rfl, rfl⟩

/-- The table and the counter are in their bounds, and the flows are different. -/
structure Bounded (ch : UDPChannel) : Prop where
  size : ch.mUDPClients.length ≤ 256
  counter : ch.mClientIdCounter ≤ 255
  distinct : ∀ (i j : ℕ) (a b : UDPClient), ch.mUDPClients[i]? = some a → ch.mUDPClients[j]? = some b →
    SameFlow a b → i = j

theorem TableInv.bounded (h : TableInv ch) : Bounded ch := by
  have hmax : MAX_CLIENT_ID = 255 := rfl
  have hcount := h.counter
  exact ⟨by omega, by omega, h.distinct⟩

/-- **What a call of `generateUdpgwPacket` does**, which returned `r` and left the channel `ch'`. A keep-alive
changes nothing. The frame for a packet carries the index of the flow of the packet, and tells whether the
flow was there; no other entry changes. -/
structure CallOK (ch : UDPChannel) (packet : Option PacketV4) (r : Except JavaException Bytes) (ch' : UDPChannel) :
    Prop where
  keepAlive : packet = none → ch'.mUDPClients = ch.mUDPClients ∧ ch'.mClientIdCounter = ch.mClientIdCounter
  others : ∃ id < 256, ∀ j, j ≠ id → ch'.mUDPClients[j]? = ch.mUDPClients[j]?
  frame : ∀ pk frame, packet = some pk → r = .ok frame → ∃ (id : ℕ) (flag : Byte) (client : UDPClient), id < 256 ∧
    frame[2]? = some flag ∧ frame[3]? = some (BitVec.ofNat 8 id) ∧
    ch'.mUDPClients[id]? = some client ∧ FlowIs pk client ∧
    ((∃ c ∈ ch.mUDPClients, FlowIs pk c) → flag = 0 ∧ ch'.mUDPClients = ch.mUDPClients) ∧
    ((∀ c ∈ ch.mUDPClients, ¬ FlowIs pk c) → flag = 2) ∧
    ∀ j, j ≠ id → ch'.mUDPClients[j]? = ch.mUDPClients[j]?

/-- The slot that a packet is given, and what becomes of the others. -/
theorem assigned_ok_of_inv (random : Fin SHORT_MAX_VALUE) (h : TableInv ch) (hflow : FlowIs packet client) :
    ∃ id flag client', (assigned random client ch).1 = (flag, id) ∧ id < 256 ∧
      (assigned random client ch).2.mUDPClients[id]? = some client' ∧ FlowIs packet client' ∧
      ((∃ c ∈ ch.mUDPClients, FlowIs packet c) →
        flag = 0 ∧ (assigned random client ch).2.mUDPClients = ch.mUDPClients) ∧
      ((∀ c ∈ ch.mUDPClients, ¬ FlowIs packet c) → flag = 2) ∧
      ∀ j, j ≠ id → (assigned random client ch).2.mUDPClients[j]? = ch.mUDPClients[j]? := by
  have hbounds := h.bounded
  simp only [hflow.sameFlow_iff]
  rcases assigned_cases random client ch with ⟨i, c, hc, hsame, heq⟩ | ⟨hnew, heq⟩
  · rw [heq]
    have hi := (List.getElem?_eq_some_iff.1 hc).1
    have hsize := hbounds.size
    refine ⟨i, 0, c, rfl, by omega, hc, hsame, fun _ => ⟨rfl, rfl⟩, ?_, fun _ _ => rfl⟩
    intro hnone
    exact absurd hsame (hnone c (List.mem_of_getElem? hc))
  · rw [heq]
    have hcount := hbounds.counter
    refine ⟨ch.mClientIdCounter, 2, { client with id := BitVec.ofNat 16 random }, rfl, by omega, ?_, ?_, ?_,
      fun _ => rfl, ?_⟩
    · rw [getElem?_addClient h, if_pos rfl]
    · exact ⟨rfl, rfl, rfl, rfl⟩
    · rintro ⟨c, hc, hsame⟩
      exact absurd hsame (hnew c hc)
    · intro j hj
      rw [getElem?_addClient h, if_neg hj]

/-- **A call for a packet or for a keep-alive is right**, and keeps the invariant. -/
theorem generateUdpgwPacket_ok (h : TableInv ch) (random : Fin SHORT_MAX_VALUE) (packet : Option PacketV4) :
    CallOK ch packet (Java.exec (generateUdpgwPacket random packet) ch).1
        (Java.exec (generateUdpgwPacket random packet) ch).2 ∧
      TableInv (Java.exec (generateUdpgwPacket random packet) ch).2 := by
  cases packet with
  | none =>
    have hexec : (Java.exec (generateUdpgwPacket random none) ch).2 = ch := by
      unfold generateUdpgwPacket
      simp only [Java.exec_bind, Java.exec_lift]
      rfl
    rw [hexec]
    refine ⟨⟨fun _ => ⟨rfl, rfl⟩, ⟨0, by decide, fun _ _ => rfl⟩, ?_⟩, h⟩
    intro pk frame hpk
    cases hpk
  | some packet =>
    rcases generateUdpgwPacket_cases random packet ch with ⟨e, hexec⟩ | ⟨client, r, hflow, hexec, hframe⟩
    · -- it has raised before the table was read
      rw [hexec]
      refine ⟨⟨fun _ => ⟨rfl, rfl⟩, ⟨0, by decide, fun _ _ => rfl⟩, ?_⟩, h⟩
      intro pk frame _ hr
      cases hr
    · rw [hexec]
      obtain ⟨id, flag, client', hid, hlt, hentry, hflow', hknown, hunknown, hothers⟩ :=
        assigned_ok_of_inv random h hflow
      refine ⟨⟨by simp, ⟨id, hlt, hothers⟩, ?_⟩, h.assigned client⟩
      rintro pk frame ⟨⟩ hr
      obtain ⟨h2, h3⟩ := hframe frame hr
      rw [hid] at h2 h3
      exact ⟨id, flag, client', hlt, h2, h3, hentry, hflow', hknown, hunknown, hothers⟩

/-! ## Runs -/

/-- A call on the channel: of `generateUdpgwPacket` by the writer, or of `createUDPPacket` by the reader. -/
inductive Call
  | generate (random : Fin SHORT_MAX_VALUE) (packet : Option PacketV4)
  | create (read : Bytes)

def callStep (ch : UDPChannel) : Call → UDPChannel
  | .generate random packet => (Java.exec (generateUdpgwPacket random packet) ch).2
  | .create read => (Java.exec (createUDPPacket read) ch).2

/-- The table is in its bounds after the call, and a call of `generateUdpgwPacket` is right. -/
def CallsOK (ch : UDPChannel) (call : Call) : Prop :=
  Bounded (callStep ch call) ∧ ∀ random packet, call = .generate random packet →
    CallOK ch packet (Java.exec (generateUdpgwPacket random packet) ch).1 (callStep ch call)

theorem callStep_ok (h : TableInv ch) (call : Call) : CallsOK ch call ∧ TableInv (callStep ch call) := by
  cases call with
  | generate random packet =>
    obtain ⟨hcall, hinv⟩ := generateUdpgwPacket_ok h random packet
    refine ⟨⟨hinv.bounded, ?_⟩, hinv⟩
    rintro _ _ ⟨⟩
    exact hcall
  | create read =>
    have hinv : TableInv (Java.exec (createUDPPacket read) ch).2 := by
      rcases createUDPPacket_state read ch with heq | ⟨i, heq⟩
      · rw [heq]
        exact h
      · rw [heq]
        exact h.bumpId i
    refine ⟨⟨hinv.bounded, ?_⟩, hinv⟩
    rintro _ _ ⟨⟩

/-- **Over any run of a channel every call does what its frame says.** -/
theorem clientTable_run (calls : List Call) : Run.Always callStep CallsOK {} calls :=
  Run.Always.of_invariant (I := TableInv) (fun _ call h (_ : True) => callStep_ok h call)
    TableInv.init (.of_events fun _ _ => trivial)

end UDPChannel

end SmartTunnel
