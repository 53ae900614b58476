import SmartTunnel.Proof.UdpgwTunnel

/-!
# The sockets of the server

A datagram goes into the buffer of the socket of its connection. The socket sends it when it can; a connection that
is closed takes its buffer with it. So what a socket sends is a beginning of what was put into its buffer, and as long
as the connection is there, nothing is missing but what the buffer holds (`Buffers`). With what the stream gives, the
datagrams of a socket are those of one flow, in their order (`tunnel_separates`). When the server gets its memory, its
sockets and its buffers, every datagram of the writer is put into a buffer (`tunnel_delivers`).
-/

namespace SmartTunnel

open Jvm UDPChannel UdpgwServer

namespace Tunnel

variable {options : Options} {env : Env} {client : Client} {t : Tunnel}

/-! ## The buffers -/

/-- The datagrams of a socket. -/
def onSocket (socket : ℕ) (ds : List (Datagram × Option PacketV4)) : List (Datagram × Option PacketV4) :=
  ds.filter fun d => d.1.socket == socket

@[simp] theorem onSocket_append (socket : ℕ) (ds ds' : List (Datagram × Option PacketV4)) :
    onSocket socket (ds ++ ds') = onSocket socket ds ++ onSocket socket ds' :=
  List.filter_append ..

@[simp] theorem onSocket_nil (socket : ℕ) : onSocket socket [] = [] := rfl

theorem onSocket_cons (socket : ℕ) (d : Datagram × Option PacketV4) (ds : List (Datagram × Option PacketV4)) :
    onSocket socket (d :: ds) = if d.1.socket = socket then d :: onSocket socket ds else onSocket socket ds := by
  simp [onSocket, List.filter_cons]

theorem onSocket_eq_nil {socket : ℕ} {ds : List (Datagram × Option PacketV4)} (h : ∀ d ∈ ds, d.1.socket ≠ socket) :
    onSocket socket ds = [] :=
  List.filter_eq_nil_iff.2 fun d hd => by simpa using h d hd

/-- The buffer of a connection that is there is kept. -/
theorem onSocket_kept {con : Connection} (hcon : con ∈ client.connectionsTree) (ds : List (Datagram × Option PacketV4)) :
    onSocket con.socket (keptBuffers client ds) = onSocket con.socket ds := by
  unfold onSocket keptBuffers
  rw [List.filter_filter]
  apply List.filter_congr
  intro d _
  rw [Bool.and_eq_left_iff_imp]
  exact fun hd => List.find?_isSome.2 ⟨con, hcon, beq_iff_eq.2 (beq_iff_eq.1 hd).symm⟩

/-- The buffer of a socket without a connection is gone. -/
theorem onSocket_freed {socket : ℕ} (hnone : ∀ con ∈ client.connectionsTree, con.socket ≠ socket)
    (ds : List (Datagram × Option PacketV4)) : onSocket socket (keptBuffers client ds) = [] := by
  apply onSocket_eq_nil
  intro d hd hs
  obtain ⟨con, hcon⟩ := Option.isSome_iff_exists.1 (List.mem_filter.1 hd).2
  have hsocket : con.socket = d.1.socket := by simpa using List.find?_some hcon
  exact hnone con (ofSocket_some hcon) (hsocket.trans hs)

/-- What the sockets have sent and what their buffers hold, of what was put into the buffers. -/
structure Buffers (t : Tunnel) : Prop where
  once : ∃ dropped, (t.sent ++ t.buffered ++ dropped).Perm t.submitted
  front : ∀ socket, onSocket socket t.sent ++ onSocket socket t.buffered <+: onSocket socket t.submitted
  all : ∀ con ∈ t.client.connectionsTree,
    onSocket con.socket t.sent ++ onSocket con.socket t.buffered = onSocket con.socket t.submitted

theorem Buffers.init : Buffers {} :=
  ⟨⟨[], .refl _⟩, fun _ => List.prefix_rfl, fun _ hcon => nomatch hcon⟩

/-- Datagrams are put into the buffers, and those of connections that are closed are freed. Another connection may be
opened. -/
theorem Buffers.submit (h : Buffers t) (hfresh : ∀ e ∈ t.submitted, e.1.socket < t.client.opened)
    (htree : ∀ con ∈ client.connectionsTree, con ∈ t.client.connectionsTree ∨ con.socket = t.client.opened)
    (wire served : List (Bytes × Option PacketV4)) (ds : List (Datagram × Option PacketV4)) :
    Buffers { t with
      wire := wire
      served := served
      client := client
      submitted := t.submitted ++ ds
      buffered := keptBuffers client (t.buffered ++ ds) } := by
  have hall : ∀ con ∈ client.connectionsTree,
      onSocket con.socket t.sent ++ onSocket con.socket t.buffered = onSocket con.socket t.submitted := by
    intro con hcon
    rcases htree con hcon with hmem | hnew
    · exact h.all con hmem
    · -- there was nothing for a new socket
      have hnone : onSocket con.socket t.submitted = [] :=
        onSocket_eq_nil fun d hd hs => absurd (hfresh d hd) (by omega)
      have hfront := h.front con.socket
      rw [hnone] at hfront ⊢
      exact List.prefix_nil.1 hfront
  have hopen : ∀ con ∈ client.connectionsTree, onSocket con.socket t.sent ++
      onSocket con.socket (keptBuffers client (t.buffered ++ ds)) = onSocket con.socket (t.submitted ++ ds) := by
    intro con hcon
    rw [onSocket_kept hcon, onSocket_append, onSocket_append, ← List.append_assoc, hall con hcon]
  refine ⟨?_, fun socket => ?_, hopen⟩
  · obtain ⟨dropped, hperm⟩ := h.once
    refine ⟨(t.buffered ++ ds).filter (fun d => !(ofSocket client.connectionsTree d.1.socket).isSome) ++ dropped, ?_⟩
    have hsplit := List.filter_append_perm (fun d => (ofSocket client.connectionsTree d.1.socket).isSome) (t.buffered ++ ds)
    calc t.sent ++ keptBuffers client (t.buffered ++ ds) ++ (_ ++ dropped)
      _ = t.sent ++ (keptBuffers client (t.buffered ++ ds) ++ _) ++ dropped := by simp only [List.append_assoc]
      List.Perm _ (t.sent ++ (t.buffered ++ ds) ++ dropped) := (hsplit.append_left _).append_right _
      _ = t.sent ++ t.buffered ++ (ds ++ dropped) := by simp only [List.append_assoc]
      List.Perm _ (t.sent ++ t.buffered ++ (dropped ++ ds)) := List.perm_append_comm.append_left _
      _ = t.sent ++ t.buffered ++ dropped ++ ds := by simp only [List.append_assoc]
      List.Perm _ (t.submitted ++ ds) := hperm.append_right _
  · by_cases hcon : ∃ con ∈ client.connectionsTree, con.socket = socket
    · obtain ⟨con, hcon, rfl⟩ := hcon
      rw [hopen con hcon]
    · have hfreed := onSocket_freed (fun con hmem hs => hcon ⟨con, hmem, hs⟩) (t.buffered ++ ds)
      simp only [hfreed, List.append_nil, onSocket_append]
      exact ((List.prefix_append _ _).trans (h.front socket)).trans (List.prefix_append _ _)

/-- A socket sends the first datagram of its buffer. -/
theorem Buffers.send (h : Buffers t) (options : Options) (socket : ℕ) : Buffers (t.step options (.send socket)) := by
  unfold step
  simp only
  split
  · rename_i d hfind
    obtain ⟨hd, front, back, hsplit, hfront⟩ := List.find?_eq_some_iff_append.1 hfind
    have herase : t.buffered.eraseP (fun d => d.1.socket == socket) = front ++ back := by
      rw [hsplit, List.eraseP_append_right _ (by simpa using hfront), List.eraseP_cons_of_pos (by exact hd)]
    have hnone : onSocket socket front = [] := onSocket_eq_nil (by simpa using hfront)
    -- for each socket the same datagrams are sent or in the buffer
    have hsame : ∀ socket', onSocket socket' (t.sent ++ [d]) ++ onSocket socket' (front ++ back) =
        onSocket socket' t.sent ++ onSocket socket' t.buffered := by
      intro socket'
      rw [hsplit]
      simp only [onSocket_append, onSocket_cons, onSocket_nil, List.append_assoc]
      by_cases hs : d.1.socket = socket'
      · rw [← hs, beq_iff_eq.1 hd, hnone, if_pos rfl, if_pos rfl]
        rfl
      · rw [if_neg hs, if_neg hs, List.nil_append]
    refine ⟨?_, fun socket' => ?_, fun con hcon => ?_⟩
    · obtain ⟨dropped, hperm⟩ := h.once
      refine ⟨dropped, .trans (.append_right _ ?_) hperm⟩
      rw [herase, hsplit, List.append_assoc, List.singleton_append]
      exact List.perm_middle.symm.append_left _
    · simp only [herase, hsame]
      exact h.front socket'
    · simp only [herase, hsame]
      exact h.all con hcon
  · exact h

/-- The writer and the reader of the channel. -/
def Event.atChannel : Event → Bool
  | .write _ _ | .keepAlive | .read _ => true
  | .serve _ | .other _ | .send _ => false

/-- Closing connections opens no other one. -/
theorem closeAll_tree (env : Env) (closed : List Connection) (client : Client) :
    (closeAll env closed client).connectionsTree.Sublist client.connectionsTree ∧
      (closeAll env closed client).opened = client.opened := by
  induction closed generalizing client with
  | nil => exact ⟨.refl _, rfl⟩
  | cons con closed ih =>
    obtain ⟨hsub, hopened⟩ := ih (connectionClose env con client)
    exact ⟨hsub.trans List.erase_sublist, hopened⟩

/-- A packet opens one socket at most, the next one. -/
theorem recv_tree (h : ClientInv options client) (hmax : 0 < options.maxConnectionsForClient) (env : Env) (packet : Bytes) :
    ∀ con ∈ (clientRecvIfHandlerSend options env packet client).1.connectionsTree,
      con ∈ client.connectionsTree ∨ con.socket = client.opened := by
  intro con hcon
  rcases h.asserts hmax env packet with heq | ⟨conid, origAddr, data, -, ⟨con', -, -, -, -, heq⟩ | ⟨closed, addr, -, -, -, -, heq⟩⟩
  · rw [heq] at hcon
    exact .inl hcon
  · rw [heq] at hcon
    exact .inl hcon
  · obtain ⟨hsub, hopened⟩ := closeAll_tree env closed client
    rw [heq] at hcon
    unfold connectionInit at hcon
    split at hcon
    · rcases List.mem_cons.1 hcon with rfl | hcon
      · exact .inr hopened
      · exact .inl (hsub.subset hcon)
    · exact .inl (hsub.subset hcon)

/-- What happens at the channel leaves the server as it is. -/
theorem step_channel (options : Options) (t : Tunnel) {e : Event} (he : e.atChannel = true) :
    (t.step options e).served = t.served ∧ (t.step options e).client = t.client ∧
      (t.step options e).submitted = t.submitted ∧ (t.step options e).buffered = t.buffered ∧
      (t.step options e).sent = t.sent := by
  cases e with
  | write random packet =>
    simp only [Tunnel.step]
    split
    · exact ⟨rfl, rfl, rfl, rfl, rfl⟩
    · split <;> exact ⟨rfl, rfl, rfl, rfl, rfl⟩
  | keepAlive =>
    simp only [Tunnel.step]
    split
    · exact ⟨rfl, rfl, rfl, rfl, rfl⟩
    · split <;> exact ⟨rfl, rfl, rfl, rfl, rfl⟩
  | read data =>
    simp only [Tunnel.step]
    split
    · exact ⟨rfl, rfl, rfl, rfl, rfl⟩
    · split <;> exact ⟨rfl, rfl, rfl, rfl, rfl⟩
  | _ => cases he

theorem Buffers.step (h : Buffers t) (hinv : Inv options t) (hmax : 0 < options.maxConnectionsForClient) (e : Event) :
    Buffers (t.step options e) := by
  by_cases he : e.atChannel = true
  · obtain ⟨-, hclient, hsubmitted, hbuffered, hsent⟩ := step_channel options t he
    refine ⟨?_, ?_, ?_⟩ <;> simp only [hclient, hsubmitted, hbuffered, hsent]
    · exact h.once
    · exact h.front
    · exact h.all
  · cases e with
    | serve env =>
      unfold Tunnel.step
      simp only
      split
      · exact h
      · exact h.submit hinv.fresh (recv_tree hinv.client hmax env _) _ _ _
    | other e =>
      have hnext := h.submit hinv.fresh (fun con hcon => .inl ((localStep_sublist options t.client e).1.subset hcon)) t.wire
        t.served []
      rw [List.append_nil, List.append_nil] at hnext
      exact hnext
    | send socket => exact h.send options socket
    | _ => exact absurd rfl he

theorem buffers_run (hmax : 0 < options.maxConnectionsForClient) (es : List Event) (hes : ∀ e ∈ es, Datagrams options e) :
    Buffers (Run.run (step options) {} es) :=
  (Run.invariant_run (I := fun t => Inv options t ∧ Buffers t)
    (fun _ e h (he : Datagrams options e) => ⟨h.1.step hmax e he, h.2.step h.1 hmax e⟩) ⟨Inv.init options, Buffers.init⟩
    (.of_events hes)).2

/-! ## No two flows share a socket -/

/-- What a datagram that a socket sent is to be: its destination and its data are those of a packet. -/
def Faithful (e : Datagram × Option PacketV4) : Prop :=
  ∃ p, e.2 = some p ∧ e.1.addr = destOf p ∧ p.data = some e.1.data

theorem Buffers.subset (h : Buffers t) : t.sent ⊆ t.submitted := by
  obtain ⟨dropped, hperm⟩ := h.once
  exact fun e he => hperm.subset (List.mem_append_left _ (List.mem_append_left _ he))

/-- **No two flows share a socket.** In any run of a channel and the server, with sockets closed at any time, every
datagram that a socket sends goes to the destination of a packet with the data of this packet. The packets they are
sent for were taken from the stream, each is sent at most once, and those that one socket sends come in the order of
the stream and have the same endpoints. -/
theorem tunnel_separates (hmax : 0 < options.maxConnectionsForClient) (es : List Event)
    (hes : ∀ e ∈ es, Datagrams options e) :
    let t := Run.run (step options) {} es
    (∀ e ∈ t.sent, Faithful e) ∧
    (t.sent.filterMap Prod.snd).Subperm (t.served.filterMap Prod.snd) ∧
    (∀ socket, ((onSocket socket t.sent).filterMap Prod.snd).Sublist (t.served.filterMap Prod.snd)) ∧
    ∀ e ∈ t.sent, ∀ e' ∈ t.sent, e.1.socket = e'.1.socket →
      ∃ p p', e.2 = some p ∧ e'.2 = some p' ∧ SameEndpoints p p' := by
  intro t
  have h : Inv options t := inv_run hmax es hes
  have hbuffers : Buffers t := buffers_run hmax es hes
  refine ⟨fun e he => h.faithful e (hbuffers.subset he), ?_, fun socket => ?_, ?_⟩
  · obtain ⟨dropped, hperm⟩ := hbuffers.once
    have hsub : (t.sent.filterMap Prod.snd).Sublist ((t.sent ++ t.buffered ++ dropped).filterMap Prod.snd) := by
      rw [List.append_assoc]
      exact (List.sublist_append_left _ _).filterMap _
    exact (hsub.subperm.trans (hperm.filterMap _).subperm).trans h.order.subperm
  · have hfront : onSocket socket t.sent <+: onSocket socket t.submitted :=
      (List.prefix_append _ _).trans (hbuffers.front socket)
    have hall : (onSocket socket t.sent).Sublist t.submitted := hfront.sublist.trans List.filter_sublist
    exact (hall.filterMap _).trans h.order
  · exact fun e he e' he' => h.apart e (hbuffers.subset he) e' (hbuffers.subset he')

/-- A query is written, the server serves it, and the socket sends it. -/
def exchange : List Event := [.write 0 (dnsQuery [1]), .serve ⟨fun _ => false, true, true, none⟩, .send 0]

theorem exchange_datagrams : ∀ e ∈ exchange, Datagrams ⟨16, 1⟩ e := by
  intro e he
  rcases List.mem_cons.1 he with rfl | he
  · exact .inr ⟨[1], dnsQuery_outgoing (by decide), by decide⟩
  · rcases List.mem_cons.1 he with rfl | he
    · trivial
    · rw [List.mem_singleton.1 he]
      trivial

theorem tunnel_separates_exchange : ∃ e ∈ (Run.run (step ⟨16, 1⟩) {} exchange).sent, Faithful e := by
  have hsent : (Run.run (step ⟨16, 1⟩) {} exchange).sent.length = 1 := rfl
  obtain ⟨e, he⟩ := List.length_eq_one_iff.1 hsent
  have hmem : e ∈ (Run.run (step ⟨16, 1⟩) {} exchange).sent := he ▸ List.mem_singleton_self e
  exact ⟨e, hmem, (tunnel_separates (by decide) exchange exchange_datagrams).1 e hmem⟩

/-! ## Delivery -/

/-- The server gets its memory, its sockets and its buffers. -/
def Serving : Event → Prop
  | .serve env => env.opens = true ∧ env.room = true
  | _ => True

/-- The packet that an event asks the writer to send, when it has data. -/
def offered : Event → Option PacketV4
  | .write _ packet => if packet.data.isNone then none else some packet
  | _ => none

/-- A closed channel does nothing. -/
theorem step_closed (options : Options) {e : Event} (he : e.atChannel = true) (hclosed : t.channel.mClosed = true) :
    t.step options e = t := by
  cases e with
  | write random packet => simp [Tunnel.step, hclosed]
  | keepAlive => simp [Tunnel.step, hclosed]
  | read data => simp [Tunnel.step, hclosed]
  | _ => cases he

/-- What happens at the server leaves the channel and the packets as they are, but for those it takes. -/
theorem step_server (options : Options) (t : Tunnel) {e : Event} (he : e.atChannel = false) :
    (t.step options e).channel = t.channel ∧ (t.step options e).served ++ (t.step options e).wire = t.served ++ t.wire := by
  cases e with
  | serve env =>
    unfold Tunnel.step
    simp only
    cases hwire : t.wire with
    | nil => exact ⟨rfl, by rw [hwire]⟩
    | cons e wire => exact ⟨rfl, by rw [List.append_assoc, List.singleton_append]⟩
  | other e => exact ⟨rfl, rfl⟩
  | send socket =>
    simp only [Tunnel.step]
    split <;> exact ⟨rfl, rfl⟩
  | _ => cases he

/-- The packets behind an event, as long as the channel is open. -/
theorem offered_step (e : Event) (he : Datagrams options e) (hopen : (t.step options e).channel.mClosed = false) :
    t.channel.mClosed = false ∧ ((t.step options e).served ++ (t.step options e).wire).filterMap Prod.snd =
      (t.served ++ t.wire).filterMap Prod.snd ++ (offered e).toList := by
  by_cases hside : e.atChannel = true
  · have hbefore : t.channel.mClosed = false := by
      by_contra hclosed
      rw [Bool.not_eq_false] at hclosed
      rw [step_closed options hside hclosed, hclosed] at hopen
      cases hopen
    refine ⟨hbefore, ?_⟩
    cases e with
    | write random packet =>
      rcases he with hnone | ⟨data, hout, -⟩
      · simp [Tunnel.step, hnone, offered]
      · have hsome : packet.data.isNone = false := by rw [hout.payload]; rfl
        simp only [Tunnel.step, hbefore, hsome, Bool.or_false, Bool.false_eq_true, if_false,
          generateUdpgwPacket_exec hout, put, offered]
        simp [List.filterMap_append]
    | keepAlive =>
      simp only [Tunnel.step, hbefore, Bool.false_eq_true, if_false, generate_keepAlive, put, offered]
      simp [List.filterMap_append]
    | read data =>
      simp only [Tunnel.step, hbefore, Bool.false_eq_true, if_false, offered]
      split <;> simp
    | _ => cases hside
  · rw [Bool.not_eq_true] at hside
    obtain ⟨hchannel, hpackets⟩ := step_server options t hside
    rw [hchannel] at hopen
    refine ⟨hopen, ?_⟩
    have hnone : offered e = none := by
      cases e with
      | write random packet => cases hside
      | _ => rfl
    rw [hpackets, hnone, Option.toList_none, List.append_nil]

/-- A server that gets what it needs puts the datagram of the packet it takes into a buffer. -/
theorem serve_submits (h : ClientInv options client) (hmax : 0 < options.maxConnectionsForClient) (flags : Byte)
    (conid : BitVec 16) (origAddr : BAddr) (data : Bytes) (hopens : env.opens = true) (hroom : env.room = true) :
    ∃ d, (UdpgwServer.serve options env flags conid origAddr data client).2 = [d] := by
  rcases h.serve_cases hmax env flags conid origAddr data with
    ⟨con, -, -, -, -, heq⟩ | ⟨closed, client', -, -, -, -, -, -, heq⟩
  · rw [heq, connectionSendToUdp, hroom]
    exact ⟨_, rfl⟩
  · rw [heq, connectionInit, hopens]
    simp only [connectionSendToUdp, hroom, if_true]
    exact ⟨_, rfl⟩

theorem submitted_step (h : Inv options t) (hmax : 0 < options.maxConnectionsForClient) (e : Event) (hserving : Serving e)
    (hsame : t.submitted.filterMap Prod.snd = t.served.filterMap Prod.snd) :
    (t.step options e).submitted.filterMap Prod.snd = (t.step options e).served.filterMap Prod.snd := by
  by_cases he : e.atChannel = true
  · obtain ⟨hserved, -, hsubmitted, -⟩ := step_channel options t he
    rw [hserved, hsubmitted]
    exact hsame
  · cases e with
    | serve env =>
      unfold Tunnel.step
      simp only
      cases hwire : t.wire with
      | nil => exact hsame
      | cons e wire =>
        have hwritten := h.writing.written e (by rw [hwire]; simp)
        cases hwritten with
        | keepAlive =>
          simp [List.filterMap_append, hsame]
        | datagram packet data flag id hout hfits hflag =>
          obtain ⟨d, hd⟩ := serve_submits h.client hmax flag (conidOf id) (destOf packet) data hserving.1 hserving.2
          simp only [recv_datagram hout hfits hflag, hd]
          simp [List.filterMap_append, hsame]
    | other e => exact hsame
    | send socket =>
      simp only [Tunnel.step]
      split <;> exact hsame
    | _ => exact absurd rfl he

/-- Over a run, what was put into the buffers is what was taken from the stream, and with the stream it is what was
offered. -/
theorem submitted_run (hmax : 0 < options.maxConnectionsForClient) (es : List Event) (hes : ∀ e ∈ es, Datagrams options e)
    (hserving : ∀ e ∈ es, Serving e) (hopen : (Run.run (step options) {} es).channel.mClosed = false) :
    (Run.run (step options) {} es).submitted.filterMap Prod.snd = (Run.run (step options) {} es).served.filterMap Prod.snd ∧
    ((Run.run (step options) {} es).served ++ (Run.run (step options) {} es).wire).filterMap Prod.snd =
      es.filterMap offered := by
  induction es using List.reverseRecOn with
  | nil => exact ⟨rfl, rfl⟩
  | append_singleton es e ih =>
    have hfront : ∀ e ∈ es, Datagrams options e := fun e he => hes e (List.mem_append_left _ he)
    have hinv : Inv options (Run.run (step options) {} es) := inv_run hmax es hfront
    have hlast : e ∈ es ++ [e] := List.mem_append_right _ (List.mem_singleton_self e)
    rw [Run.run_append] at hopen ⊢
    obtain ⟨hopen', hoffered⟩ := offered_step e (hes e hlast) hopen
    obtain ⟨hsame, hall⟩ := ih hfront (fun e he => hserving e (List.mem_append_left _ he)) hopen'
    refine ⟨submitted_step hinv hmax e (hserving e hlast) hsame, hoffered.trans ?_⟩
    rw [hall, List.filterMap_append]
    cases he : offered e <;> simp [he]

/-- Datagrams that are faithful go where their packets go, with their data. -/
theorem map_of_faithful {ds : List (Datagram × Option PacketV4)} (h : ∀ e ∈ ds, Faithful e) :
    ds.map (fun e => (e.1.addr, some e.1.data)) = (ds.filterMap Prod.snd).map fun packet => (destOf packet, packet.data) := by
  induction ds with
  | nil => rfl
  | cons e ds ih =>
    obtain ⟨p, hp, haddr, hdata⟩ := h e List.mem_cons_self
    rw [List.map_cons, List.filterMap_cons, hp, ih fun e he => h e (List.mem_cons_of_mem _ he)]
    simp only [List.map_cons, haddr, hdata]

/-- **Every datagram is put into a buffer once, in order.** When the server gets its memory, its sockets and its
buffers, and the channel is open and the stream empty after the run, the datagrams that went into the buffers of the
sockets are exactly those that the writer was given, each once, in order, for the destinations they are for.
Connections that were closed in between, for their number or by an error, make no difference to that. What a socket
has sent is a beginning of what was put into its buffer, and as long as its connection is there the rest is in the
buffer. -/
theorem tunnel_delivers (hmax : 0 < options.maxConnectionsForClient) (es : List Event) (hes : ∀ e ∈ es, Datagrams options e)
    (hserving : ∀ e ∈ es, Serving e) (hopen : (Run.run (step options) {} es).channel.mClosed = false)
    (hempty : (Run.run (step options) {} es).wire = []) :
    let t := Run.run (step options) {} es
    t.submitted.map (fun e => (e.1.addr, some e.1.data)) =
      (es.filterMap offered).map (fun packet => (destOf packet, packet.data)) ∧
    (∀ socket, onSocket socket t.sent <+: onSocket socket t.submitted) ∧
    ∀ con ∈ t.client.connectionsTree,
      onSocket con.socket t.sent ++ onSocket con.socket t.buffered = onSocket con.socket t.submitted := by
  intro t
  have hbuffers : Buffers t := buffers_run hmax es hes
  obtain ⟨hsame, hall⟩ := submitted_run hmax es hes hserving hopen
  rw [hempty, List.append_nil, ← hsame] at hall
  refine ⟨?_, fun socket => (List.prefix_append _ _).trans (hbuffers.front socket), hbuffers.all⟩
  rw [← hall]
  exact map_of_faithful (inv_run hmax es hes).faithful

theorem tunnel_delivers_exchange :
    (Run.run (step ⟨16, 1⟩) {} exchange).submitted.map (fun e => (e.1.addr, some e.1.data)) =
      [(.ipv4 [8, 8, 8, 8] [0, 53], some [1])] := by
  refine (tunnel_delivers (by decide) exchange exchange_datagrams ?_ rfl rfl).1
  intro e he
  rcases List.mem_cons.1 he with rfl | he
  · trivial
  · rcases List.mem_cons.1 he with rfl | he
    · exact ⟨rfl, rfl⟩
    · rw [List.mem_singleton.1 he]
      trivial

end Tunnel

end SmartTunnel
