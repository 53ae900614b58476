import SmartTunnel.Base.Run
import SmartTunnel.Base.Table
import SmartTunnel.Model.UdpgwServer

/-!
# The connections of a udpgw server

Whatever packets a client sends, and whatever happens to its sockets, its connections have different `conid`s and
sockets, the tree and the list hold the same ones, and there are no more than it may have (`ClientInv`). A packet
with a datagram opens a connection only in a state in which there is none of its `conid` and one more is allowed, and
for a datagram that is not too long, which is what `connection_init` asserts (`server_run`).
-/

namespace SmartTunnel

open Jvm

namespace UdpgwServer

variable {options : Options} {env : Env} {client : Client} {con : Connection} {conid : BitVec 16} {data : Bytes}

/-- What holds of the connections of a client. -/
structure ClientInv (options : Options) (client : Client) : Prop where
  tree : client.connectionsTree.Perm client.connectionsList
  conids : Table.Distinct Connection.conid client.connectionsTree
  count : client.numConnections = client.connectionsTree.length
  bound : client.numConnections ≤ options.maxConnectionsForClient
  sockets : Table.Distinct Connection.socket (client.connectionsTree ++ client.closingConnectionsList)
  opened : ∀ con ∈ client.connectionsTree ++ client.closingConnectionsList, con.socket < client.opened

theorem ClientInv.init (options : Options) : ClientInv options {} :=
  ⟨.refl _, List.nodup_nil, rfl, Nat.zero_le _, List.nodup_nil, by simp⟩

theorem findConnection_some (h : findConnection client conid = some con) : con ∈ client.connectionsTree ∧ con.conid = conid :=
  ⟨List.mem_of_find?_eq_some h, by simpa using List.find?_some h⟩

theorem findConnection_none_iff : findConnection client conid = none ↔ ∀ con ∈ client.connectionsTree, con.conid ≠ conid := by
  unfold findConnection
  rw [List.find?_eq_none]
  simp

theorem ofSocket_some {cons : List Connection} {socket : ℕ} (h : ofSocket cons socket = some con) : con ∈ cons :=
  List.mem_of_find?_eq_some h

/-! ## What an operation does to the connections -/

theorem ClientInv.close (h : ClientInv options client) (env : Env) (hcon : con ∈ client.connectionsTree) :
    ClientInv options (connectionClose env con client) := by
  have hlen := List.length_erase_of_mem hcon
  have hpos := List.length_pos_of_mem hcon
  have hperm : client.connectionsTree.Perm (con :: client.connectionsTree.erase con) := List.perm_cons_erase hcon
  refine ⟨h.tree.erase con, ?_, ?_, ?_, ?_, ?_⟩
  · exact h.conids.sublist (List.erase_sublist.map _)
  · simp only [connectionClose, h.count, hlen]
  · have := h.bound
    simp only [connectionClose]
    omega
  · -- a busy connection goes from the tree to the closing ones
    simp only [connectionClose]
    split
    · refine h.sockets.perm ?_
      refine (hperm.append_right _).trans ?_
      rw [List.cons_append, ← List.append_assoc]
      exact (List.perm_append_singleton _ _).symm
    · exact h.sockets.sublist ((List.erase_sublist.append_right _).map _)
  · intro c hc
    apply h.opened
    simp only [connectionClose, List.mem_append] at hc ⊢
    rcases hc with hc | hc
    · exact .inl (List.mem_of_mem_erase hc)
    · split at hc
      · rcases List.mem_append.1 hc with hc | hc
        · exact .inr hc
        · exact .inl (List.mem_singleton.1 hc ▸ hcon)
      · exact .inr hc

/-- A closed connection is not found any more. -/
theorem ClientInv.findConnection_close (h : ClientInv options client) (env : Env) (hcon : con ∈ client.connectionsTree) :
    findConnection (connectionClose env con client) con.conid = none := by
  rw [findConnection_none_iff]
  intro c hc heq
  have hnodup : client.connectionsTree.Nodup := h.conids.of_map
  obtain ⟨hne, hmem⟩ := hnodup.mem_erase_iff.1 hc
  exact hne (h.conids.eq_of_key hmem hcon heq)

theorem ClientInv.touch (h : ClientInv options client) (hcon : con ∈ client.connectionsTree) :
    ClientInv options (touch con client) := by
  have hmem := h.tree.mem_iff.1 hcon
  refine ⟨h.tree.trans ?_, h.conids, h.count, h.bound, h.sockets, h.opened⟩
  exact (List.perm_cons_erase hmem).trans (List.perm_append_singleton _ _).symm

/-- A connection whose `conid` is new, when one more is allowed. -/
theorem ClientInv.init_connection (h : ClientInv options client) (data : Bytes) (env : Env) (addr origAddr : BAddr)
    (hnew : findConnection client conid = none) (hlt : client.numConnections < options.maxConnectionsForClient) :
    ClientInv options (connectionInit env conid addr origAddr data client).1 := by
  unfold connectionInit
  split
  · have hfresh : ∀ c ∈ client.connectionsTree ++ client.closingConnectionsList, c.socket ≠ client.opened :=
      fun c hc => (h.opened c hc).ne
    refine ClientInv.touch ⟨?_, ?_, ?_, ?_, ?_, ?_⟩ List.mem_cons_self
    · exact (h.tree.cons _).trans (List.perm_append_singleton _ _).symm
    · exact Table.distinct_cons.2 ⟨findConnection_none_iff.1 hnew, h.conids⟩
    · simp [h.count]
    · simp only
      omega
    · rw [List.cons_append]
      exact Table.distinct_cons.2 ⟨hfresh, h.sockets⟩
    · intro c hc
      rw [List.cons_append] at hc
      rcases List.mem_cons.1 hc with rfl | hc
      · exact Nat.lt_succ_self _
      · exact (h.opened c hc).trans (Nat.lt_succ_self _)
  · exact h

/-! ## A packet -/

/-- The client when some of its connections have been closed, one after the other. -/
def closeAll (env : Env) (cons : List Connection) (client : Client) : Client :=
  cons.foldl (fun client con => connectionClose env con client) client

/-- One more connection is allowed when the least recently used one is closed, if need be. -/
theorem ClientInv.closeLeastRecentlyUsed (h : ClientInv options client) (hmax : 0 < options.maxConnectionsForClient)
    (env : Env) (hnone : findConnection client conid = none) :
    (∃ closed, closed.Nodup ∧ closed ⊆ client.connectionsTree ∧
        UdpgwServer.closeLeastRecentlyUsed options env client = closeAll env closed client) ∧
      ClientInv options (closeLeastRecentlyUsed options env client) ∧
      (UdpgwServer.closeLeastRecentlyUsed options env client).numConnections < options.maxConnectionsForClient ∧
      findConnection (UdpgwServer.closeLeastRecentlyUsed options env client) conid = none ∧
      (UdpgwServer.closeLeastRecentlyUsed options env client).opened = client.opened ∧
      (UdpgwServer.closeLeastRecentlyUsed options env client).connectionsTree.Sublist client.connectionsTree := by
  have hbound := h.bound
  unfold UdpgwServer.closeLeastRecentlyUsed
  by_cases hfull : client.numConnections = options.maxConnectionsForClient
  · rw [if_pos hfull]
    have hlen := h.tree.length_eq
    have hcount := h.count
    split
    · rename_i least rest hlist
      have hleast : least ∈ client.connectionsTree := h.tree.mem_iff.2 (by rw [hlist]; exact List.mem_cons_self)
      refine ⟨⟨[least], List.nodup_singleton least, by simpa using hleast, rfl⟩, h.close env hleast, ?_, ?_, rfl, List.erase_sublist⟩
      · simp only [connectionClose]
        omega
      · rw [findConnection_none_iff] at hnone ⊢
        exact fun c hc => hnone c (List.mem_of_mem_erase hc)
    · -- a full client has a connection
      rename_i hlist
      rw [hlist, List.length_nil] at hlen
      omega
  · rw [if_neg hfull]
    exact ⟨⟨[], List.nodup_nil, List.nil_subset _, rfl⟩, h, by omega, hnone, rfl, .refl _⟩

/-- **What a datagram for `conid` leads to**: it goes out through the connection that is there, or through one that
is opened for it, in a state that meets the assertions of `connection_init`. -/
theorem ClientInv.serve_cases (h : ClientInv options client) (hmax : 0 < options.maxConnectionsForClient) (env : Env)
    (flags : Byte) (conid : BitVec 16) (origAddr : BAddr) (data : Bytes) :
    (∃ con ∈ client.connectionsTree, con.conid = conid ∧ con.origAddr = origAddr ∧ flags &&& UDPGW_CLIENT_FLAG_REBIND = 0 ∧
      serve options env flags conid origAddr data client = connectionSendToUdp env con data client) ∨
    ∃ closed client', (closed.Nodup ∧ closed ⊆ client.connectionsTree ∧ client' = closeAll env closed client) ∧
      ClientInv options client' ∧
      client'.numConnections < options.maxConnectionsForClient ∧
      findConnection client' conid = none ∧ client'.opened = client.opened ∧
      client'.connectionsTree.Sublist client.connectionsTree ∧
      serve options env flags conid origAddr data client = connectionInit env conid
        (if flags &&& UDPGW_CLIENT_FLAG_DNS ≠ 0 then env.dnsAddr.getD origAddr else origAddr) origAddr data client' := by
  unfold serve
  cases hfind : findConnection client conid with
  | none =>
    obtain ⟨⟨closed, hclosed⟩, hinv, hlt, hnone, hopened, hsub⟩ := h.closeLeastRecentlyUsed hmax env hfind
    exact .inr ⟨closed, _, hclosed, hinv, hlt, hnone, hopened, hsub, rfl⟩
  | some con =>
    obtain ⟨hcon, hconid⟩ := findConnection_some hfind
    by_cases hclose : flags &&& UDPGW_CLIENT_FLAG_REBIND ≠ 0 ∨ con.origAddr ≠ origAddr
    · obtain ⟨⟨closed, hnodup, htree, hclosed⟩, hinv, hlt, hnone, hopened, hsub⟩ :=
        (h.close env hcon).closeLeastRecentlyUsed hmax env (hconid ▸ h.findConnection_close env hcon)
      -- the second one is another connection
      have hcons : (con :: closed).Nodup := by
        refine List.nodup_cons.2 ⟨fun hmem => ?_, hnodup⟩
        have hdistinct : client.connectionsTree.Nodup := h.conids.of_map
        exact (hdistinct.mem_erase_iff.1 (htree hmem)).1 rfl
      have hall : con :: closed ⊆ client.connectionsTree :=
        List.cons_subset.2 ⟨hcon, fun c hc => List.mem_of_mem_erase (htree hc)⟩
      exact .inr ⟨con :: closed, _, ⟨hcons, hall, hclosed⟩, hinv, hlt, hnone, hopened, hsub.trans List.erase_sublist,
        by simp only [if_pos hclose]⟩
    · have hkeep := not_or.1 hclose
      exact .inl ⟨con, hcon, hconid, not_not.1 hkeep.2, not_not.1 hkeep.1, by simp only [if_neg hclose]⟩

theorem ClientInv.serve (h : ClientInv options client) (hmax : 0 < options.maxConnectionsForClient) (env : Env) (flags : Byte)
    (conid : BitVec 16) (origAddr : BAddr) (data : Bytes) :
    ClientInv options (serve options env flags conid origAddr data client).1 := by
  rcases h.serve_cases hmax env flags conid origAddr data with
      ⟨con, hcon, -, -, -, heq⟩ | ⟨closed, client', -, hinv, hlt, hnone, -, -, heq⟩
  · rw [heq]
    exact h.touch hcon
  · rw [heq]
    exact hinv.init_connection data env _ origAddr hnone hlt

theorem ClientInv.packet (h : ClientInv options client) (hmax : 0 < options.maxConnectionsForClient) (env : Env) (data : Bytes) :
    ClientInv options (clientRecvIfHandlerSend options env data client).1 := by
  unfold clientRecvIfHandlerSend
  split
  · split
    · exact h
    · split
      · exact h
      · split
        · exact h
        · exact h.serve hmax env _ _ _ _
  · exact h

theorem ClientInv.localStep (h : ClientInv options client) (e : Local) : ClientInv options (localStep options client e) := by
  cases e with
  | datagram env socket data =>
    simp only [UdpgwServer.localStep]
    split
    · rename_i con hcon
      exact h.touch (h.tree.mem_iff.2 (ofSocket_some hcon))
    · exact h
  | error env socket =>
    simp only [UdpgwServer.localStep]
    split
    · rename_i con hcon
      exact h.close env (h.tree.mem_iff.2 (ofSocket_some hcon))
    · exact h
  | sent socket =>
    simp only [UdpgwServer.localStep]
    split
    · rename_i con hcon
      have hsub : (client.connectionsTree ++ client.closingConnectionsList.erase con).Sublist
          (client.connectionsTree ++ client.closingConnectionsList) := List.erase_sublist.append_left _
      exact ⟨h.tree, h.conids, h.count, h.bound, h.sockets.sublist (hsub.map _), fun c hc => h.opened c (hsub.subset hc)⟩
    · exact h

theorem ClientInv.step (h : ClientInv options client) (hmax : 0 < options.maxConnectionsForClient) (e : Event) :
    ClientInv options (step options client e) := by
  cases e with
  | packet env data => exact h.packet hmax env data
  | other e => exact h.localStep e

/-- **The connections of a client after any run.** -/
theorem clientInv_run (hmax : 0 < options.maxConnectionsForClient) (es : List Event) :
    ClientInv options (Run.run (step options) {} es) :=
  Run.invariant_run (fun _ e h (_ : True) => h.step hmax e) (ClientInv.init options) (.of_events fun _ _ => trivial)

/-- The assertions that a packet meets. It is dropped; or its datagram, no longer than `udp_mtu`, goes to the socket of
the connection of its `conid`, which is not closing; or connections that are not closing are closed, each once, and
`connection_init` is called in a state in which there is none of the `conid` and fewer than are allowed. -/
def Asserts (options : Options) (env : Env) (packet : Bytes) (client : Client) : Prop :=
  clientRecvIfHandlerSend options env packet client = (client, []) ∨
  ∃ conid origAddr data, data.length ≤ options.udpMtu ∧
    ((∃ con ∈ client.connectionsTree, con.conid = conid ∧ con.origAddr = origAddr ∧ con ∉ client.closingConnectionsList ∧
      clientRecvIfHandlerSend options env packet client = connectionSendToUdp env con data client) ∨
    ∃ closed addr, closed.Nodup ∧ (∀ con ∈ closed, con ∈ client.connectionsTree ∧ con ∉ client.closingConnectionsList) ∧
      findConnection (closeAll env closed client) conid = none ∧
      (closeAll env closed client).numConnections < options.maxConnectionsForClient ∧
      clientRecvIfHandlerSend options env packet client =
        connectionInit env conid addr origAddr data (closeAll env closed client))

/-- A connection of the tree is not closing. -/
theorem ClientInv.not_closing (h : ClientInv options client) (hcon : con ∈ client.connectionsTree) :
    con ∉ client.closingConnectionsList := by
  have hnodup : (client.connectionsTree ++ client.closingConnectionsList).Nodup := h.sockets.of_map
  exact fun hclosing => (List.nodup_append.1 hnodup).2.2 con hcon con hclosing rfl

theorem ClientInv.asserts (h : ClientInv options client) (hmax : 0 < options.maxConnectionsForClient) (env : Env)
    (packet : Bytes) : Asserts options env packet client := by
  unfold Asserts clientRecvIfHandlerSend
  split
  · rename_i flags low high data
    by_cases hkeep : flags &&& UDPGW_CLIENT_FLAG_KEEPALIVE ≠ 0
    · exact .inl (if_pos hkeep)
    · rw [if_neg hkeep]
      cases parseAddr flags data with
      | none => exact .inl rfl
      | some parsed =>
        obtain ⟨origAddr, data⟩ := parsed
        by_cases hlong : options.udpMtu < data.length
        · exact .inl (if_pos hlong)
        · simp only [if_neg hlong]
          refine .inr ⟨BitVec.ofNat 16 (low.toNat + 256 * high.toNat), origAddr, data, not_lt.1 hlong, ?_⟩
          rcases h.serve_cases hmax env flags (BitVec.ofNat 16 (low.toNat + 256 * high.toNat)) origAddr data with
            ⟨con, hcon, hconid, hsame, -, heq⟩ | ⟨closed, client', ⟨hnodup, htree, rfl⟩, -, hlt, hnone, -, -, heq⟩
          · exact .inl ⟨con, hcon, hconid, hsame, h.not_closing hcon, heq⟩
          · exact .inr ⟨closed, _, hnodup, fun con hcon => ⟨htree hcon, h.not_closing (htree hcon)⟩, hnone, hlt, heq⟩
  · exact .inl rfl

end UdpgwServer

end SmartTunnel
