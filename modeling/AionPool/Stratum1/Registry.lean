import AionPool.Stratum1.StratumServer

/-!
# The clients of a server

* `Client.Later`: what stays as it is while a connection lives. `Registry.Step`: what a step does to
  the registry.
* `Registered`: the ids are some of those that were drawn, and `clients` are the connections that
  have not been disconnected.
* **`registered_of_run`**: a broadcast visits every connection that has not been disconnected once.

About `StratumServer.cs:140-181` and `:242-320`.
-/

namespace AionPool.Stratum1.StratumServer

open AionPool.Extensions AionPool.Lib.Run AionPool.Util
open AionPool.Aion.Pool (Settings)

variable {Request : Type}

/-! ## What a step does -/

/-- The same client, later: it does not come back to life, and its address is settled when the
header of the proxy protocol is not expected any more. -/
structure Client.Later (c c' : Client) : Prop where
  connectionId : c'.connectionId = c.connectionId
  peerAddress : c'.peerAddress = c.peerAddress
  dead : c.IsAlive = false → c'.IsAlive = false
  settled : c.expectingProxyProtocolHeader = false →
    c'.expectingProxyProtocolHeader = false ∧ c'.remoteAddress = c.remoteAddress

theorem Client.Later.refl (c : Client) : c.Later c := ⟨rfl, rfl, id, fun h => ⟨h, rfl⟩⟩

theorem Client.Later.trans {c₁ c₂ c₃ : Client} (h : c₁.Later c₂) (h' : c₂.Later c₃) :
    c₁.Later c₃ where
  connectionId := h'.connectionId.trans h.connectionId
  peerAddress := h'.peerAddress.trans h.peerAddress
  dead := fun hdead => h'.dead (h.dead hdead)
  settled := fun hfalse =>
    have ⟨hfalse', haddress⟩ := h.settled hfalse
    have ⟨hfalse'', haddress'⟩ := h'.settled hfalse'
    ⟨hfalse'', haddress'.trans haddress⟩

theorem Client.later_disconnect (c : Client) : c.Later c.disconnect :=
  ⟨rfl, rfl, fun _ => rfl, fun h => ⟨h, rfl⟩⟩

theorem Client.later_read {c : Client} {now : DateTime} {header : Option (Option IPAddress)}
    {lines : List (List UInt8)} (h : header.isSome → c.expectingProxyProtocolHeader) :
    c.Later (c.read now header lines) where
  connectionId := rfl
  peerAddress := rfl
  dead := id
  settled := fun hfalse => by
    cases header with
    | none => exact ⟨by unfold Client.read; rw [hfalse]; rfl, rfl⟩
    | some address => exact absurd (h rfl) (by rw [hfalse]; decide)

/-- Clients, later, one by one. -/
abbrev Later (cs cs' : List Client) : Prop := List.Forall₂ Client.Later cs cs'

theorem later_refl (cs : List Client) : Later cs cs := List.forall₂_same.mpr fun c _ => .refl c

theorem later_modify {f : Client → Client} : ∀ {cs : List Client} {i : ℕ},
    (∀ c, cs[i]? = some c → c.Later (f c)) → Later cs (cs.modify i f)
  | [], _, _ => by rw [List.modify_nil]; exact .nil
  | c :: cs, 0, h => by
    rw [List.modify_zero_cons]
    exact .cons (h c rfl) (later_refl cs)
  | c :: cs, i + 1, h => by
    rw [List.modify_succ_cons]
    exact .cons (.refl c) (later_modify h)

theorem exists_of_forall₂ {α β : Type} {R : α → β → Prop} {l : List α} {l' : List β}
    (h : List.Forall₂ R l l') :
    ∀ {i : ℕ} {a : α}, l[i]? = some a → ∃ b, l'[i]? = some b ∧ R a b := by
  induction h with
  | nil => exact fun h => absurd h (by simp)
  | @cons a b l l' hab _ ih =>
    intro i d hd
    cases i with
    | zero => exact ⟨b, rfl, Option.some.inj hd ▸ hab⟩
    | succ i => exact ih hd

theorem Later.exists_after {cs cs' : List Client} (h : Later cs cs') {i : ℕ} {c : Client}
    (hc : cs[i]? = some c) : ∃ c', cs'[i]? = some c' ∧ c.Later c' := exists_of_forall₂ h hc

theorem Later.exists_before {cs cs' : List Client} (h : Later cs cs') {i : ℕ} {c' : Client}
    (hc : cs'[i]? = some c') : ∃ c, cs[i]? = some c ∧ c.Later c' :=
  exists_of_forall₂ h.flip hc

theorem Later.ids {cs cs' : List Client} (h : Later cs cs') :
    cs'.map Client.connectionId = cs.map Client.connectionId := by
  induction h with
  | nil => rfl
  | cons hc _ ih => rw [List.map_cons, List.map_cons, hc.connectionId, ih]

theorem Later.peers {cs cs' : List Client} (h : Later cs cs') :
    cs'.map Client.peerAddress = cs.map Client.peerAddress := by
  induction h with
  | nil => rfl
  | cons hc _ ih => rw [List.map_cons, List.map_cons, hc.peerAddress, ih]

namespace Registry

/-- The ids of the connections. -/
def ids (r : Registry) : List Text := r.connections.map Client.connectionId

theorem ids_of_later {r r' : Registry} (h : Later r.connections r'.connections) :
    r'.ids = r.ids := h.ids

/-- What a step does to the registry, when connections from some addresses pass the check. -/
inductive Step (admitted : IPAddress → Prop) (r : Registry) : Registry → Prop where
  | keep {r' : Registry} (hlast : r'.lastId = r.lastId ∨ r'.lastId = r.lastId + 1)
      (hconnecting : r'.connecting = r.connecting)
      (hlater : Later r.connections r'.connections) (hclients : r'.clients = r.clients)
      (hdisconnected : r'.disconnected = r.disconnected) : Step admitted r r'
  | connect {r' : Registry} {peer : IPAddress} {proxyProtocol : Bool} (hadmitted : admitted peer)
      (hlast : r'.lastId = r.lastId)
      (hconnecting : r'.connecting = r.connecting ++ [(peer, proxyProtocol)])
      (hconnections : r'.connections = r.connections) (hclients : r'.clients = r.clients)
      (hdisconnected : r'.disconnected = r.disconnected) : Step admitted r r'
  | accept {r' : Registry} {c : Client} {proxyProtocol : Bool}
      (hmem : (c.peerAddress, proxyProtocol) ∈ r.connecting)
      (hlast : r'.lastId = r.lastId + 1)
      (hconnecting : r'.connecting = r.connecting.erase (c.peerAddress, proxyProtocol))
      (hid : c.connectionId = CorrelationIdGenerator.generateId (r.lastId + 1))
      (hconnections : r'.connections = r.connections ++ [c])
      (hclients : r'.clients = register r.clients c.connectionId r.connections.length)
      (hdisconnected : r'.disconnected = r.disconnected) : Step admitted r r'
  | disconnect {r' : Registry} {i : ℕ} {c : Client} (hc : r.connections[i]? = some c)
      (hlast : r'.lastId = r.lastId) (hconnecting : r'.connecting = r.connecting)
      (hlater : Later r.connections r'.connections)
      (hdead : ∀ c', r'.connections[i]? = some c' → c'.IsAlive = false)
      (hclients : r'.clients = unregister r.clients c.connectionId)
      (hdisconnected : r'.disconnected = r.disconnected ++ [c.connectionId]) : Step admitted r r'

theorem Step.refl (admitted : IPAddress → Prop) (r : Registry) : Step admitted r r :=
  .keep (.inl rfl) rfl (later_refl _) rfl rfl

end Registry

variable {admitted : IPAddress → Prop}

theorem step_modify (s : State Request) {i : ℕ} {f : Client → Client}
    (hf : ∀ c, s.connections[i]? = some c → c.Later (f c)) :
    Registry.Step admitted s.toRegistry
      { s.toRegistry with connections := s.connections.modify i f } :=
  .keep (.inl rfl) rfl (later_modify hf) rfl rfl

/-- `DisconnectClient`, of a client that may have been changed before. -/
theorem step_disconnectClient (s : State Request) {i : ℕ} {f : Client → Client}
    (hf : ∀ c, s.connections[i]? = some c → c.Later (f c)) :
    Registry.Step admitted s.toRegistry (State.disconnectClient
      { s with connections := s.connections.modify i f } i).toRegistry := by
  cases hc : s.connections[i]? with
  | none =>
    have hnone : (s.connections.modify i f)[i]? = none := by
      rw [List.getElem?_modify_eq, hc]
      rfl
    unfold State.disconnectClient
    rw [hnone]
    exact step_modify s hf
  | some c =>
    have hsome : (s.connections.modify i f)[i]? = some (f c) := by
      rw [List.getElem?_modify_eq, hc]
      rfl
    have hid : (f c).connectionId = c.connectionId := (hf c hc).connectionId
    unfold State.disconnectClient
    rw [hsome]
    dsimp only
    rw [List.modify_modify_eq, hid]
    refine .disconnect hc rfl rfl
      (later_modify fun c hc => (hf c hc).trans (Client.later_disconnect _)) (fun c' hc' => ?_)
      rfl rfl
    rw [List.getElem?_modify_eq, hc] at hc'
    exact Option.some.inj hc' ▸ rfl

section Runs

variable {settings : Settings} {deserializeRequest : List UInt8 → Except Exn (Option Request)}
  {s s' : State Request}

theorem toRegistry_handle (s : State Request) (settings : Settings) (n i : ℕ)
    (r : Except Exn (Option Request)) : (s.handle settings n i r).toRegistry = s.toRegistry := by
  unfold State.handle
  split
  · rfl
  · rfl
  · rename_i e
    obtain ⟨cache, hcache⟩ := caught_eq s i settings e
    rw [hcache]

/-- **What a step does to the registry.** -/
theorem step_registry {e : Event} (h : step settings deserializeRequest s e = some s') :
    Registry.Step (s.isBanned settings · = false) s.toRegistry s'.toRegistry := by
  have hdisconnect : ∀ i, Registry.Step (s.isBanned settings · = false) s.toRegistry
      (s.disconnectClient i).toRegistry := fun i => by
    have := @step_disconnectClient _ (s.isBanned settings · = false) s i id fun c _ => .refl c
    rwa [List.modify_id] at this
  cases e with
  | connect peer proxyProtocol =>
    obtain rfl := Option.some.inj h
    change Registry.Step _ s.toRegistry
      (s.onClientConnected settings peer proxyProtocol).toRegistry
    unfold State.onClientConnected
    split
    · exact .refl _ _
    · rename_i hbanned
      exact .connect (Bool.eq_false_iff.mpr hbanned) rfl rfl rfl rfl rfl
  | accept peer proxyProtocol =>
    obtain ⟨hmem, rfl⟩ := step_accept h
    exact .accept hmem rfl rfl rfl rfl rfl rfl
  | drawId =>
    obtain rfl := Option.some.inj h
    exact .keep (.inr rfl) rfl (later_refl _) rfl rfl
  | read i header lines =>
    obtain ⟨c, hc, -, hheader, rfl⟩ := step_read h
    refine step_modify s fun c' hc' => ?_
    obtain rfl := Option.some.inj (hc.symm.trans hc')
    exact Client.later_read hheader
  | disconnect i =>
    obtain rfl := Option.some.inj h
    exact step_modify s fun c _ => c.later_disconnect
  | dispose i =>
    obtain rfl := step_dispose h
    exact step_modify s fun c _ => ⟨rfl, rfl, id, fun h => ⟨h, rfl⟩⟩
  | receiveError i | disconnectClient i =>
    obtain rfl := Option.some.inj h
    exact hdisconnect i
  | receiveComplete i =>
    obtain rfl := Option.some.inj h
    exact step_disconnectClient s fun c _ => ⟨rfl, rfl, id, fun h => ⟨h, rfl⟩⟩
  | check n =>
    obtain ⟨i, -, address, -, -, -, rfl⟩ := step_check h
    unfold State.check
    split
    · exact hdisconnect i
    · exact .refl _ _
  | handle n =>
    obtain ⟨i, data, -, -, rfl⟩ := step_handle h
    rw [toRegistry_handle]
    exact .refl _ _
  | finish n thrown =>
    obtain ⟨i, -, -, -, rfl⟩ := step_finish h
    obtain ⟨cache, hcache⟩ := finish_eq { s with handling := s.handling.erase n } settings i thrown
    rw [hcache]
    exact .refl _ _
  | ban address duration =>
    obtain rfl := Option.some.inj h
    obtain ⟨cache, hcache⟩ := ban_eq s address duration
    rw [hcache]
    exact .refl _ _
  | zombie i =>
    obtain ⟨c, due, -, -, -, rfl⟩ := step_zombie h
    have hlater : ∀ c : Client, c.Later { c with zombieTimer := none } := fun c =>
      ⟨rfl, rfl, id, fun h => ⟨h, rfl⟩⟩
    split
    · exact step_disconnectClient s fun c _ => hlater c
    · exact step_modify s fun c _ => hlater c
  | tick ticks =>
    obtain rfl := Option.some.inj h
    exact .refl _ _

/-! ### The invariant -/

/-- The id that is drawn `j`-th. -/
def drawnId (start : Int64) (j : ℕ) : Text :=
  CorrelationIdGenerator.generateId (start + Int64.ofNat j)

theorem drawnId_inj {start : Int64} {j k : ℕ} (hj : j < 2 ^ 64) (hk : k < 2 ^ 64)
    (h : drawnId start j = drawnId start k) : j = k := by
  have hsame := (Int64.add_right_inj start).mp (CorrelationIdGenerator.generateId_injective h)
  have hlow := congrArg (BitVec.toNat ∘ Int64.toBitVec) hsame
  rw [Function.comp, Function.comp, Int64.toBitVec_ofNat', Int64.toBitVec_ofNat',
    BitVec.toNat_ofNat, BitVec.toNat_ofNat, Nat.mod_eq_of_lt hj, Nat.mod_eq_of_lt hk] at hlow
  exact hlow

/-- The registry after `k` ids have been drawn. -/
structure Registered (start : Int64) (k : ℕ) (r : Registry) : Prop where
  lastId : r.lastId = start + Int64.ofNat k
  ids : ∃ js : List ℕ, js.Pairwise (· < ·) ∧ (∀ j ∈ js, j ≤ k) ∧ r.ids = js.map (drawnId start)
  clients : r.clients = r.ids.zipIdx.filter fun e => e.1 ∉ r.disconnected
  disconnected : ∀ id ∈ r.disconnected, id ∈ r.ids
  dead : ∀ c ∈ r.connections, c.connectionId ∈ r.disconnected → c.IsAlive = false

namespace Registered

variable {start : Int64} {k : ℕ} {r r' : Registry}

theorem init (start : Int64) : Registered start 0 ⟨start, [], [], [], []⟩ where
  lastId := (Int64.add_zero start).symm
  ids := ⟨[], .nil, fun _ h => absurd h List.not_mem_nil, rfl⟩
  clients := rfl
  disconnected := fun _ h => absurd h List.not_mem_nil
  dead := fun _ h => absurd h List.not_mem_nil

theorem nodup (h : Registered start k r) (hk : k < 2 ^ 64) : r.ids.Nodup := by
  obtain ⟨js, hjs, hle, hids⟩ := h.ids
  rw [hids]
  refine List.Nodup.map_on (fun i hi j hj hij => ?_) (hjs.imp ne_of_lt)
  exact drawnId_inj ((hle i hi).trans_lt hk) ((hle j hj).trans_lt hk) hij

theorem lastId_succ (h : Registered start k r) : r.lastId + 1 = start + Int64.ofNat (k + 1) := by
  rw [h.lastId, Int64.ofNat_add, Int64.add_assoc]
  rfl

/-- An id that has not been drawn belongs to no connection. -/
theorem fresh (h : Registered start k r) (hk : k + 1 < 2 ^ 64) :
    drawnId start (k + 1) ∉ r.ids := by
  obtain ⟨js, -, hle, hids⟩ := h.ids
  rw [hids, List.mem_map]
  rintro ⟨j, hj, hid⟩
  have := hle j hj
  have := drawnId_inj (by omega) hk hid
  omega

/-- A client that was not alive is not alive later. -/
theorem dead_later (hlater : Later r.connections r'.connections)
    (h : ∀ c ∈ r.connections, c.connectionId ∈ r.disconnected → c.IsAlive = false) :
    ∀ c' ∈ r'.connections, c'.connectionId ∈ r.disconnected → c'.IsAlive = false := by
  intro c' hc' hid
  obtain ⟨i, hi⟩ := List.mem_iff_getElem?.mp hc'
  obtain ⟨c, hc, hcc⟩ := hlater.exists_before hi
  exact hcc.dead (h c (List.mem_of_getElem? hc) (hcc.connectionId ▸ hid))

theorem keep (h : Registered start k r) (hlater : Later r.connections r'.connections)
    (hclients : r'.clients = r.clients) (hdisconnected : r'.disconnected = r.disconnected)
    {k' : ℕ} (hk : k ≤ k') (hlast : r'.lastId = start + Int64.ofNat k') :
    Registered start k' r' where
  lastId := hlast
  ids := by
    obtain ⟨js, hjs, hle, hids⟩ := h.ids
    exact ⟨js, hjs, fun j hj => (hle j hj).trans hk, (Registry.ids_of_later hlater).trans hids⟩
  clients := by rw [hclients, h.clients, hdisconnected, Registry.ids_of_later hlater]
  disconnected := by
    rw [hdisconnected, Registry.ids_of_later hlater]
    exact h.disconnected
  dead := hdisconnected ▸ dead_later hlater h.dead

theorem accept (h : Registered start k r) (hk : k + 1 < 2 ^ 64) {c : Client}
    (hlast : r'.lastId = r.lastId + 1)
    (hid : c.connectionId = CorrelationIdGenerator.generateId (r.lastId + 1))
    (hconnections : r'.connections = r.connections ++ [c])
    (hclients : r'.clients = register r.clients c.connectionId r.connections.length)
    (hdisconnected : r'.disconnected = r.disconnected) : Registered start (k + 1) r' := by
  rw [h.lastId_succ] at hid hlast
  have hfresh : c.connectionId ∉ r.ids := hid ▸ h.fresh hk
  have hids : r'.ids = r.ids ++ [c.connectionId] := by
    unfold Registry.ids
    rw [hconnections, List.map_append]
    rfl
  have hkept : c.connectionId ∉ r.disconnected := fun hmem => hfresh (h.disconnected _ hmem)
  refine ⟨hlast, ?_, ?_, fun id hmem => ?_, fun c' hc' hmem => ?_⟩
  · obtain ⟨js, hjs, hle, hjs'⟩ := h.ids
    refine ⟨js ++ [k + 1], ?_, fun j hj => ?_, ?_⟩
    · refine List.pairwise_append.mpr ⟨hjs, List.pairwise_singleton _ _, fun i hi j hj => ?_⟩
      rw [List.mem_singleton.mp hj]
      exact Nat.lt_succ_of_le (hle i hi)
    · rcases List.mem_append.mp hj with hj | hj
      · exact (hle j hj).trans (Nat.le_succ k)
      · exact (List.mem_singleton.mp hj).le
    · rw [hids, hjs', hid, List.map_append]
      rfl
  · have hlength : r.ids.length = r.connections.length := List.length_map _
    have hnew : ¬∃ e ∈ r.clients, e.1 = c.connectionId := fun ⟨e, he, hce⟩ => by
      rw [h.clients] at he
      exact hfresh (hce ▸ List.fst_mem_of_mem_zipIdx (List.mem_of_mem_filter he))
    rw [hclients, hids, hdisconnected, List.zipIdx_append, List.filter_append, ← h.clients,
      hlength, Nat.zero_add, List.zipIdx_singleton]
    unfold register
    rw [if_neg hnew, @List.filter_cons_of_pos _ _ (c.connectionId, r.connections.length) _
      (decide_eq_true hkept), List.filter_nil]
  · rw [hids]
    exact List.mem_append_left _ (h.disconnected id (hdisconnected ▸ hmem))
  · rw [hdisconnected] at hmem
    rw [hconnections] at hc'
    rcases List.mem_append.mp hc' with hc' | hc'
    · exact h.dead c' hc' hmem
    · exact absurd (List.mem_singleton.mp hc' ▸ hmem) hkept

theorem disconnect (h : Registered start k r) (hk : k < 2 ^ 64) {i : ℕ} {c : Client}
    (hc : r.connections[i]? = some c) (hlast : r'.lastId = r.lastId)
    (hlater : Later r.connections r'.connections)
    (hdead : ∀ c', r'.connections[i]? = some c' → c'.IsAlive = false)
    (hclients : r'.clients = unregister r.clients c.connectionId)
    (hdisconnected : r'.disconnected = r.disconnected ++ [c.connectionId]) :
    Registered start k r' where
  lastId := hlast.trans h.lastId
  ids := by
    rw [Registry.ids_of_later hlater]
    exact h.ids
  clients := by
    unfold unregister at hclients
    rw [hclients, h.clients, hdisconnected, Registry.ids_of_later hlater, List.filter_filter]
    refine List.filter_congr fun e _ => ?_
    rw [← Bool.decide_and, decide_eq_decide, List.mem_append, List.mem_singleton]
    tauto
  disconnected := fun id hmem => by
    rw [Registry.ids_of_later hlater]
    rw [hdisconnected] at hmem
    rcases List.mem_append.mp hmem with hmem | hmem
    · exact h.disconnected id hmem
    · rw [List.mem_singleton.mp hmem]
      exact List.mem_map_of_mem (List.mem_of_getElem? hc)
  dead := fun c' hc' hmem => by
    rw [hdisconnected] at hmem
    rcases List.mem_append.mp hmem with hmem | hmem
    · exact dead_later hlater h.dead c' hc' hmem
    · -- no other connection has the id
      obtain ⟨j, hj⟩ := List.mem_iff_getElem?.mp hc'
      obtain ⟨d, hd, hdc⟩ := hlater.exists_before hj
      have hsame : (r.ids)[j]? = (r.ids)[i]? := by
        unfold Registry.ids
        rw [List.getElem?_map, List.getElem?_map, hd, hc, Option.map_some, Option.map_some,
          ← hdc.connectionId, List.mem_singleton.mp hmem]
      have hlt : i < r.ids.length := by
        rw [Registry.ids, List.length_map]
        exact (List.getElem?_eq_some_iff.mp hc).1
      obtain rfl := (List.getElem?_inj hlt (h.nodup hk)).mp hsame.symm
      exact hdead c' hj

/-- **One step** draws at most one id. -/
theorem step (h : Registered start k r) (hk : k + 1 < 2 ^ 64)
    (hstep : Registry.Step admitted r r') :
    ∃ k' ≤ k + 1, Registered start k' r' := by
  cases hstep with
  | keep hlast _ hlater hclients hdisconnected =>
    rcases hlast with hlast | hlast
    · exact ⟨k, Nat.le_succ k, h.keep hlater hclients hdisconnected le_rfl (hlast.trans h.lastId)⟩
    · exact ⟨k + 1, le_rfl,
        h.keep hlater hclients hdisconnected (Nat.le_succ k) (hlast.trans h.lastId_succ)⟩
  | connect _ hlast _ hconnections hclients hdisconnected =>
    exact ⟨k, Nat.le_succ k, h.keep (hconnections ▸ later_refl _) hclients hdisconnected le_rfl
      (hlast.trans h.lastId)⟩
  | accept _ hlast _ hid hconnections hclients hdisconnected =>
    exact ⟨k + 1, le_rfl, h.accept hk hlast hid hconnections hclients hdisconnected⟩
  | disconnect hc hlast _ hlater hdead hclients hdisconnected =>
    exact ⟨k, Nat.le_succ k, h.disconnect (Nat.lt_of_succ_lt hk) hc hlast hlater hdead hclients
      hdisconnected⟩

end Registered

theorem registered_run {start : Int64} : ∀ {es : List Event} {k : ℕ} {s s' : State Request},
    Registered start k s.toRegistry → k + es.length < 2 ^ 64 →
    run (step settings deserializeRequest) s es = some s' →
    ∃ k' < 2 ^ 64, Registered start k' s'.toRegistry
  | [], k, s, s', h, hk, hrun => ⟨k, hk, Option.some.inj hrun ▸ h⟩
  | e :: es, k, s, s', h, hk, hrun => by
    rw [List.length_cons] at hk
    obtain ⟨t, hstep, hrun⟩ := run_cons.mp hrun
    obtain ⟨k', hk', h'⟩ := h.step (by omega) (step_registry hstep)
    exact registered_run h' (by omega) hrun

/-- **The registry** after any run that is shorter than the counter: connections have different ids,
a broadcast visits those that `DisconnectClient` was not called for, each of them once, and the
others are not alive. -/
theorem registered_of_run {now : DateTime} {lastId : Int64} {cache : BanCache} {es : List Event}
    (hrun : run (step settings deserializeRequest) (.init now lastId cache) es = some s)
    (hlength : es.length < 2 ^ 64) :
    (s.connections.map Client.connectionId).Nodup ∧ s.forEachClient.Nodup ∧
      (∀ i, i ∈ s.forEachClient ↔
        ∃ c, s.connections[i]? = some c ∧ c.connectionId ∉ s.disconnected) ∧
      ∀ c ∈ s.connections, c.connectionId ∈ s.disconnected → c.IsAlive = false := by
  obtain ⟨k, hk, h⟩ := registered_run (.init lastId) (by omega) hrun
  have hclients := h.clients
  refine ⟨h.nodup hk, ?_, fun i => ?_, h.dead⟩
  · unfold State.forEachClient
    rw [hclients]
    refine List.Nodup.sublist (List.Sublist.map _ List.filter_sublist) ?_
    rw [List.zipIdx_map_snd]
    exact List.nodup_range'
  · unfold State.forEachClient
    rw [hclients, List.mem_map]
    constructor
    · rintro ⟨e, he, rfl⟩
      obtain ⟨he, hkept⟩ := List.mem_filter.mp he
      have hid := List.mem_zipIdx_iff_getElem?.mp he
      unfold Registry.ids at hid
      rw [List.getElem?_map, Option.map_eq_some_iff] at hid
      obtain ⟨c, hc, hid⟩ := hid
      exact ⟨c, hc, hid ▸ of_decide_eq_true hkept⟩
    · rintro ⟨c, hc, hkept⟩
      refine ⟨(c.connectionId, i), List.mem_filter.mpr ⟨?_, decide_eq_true hkept⟩, rfl⟩
      refine List.mem_zipIdx_iff_getElem?.mpr ?_
      unfold Registry.ids
      rw [List.getElem?_map, hc, Option.map_some]

/-- Two connections, the first of which is closed. -/
theorem registered_of_run_two :
    ∃ s : State Unit,
      run (step ⟨"aion1", none, none, 600⟩ fun _ => .ok none) (.init 0 0 fun _ => none)
        [.connect [1, 2, 3, 4] false, .connect [5, 6, 7, 8] false, .accept [5, 6, 7, 8] false,
          .accept [1, 2, 3, 4] false, .receiveComplete 0] = some s ∧
      (s.connections.map Client.connectionId).Nodup ∧ s.forEachClient.Nodup ∧
      (∀ i, i ∈ s.forEachClient ↔
        ∃ c, s.connections[i]? = some c ∧ c.connectionId ∉ s.disconnected) ∧
      ∀ c ∈ s.connections, c.connectionId ∈ s.disconnected → c.IsAlive = false := by
  obtain ⟨s, hs⟩ : ∃ s : State Unit,
      run (step ⟨"aion1", none, none, 600⟩ fun _ => .ok none) (.init 0 0 fun _ => none)
        [.connect [1, 2, 3, 4] false, .connect [5, 6, 7, 8] false, .accept [5, 6, 7, 8] false,
          .accept [1, 2, 3, 4] false, .receiveComplete 0] = some s :=
    ⟨_, rfl⟩
  exact ⟨s, hs, registered_of_run hs (by decide)⟩

end Runs

end AionPool.Stratum1.StratumServer
