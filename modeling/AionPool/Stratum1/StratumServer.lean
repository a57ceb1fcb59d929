import AionPool.Aion.Pool
import AionPool.Stratum1.StratumClient
import AionPool.Util.CorrelationIdGenerator

/-!
# `StratumServer`: connections, bans and requests

A server (`StratumServer.cs:140-320`) registers the connections it accepts, runs a task for every
line they hand over, and keeps out the addresses its `IntegratedBanManager`
(`IntegratedBanManager.cs:38-54`) has banned. Connections are accepted on the loop thread of their
port, and the tasks run on the thread pool: between the check of the address and the registration or
the request handler anything else may happen, another ban included.

* `step` is everything that can happen, in any order: on the event loops, in the tasks, and in the
  request handlers, which may ban and disconnect whom they like.
* `disconnectClient`, `ban` and `caught`: what the operations leave alone.
* `step_read`, `step_check`, `step_handle` and the like: what a step was, when it was enabled.
-/

namespace AionPool.Stratum1.StratumServer

open AionPool.Extensions AionPool.Lib.Run AionPool.Util
open AionPool.Aion.Pool (Settings bansJunk PoolShareBasedBanningConfig)

/-- `TimeSpan.FromSeconds`, in ticks. -/
def seconds (n : ℕ) : ℕ := n * 10000000

/-! ## `IntegratedBanManager` -/

/-- `IPAddress.IPv6Loopback`. -/
def ipv6Loopback : IPAddress := List.replicate 15 0 ++ [1]

/-- The `MemoryCache`: when the entry of an address expires. -/
abbrev BanCache := IPAddress → Option DateTime

/-- `IsBanned`. -/
def BanCache.isBanned (cache : BanCache) (now : DateTime) (address : IPAddress) : Bool :=
  (cache address).any (now < ·)

/-- `Ban`, for a time in ticks. -/
def BanCache.ban (cache : BanCache) (now : DateTime) (address : IPAddress) (duration : ℤ) :
    Except Exn BanCache :=
  if ¬ 0 < duration then throw .argument
  -- don't ban 127.0.0.1
  else if address = loopback ∨ address = ipv6Loopback then return cache
  else return Function.update cache address (some (now + duration.toNat))

/-! ## Data -/

/-- What the server sees of a `StratumClient`. -/
structure Client where
  connectionId : Text
  /-- The address of `tcp.GetPeerEndPoint()`. -/
  peerAddress : IPAddress
  /-- The address of `RemoteEndpoint`. -/
  remoteAddress : IPAddress
  expectingProxyProtocolHeader : Bool
  isAlive : Bool
  IsAlive : Bool
  lastReceive : Option DateTime
  /-- When the timer of `EnsureNoZombieClient` is due, before it fires. -/
  zombieTimer : Option DateTime

/-- `Init` and `EnsureNoZombieClient`. -/
def Client.init (connectionId : Text) (peerAddress : IPAddress) (proxyProtocol : Bool)
    (now : DateTime) : Client where
  connectionId := connectionId
  peerAddress := peerAddress
  remoteAddress := peerAddress
  expectingProxyProtocolHeader := proxyProtocol
  isAlive := true
  IsAlive := true
  lastReceive := none
  zombieTimer := some (now + seconds 10)

/-- `Disconnect`. -/
def Client.disconnect (c : Client) : Client := { c with IsAlive := false }

/-- The timer fires: the client is a zombie if it has sent nothing. -/
def Client.isZombie (c : Client) : Bool := c.IsAlive && c.lastReceive.isNone

/-- The read callback: a first line may be kept back as the header of the proxy protocol, and may
name the address of the client. -/
def Client.read (c : Client) (now : DateTime) (header : Option (Option IPAddress))
    (lines : List (List UInt8)) : Client :=
  { c with
    lastReceive := some now
    remoteAddress := header.join.getD c.remoteAddress
    expectingProxyProtocolHeader :=
      c.expectingProxyProtocolHeader && header.isNone && lines.isEmpty }

/-- What a task comes to. -/
inductive Outcome (Request : Type) where
  /-- The client is banned, and is disconnected. -/
  | booted
  | dispatched (request : Request) (time : DateTime)
  /-- The line is no request. -/
  | null
  | failed (e : Exn)

/-- The clients of a server. -/
structure Registry where
  /-- `CorrelationIdGenerator._lastId`. -/
  lastId : Int64
  /-- Connections that have passed the check of `OnClientConnected`: the peer, and whether the port
  uses the proxy protocol. -/
  connecting : List (IPAddress × Bool)
  /-- All connections that were ever accepted. -/
  connections : List Client
  /-- The dictionary `clients`; clients by their place in `connections`. -/
  clients : List (Text × ℕ)
  /-- What `OnDisconnect` was called with. -/
  disconnected : List Text

/-- The lines the clients have handed over: each has a task, known by the number of the line. -/
structure Tasks (Request : Type) where
  /-- Lines, with the client they are from. -/
  received : List (ℕ × List UInt8)
  /-- Tasks that have not started. -/
  waiting : List ℕ
  /-- Tasks that have passed the check. -/
  checked : List ℕ
  /-- Tasks whose request is being handled. -/
  handling : List ℕ
  log : List (ℕ × Outcome Request)

structure State (Request : Type) extends Registry, Tasks Request where
  now : DateTime
  cache : BanCache

variable {Request : Type}

def State.init (now : DateTime) (lastId : Int64) (cache : BanCache) : State Request :=
  ⟨⟨lastId, [], [], [], []⟩, ⟨[], [], [], [], []⟩, now, cache⟩

inductive Event where
  /-- `OnClientConnected`: the check. -/
  | connect (peer : IPAddress) (proxyProtocol : Bool)
  /-- `OnClientConnected`: a connection that has passed the check is set up and registered. -/
  | accept (peer : IPAddress) (proxyProtocol : Bool)
  /-- An id is drawn by the server of another pool, or for a connection whose setup throws. -/
  | drawId
  /-- The client reads from the connection. -/
  | read (i : ℕ) (header : Option (Option IPAddress)) (lines : List (List UInt8))
  /-- `Disconnect`, by the client itself: the header was not accepted. -/
  | disconnect (i : ℕ)
  /-- The loop gets to closing a connection that `Disconnect` was called for. -/
  | dispose (i : ℕ)
  /-- `OnReceiveError`. -/
  | receiveError (i : ℕ)
  /-- The connection is closed, and then `OnReceiveComplete`. -/
  | receiveComplete (i : ℕ)
  /-- A task starts. -/
  | check (n : ℕ)
  /-- A task that has passed the check gets to its request. -/
  | handle (n : ℕ)
  /-- `OnRequestAsync` returns or throws. -/
  | finish (n : ℕ) (thrown : Option Exn)
  /-- `Ban`, by a request handler of this or another pool: the cache is static. -/
  | ban (address : IPAddress) (duration : ℤ)
  /-- `DisconnectClient`, by a request handler or a broadcast. -/
  | disconnectClient (i : ℕ)
  /-- The timer of `EnsureNoZombieClient`. -/
  | zombie (i : ℕ)
  | tick (ticks : ℕ)

/-! ## Operations -/

/-- `clients[connectionId] = client`. -/
def register (clients : List (Text × ℕ)) (connectionId : Text) (i : ℕ) : List (Text × ℕ) :=
  if ∃ e ∈ clients, e.1 = connectionId then
    clients.map fun e => if e.1 = connectionId then (connectionId, i) else e
  else clients ++ [(connectionId, i)]

/-- `clients.Remove(connectionId)`. -/
def unregister (clients : List (Text × ℕ)) (connectionId : Text) : List (Text × ℕ) :=
  clients.filter fun e => e.1 ≠ connectionId

namespace State

/-- `ForEachClient`: the clients the action is run for. -/
def forEachClient (s : State Request) : List ℕ := s.clients.map Prod.snd

/-- `DisconnectClient`. -/
def disconnectClient (s : State Request) (i : ℕ) : State Request :=
  match s.connections[i]? with
  | none => s
  | some c => { s with
      connections := s.connections.modify i Client.disconnect
      clients := unregister s.clients c.connectionId
      disconnected := s.disconnected ++ [c.connectionId] }

/-- `client.RemoteEndpoint.Address`. -/
def addressOf (s : State Request) (i : ℕ) : Option IPAddress :=
  (s.connections[i]?).map Client.remoteAddress

variable (settings : Settings)

/-- `banManager` is not null. -/
def banning : Bool := settings.banning.any PoolShareBasedBanningConfig.enabled

/-- `banManager?.IsBanned(address) == true`. -/
def isBanned (s : State Request) (address : IPAddress) : Bool :=
  banning settings && s.cache.isBanned s.now address

/-- `banManager.Ban`; exceptions are logged. -/
def ban (s : State Request) (address : IPAddress) (duration : ℤ) : State Request :=
  match s.cache.ban s.now address duration with
  | .ok cache => { s with cache := cache }
  | .error _ => s

/-- The `catch` blocks of a task of the client `i`. -/
def caught (s : State Request) (i : ℕ) (e : Exn) : State Request :=
  match s.addressOf i with
  | some address =>
    if e = .jsonReader ∧ bansJunk settings then s.ban address (seconds (30 * 60)) else s
  | none => s

/-- `OnClientConnected`: get rid of banned clients as early as possible. -/
def onClientConnected (s : State Request) (peer : IPAddress) (proxyProtocol : Bool) :
    State Request :=
  if s.isBanned settings peer then s
  else { s with connecting := s.connecting ++ [(peer, proxyProtocol)] }

/-- `OnClientConnected`: set up and register the client. -/
def accept (s : State Request) (peer : IPAddress) (proxyProtocol : Bool) : State Request :=
  let (lastId, connectionId) := CorrelationIdGenerator.getNextId s.lastId
  { s with
    lastId := lastId
    connecting := s.connecting.erase (peer, proxyProtocol)
    connections := s.connections ++ [.init connectionId peer proxyProtocol s.now]
    clients := register s.clients connectionId s.connections.length }

/-- `OnReceive`, of the lines a read completes: each gets a task. -/
def onReceive (s : State Request) (i : ℕ) (lines : List (List UInt8)) : State Request :=
  { s with
    received := s.received ++ lines.map (i, ·)
    waiting := s.waiting ++ List.range' s.received.length lines.length }

/-- A task starts: boot pre-connected clients. -/
def check (s : State Request) (n i : ℕ) (address : IPAddress) : State Request :=
  if s.isBanned settings address then
    { s.disconnectClient i with waiting := s.waiting.erase n, log := s.log ++ [(n, .booted)] }
  else { s with waiting := s.waiting.erase n, checked := s.checked ++ [n] }

/-- De-serialize and dispatch. -/
def handle (s : State Request) (n i : ℕ) : Except Exn (Option Request) → State Request
  | .ok (some request) => { s with
      checked := s.checked.erase n
      handling := s.handling ++ [n]
      log := s.log ++ [(n, .dispatched request s.now)] }
  | .ok none => { s with checked := s.checked.erase n, log := s.log ++ [(n, .null)] }
  | .error e => { s.caught settings i e with
      checked := s.checked.erase n
      log := s.log ++ [(n, .failed e)] }

end State

section Step

variable (settings : Settings) (deserializeRequest : List UInt8 → Except Exn (Option Request))

def step (s : State Request) : Event → Option (State Request)
  | .connect peer proxyProtocol => some (s.onClientConnected settings peer proxyProtocol)
  | .accept peer proxyProtocol =>
    if (peer, proxyProtocol) ∈ s.connecting then some (s.accept peer proxyProtocol) else none
  | .drawId => some { s with lastId := (CorrelationIdGenerator.getNextId s.lastId).1 }
  | .read i header lines => do
    let c ← s.connections[i]?
    if c.isAlive ∧ (header.isSome → c.expectingProxyProtocolHeader) then
      let connections := s.connections.modify i fun c => c.read s.now header lines
      some ({ s with connections := connections }.onReceive i lines)
    else none
  | .disconnect i => some { s with connections := s.connections.modify i Client.disconnect }
  | .dispose i => do
    let c ← s.connections[i]?
    if c.IsAlive then none
    else some { s with
      connections := s.connections.modify i fun c => { c with isAlive := false } }
  | .receiveError i | .disconnectClient i => some (s.disconnectClient i)
  | .receiveComplete i => some (State.disconnectClient
      { s with connections := s.connections.modify i fun c => { c with isAlive := false } } i)
  | .check n => do
    let (i, _) ← s.received[n]?
    let address ← s.addressOf i
    if n ∈ s.waiting then some (s.check settings n i address) else none
  | .handle n => do
    let (i, data) ← s.received[n]?
    if n ∈ s.checked then some (s.handle settings n i (deserializeRequest data)) else none
  | .finish n thrown => do
    let (i, _) ← s.received[n]?
    if n ∈ s.handling then
      let s := { s with handling := s.handling.erase n }
      some (thrown.elim s (s.caught settings i))
    else none
  | .ban address duration => some (s.ban address duration)
  | .zombie i => do
    let c ← s.connections[i]?
    let due ← c.zombieTimer
    if due ≤ s.now then
      let s := { s with
        connections := s.connections.modify i fun c => { c with zombieTimer := none } }
      some (if c.isZombie then s.disconnectClient i else s)
    else none
  | .tick ticks => some { s with now := s.now + ticks }

end Step

/-! ## What the operations leave alone -/

section Frame

variable (s : State Request) (i : ℕ)

@[simp] theorem connections_disconnectClient :
    (s.disconnectClient i).connections = s.connections.modify i Client.disconnect := by
  unfold State.disconnectClient
  split
  · rename_i h
    exact (List.modify_eq_self (List.getElem?_eq_none_iff.mp h)).symm
  · rfl

@[simp] theorem now_disconnectClient : (s.disconnectClient i).now = s.now := by
  unfold State.disconnectClient; split <;> rfl

@[simp] theorem cache_disconnectClient : (s.disconnectClient i).cache = s.cache := by
  unfold State.disconnectClient; split <;> rfl

@[simp] theorem toTasks_disconnectClient : (s.disconnectClient i).toTasks = s.toTasks := by
  unfold State.disconnectClient; split <;> rfl

/-- Bans change the cache only. -/
theorem ban_eq (address : IPAddress) (duration : ℤ) :
    ∃ cache, s.ban address duration = { s with cache := cache } := by
  unfold State.ban
  split
  · exact ⟨_, rfl⟩
  · exact ⟨s.cache, rfl⟩

theorem caught_eq (settings : Settings) (e : Exn) :
    ∃ cache, s.caught settings i e = { s with cache := cache } := by
  unfold State.caught
  split
  · split
    · exact ban_eq s _ _
    · exact ⟨s.cache, rfl⟩
  · exact ⟨s.cache, rfl⟩

end Frame

/-! ## The steps that are not always enabled -/

section Enabled

variable {settings : Settings} {deserializeRequest : List UInt8 → Except Exn (Option Request)}
  {s s' : State Request}

theorem step_accept {peer : IPAddress} {proxyProtocol : Bool}
    (h : step settings deserializeRequest s (.accept peer proxyProtocol) = some s') :
    (peer, proxyProtocol) ∈ s.connecting ∧ s' = s.accept peer proxyProtocol := by
  obtain ⟨hmem, h⟩ := Option.ite_none_right_eq_some.mp h
  exact ⟨hmem, (Option.some.inj h).symm⟩

theorem step_read {i : ℕ} {header : Option (Option IPAddress)} {lines : List (List UInt8)}
    (h : step settings deserializeRequest s (.read i header lines) = some s') :
    ∃ c, s.connections[i]? = some c ∧ c.isAlive ∧
      (header.isSome → c.expectingProxyProtocolHeader) ∧
      s' = State.onReceive { s with
        connections := s.connections.modify i fun c => c.read s.now header lines } i lines := by
  obtain ⟨c, hc, h⟩ := Option.bind_eq_some_iff.mp h
  obtain ⟨⟨halive, hheader⟩, h⟩ := Option.ite_none_right_eq_some.mp h
  exact ⟨c, hc, halive, hheader, (Option.some.inj h).symm⟩

theorem step_dispose {i : ℕ} (h : step settings deserializeRequest s (.dispose i) = some s') :
    s' = { s with
      connections := s.connections.modify i fun c => { c with isAlive := false } } := by
  obtain ⟨c, -, h⟩ := Option.bind_eq_some_iff.mp h
  obtain ⟨-, h⟩ := Option.ite_none_left_eq_some.mp h
  exact (Option.some.inj h).symm

theorem step_check {n : ℕ} (h : step settings deserializeRequest s (.check n) = some s') :
    ∃ i data address, s.received[n]? = some (i, data) ∧ s.addressOf i = some address ∧
      n ∈ s.waiting ∧ s' = s.check settings n i address := by
  obtain ⟨⟨i, data⟩, hn, h⟩ := Option.bind_eq_some_iff.mp h
  obtain ⟨address, ha, h⟩ := Option.bind_eq_some_iff.mp h
  obtain ⟨hmem, h⟩ := Option.ite_none_right_eq_some.mp h
  exact ⟨i, data, address, hn, ha, hmem, (Option.some.inj h).symm⟩

theorem step_handle {n : ℕ} (h : step settings deserializeRequest s (.handle n) = some s') :
    ∃ i data, s.received[n]? = some (i, data) ∧ n ∈ s.checked ∧
      s' = s.handle settings n i (deserializeRequest data) := by
  obtain ⟨⟨i, data⟩, hn, h⟩ := Option.bind_eq_some_iff.mp h
  obtain ⟨hmem, h⟩ := Option.ite_none_right_eq_some.mp h
  exact ⟨i, data, hn, hmem, (Option.some.inj h).symm⟩

theorem step_finish {n : ℕ} {thrown : Option Exn}
    (h : step settings deserializeRequest s (.finish n thrown) = some s') :
    ∃ i data, s.received[n]? = some (i, data) ∧ n ∈ s.handling ∧
      s' = thrown.elim { s with handling := s.handling.erase n }
        (State.caught settings { s with handling := s.handling.erase n } i) := by
  obtain ⟨⟨i, data⟩, hn, h⟩ := Option.bind_eq_some_iff.mp h
  obtain ⟨hmem, h⟩ := Option.ite_none_right_eq_some.mp h
  exact ⟨i, data, hn, hmem, (Option.some.inj h).symm⟩

theorem step_zombie {i : ℕ} (h : step settings deserializeRequest s (.zombie i) = some s') :
    ∃ c due, s.connections[i]? = some c ∧ c.zombieTimer = some due ∧ due ≤ s.now ∧
      s' = if c.isZombie then
          State.disconnectClient { s with
            connections := s.connections.modify i fun c => { c with zombieTimer := none } } i
        else { s with
          connections := s.connections.modify i fun c => { c with zombieTimer := none } } := by
  obtain ⟨c, hc, h⟩ := Option.bind_eq_some_iff.mp h
  obtain ⟨due, hdue, h⟩ := Option.bind_eq_some_iff.mp h
  obtain ⟨hle, h⟩ := Option.ite_none_right_eq_some.mp h
  exact ⟨c, due, hc, hdue, hle, (Option.some.inj h).symm⟩

/-- What a handler throws changes the cache only. -/
theorem finish_eq (s : State Request) (settings : Settings) (i : ℕ) (thrown : Option Exn) :
    ∃ cache, thrown.elim s (s.caught settings i) = { s with cache := cache } := by
  cases thrown with
  | none => exact ⟨s.cache, rfl⟩
  | some e => exact caught_eq s i settings e

end Enabled

end AionPool.Stratum1.StratumServer
