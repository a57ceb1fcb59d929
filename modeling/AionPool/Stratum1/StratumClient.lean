import AionPool.Extensions.Strings
import AionPool.Lib.Run
import AionPool.Util.PooledLineBuffer

/-!
# `StratumClient`: what is read from a connection

With the proxy protocol enabled, the first line of a connection may name the real address of the
client, and is the gate the connection has to pass. A line that fails it makes the client call
`Disconnect`, which only posts the closing of the connection to the event loop: the gate has been
taken away with the first line, and what comes behind it is handed to the request handler until the
loop gets to the closing.

* **`gate_holds`**: in every run in which no line is completed behind a rejected one before the
  connection is closed, nothing behind it is handed over, and only the first line of the stream
  changes `RemoteEndpoint`.

Models `StratumClient.cs:70-109`, `:202-208` and `:248-346`, and `ClusterConfig.cs:406-422`. Out of
scope: what is sent.
-/

namespace AionPool.Stratum1

open AionPool.Extensions AionPool.Lib.Effects AionPool.Lib.Framing AionPool.Lib.Run AionPool.Util

/-! ## Data -/

/-- `IPAddress`, by its bytes. -/
abbrev IPAddress := List UInt8

/-- `IPAddress.Loopback`. -/
def loopback : IPAddress := [127, 0, 0, 1]

structure IPEndPoint where
  address : IPAddress
  port : ℕ
  deriving DecidableEq

/-- `new IPEndPoint(address, port)`. -/
def IPEndPoint.create (address : IPAddress) (port : Int32) : Except Exn IPEndPoint :=
  if 0 ≤ port.toInt ∧ port.toInt ≤ 0xffff then return ⟨address, port.toInt.toNat⟩
  else throw .argumentOutOfRange

/-- `TcpProxyProtocolConfig` of a port that has it enabled. -/
structure TcpProxyProtocolConfig where
  mandatory : Bool
  proxyAddresses : Option (List Text)

/-- What `Receive` takes from .NET: `StartsWith` in the current culture, `IPAddress.Parse` and
`int.Parse`. -/
structure Platform where
  startsWith : Text → Text → Bool
  parseAddress : Text → Except Exn IPAddress
  parseInt : Text → Except Exn Int32

/-- The state of a `StratumClient` that receives. `Receive` looks at the field `isAlive`, and
`Disconnect` sets the property `IsAlive`. -/
structure StratumClient where
  expectingProxyProtocolHeader : Bool
  isAlive : Bool
  IsAlive : Bool
  /-- `subscription` has not been disposed. -/
  subscription : Bool
  /-- `disposer.Send()` was called, and the loop has not got to it. -/
  disposerSent : Bool
  remoteEndpoint : IPEndPoint
  /-- The lines handed to `onNext`. -/
  requests : List (List UInt8)

/-- A client after `Init`, on a port that has the proxy protocol enabled. -/
def StratumClient.init (remoteEndpoint : IPEndPoint) : StratumClient where
  expectingProxyProtocolHeader := true
  isAlive := true
  IsAlive := true
  subscription := true
  disposerSent := false
  remoteEndpoint := remoteEndpoint
  requests := []

/-- `Disconnect`. -/
def StratumClient.disconnect (client : StratumClient) : StratumClient :=
  { client with
    disposerSent := client.disposerSent || client.subscription
    subscription := false
    IsAlive := false }

/-! ## `Receive` -/

/-- A program of the client. -/
abbrev Handler (α : Type) := EStateM Exn StratumClient α

/-- `MaxInboundRequestLength`. -/
def maxInboundRequestLength : ℕ := 0x8000

/-- `Encoding.ASCII.GetString`. -/
def asciiString (bytes : List UInt8) : Text :=
  bytes.map fun b => if b < 128 then b.toUInt16 else 63

/-- `onNext`: the line is on its way to the request handler. -/
def forward (lineData : List UInt8) : Handler Unit :=
  modify fun client => { client with requests := client.requests ++ [lineData] }

variable (platform : Platform) (config : TcpProxyProtocolConfig) (peerAddress : IPAddress)

/-- The addresses a header is accepted from. -/
def proxyAddresses : Except Exn (List IPAddress) := do
  let addresses ← (config.proxyAddresses.getD []).mapM platform.parseAddress
  return if addresses.isEmpty then [loopback] else addresses

/-- The client's real address and port, from the parts of a header. -/
def headerEndpoint (line : Text) : Except Exn IPEndPoint := do
  let parts := line.splitOn 32
  let some remoteAddress := parts[2]? | throw .indexOutOfRange
  let some remotePort := parts[4]? | throw .indexOutOfRange
  let address ← platform.parseAddress remoteAddress
  let port ← platform.parseInt remotePort
  IPEndPoint.create address port

/-- A header is taken from a proxy only. -/
def receiveHeader (line : Text) : Handler Unit := do
  let addresses ← MonadExcept.ofExcept (proxyAddresses platform config)
  if peerAddress ∈ addresses then
    let endpoint ← MonadExcept.ofExcept (headerEndpoint platform line)
    modify fun client => { client with remoteEndpoint := endpoint }
  else modify StratumClient.disconnect

/-- The line callback of a chunk that is read while the header is expected. -/
def lineReceived (lineData : List UInt8) : Handler Unit := do
  let client ← get
  if client.expectingProxyProtocolHeader then
    set { client with expectingProxyProtocolHeader := false }
    let line := asciiString lineData
    if platform.startsWith line (ascii "PROXY ") then receiveHeader platform config peerAddress line
    else if config.mandatory then modify StratumClient.disconnect
    else forward lineData
  else forward lineData

/-- What `plb.Receive` is given for a chunk: the callback is chosen once. -/
def callbacks (client : StratumClient) : Callbacks StratumClient where
  onNext :=
    if client.expectingProxyProtocolHeader then lineReceived platform config peerAddress
    else forward
  onError _ := modify StratumClient.disconnect

/-! ## The connection -/

/-- The client and its line buffer, and the bytes that arrived. -/
structure State where
  recvQueue : List PooledArraySegment
  client : StratumClient
  stream : List UInt8

/-- What happens on the event loop, and a `Disconnect` that comes from the server. -/
inductive Event where
  | read (c : Chunk)
  | dispose
  | disconnect
  | complete

/-- The read callback. An exception that leaves it leaves the client as it is. -/
def State.read (s : State) (c : Chunk) : State :=
  let stream := s.stream ++ c.data
  if c.data = [] ∨ s.client.isAlive = false then { s with stream := stream }
  else
    match (receive c.pool (callbacks platform config peerAddress s.client)
      (some maxInboundRequestLength) c.data false).run (s.recvQueue, s.client) with
    | .ok _ (recvQueue, client) => ⟨recvQueue, client, stream⟩
    | .error _ (recvQueue, client) => ⟨recvQueue, client, stream⟩

def step (s : State) : Event → Option State
  | .read c => some (s.read platform config peerAddress c)
  | .dispose =>
    if s.client.disposerSent then
      some { s with client := { s.client with isAlive := false, disposerSent := false } }
    else none
  | .disconnect => some { s with client := s.client.disconnect }
  | .complete => some { s with
      recvQueue := [], client := { s.client.disconnect with isAlive := false } }

/-- A connection on a port that has the proxy protocol enabled. -/
def State.init (remoteEndpoint : IPEndPoint) : State := ⟨[], .init remoteEndpoint, []⟩

/-! ## The gate -/

/-- The line is a header of the proxy protocol. -/
def isHeader (lineData : List UInt8) : Bool :=
  platform.startsWith (asciiString lineData) (ascii "PROXY ")

/-- The peer is a configured proxy. -/
def fromProxy : Bool :=
  match proxyAddresses platform config with
  | .ok addresses => addresses.contains peerAddress
  | .error _ => false

/-- A first line the connection must not get past: a header that does not come from a proxy, or
another line where the header is mandatory. -/
def rejected (lineData : List UInt8) : Bool :=
  isHeader platform lineData && !fromProxy platform config peerAddress ||
    config.mandatory && !isHeader platform lineData

/-- The first line of a stream that is not empty. -/
def firstLine (stream : List UInt8) : Option (List UInt8) := (lines 0x0a stream).head?

/-- The lines a chunk completes. -/
def completed (s : State) (c : Chunk) : List (List UInt8) :=
  lines 0x0a (pending s.recvQueue ++ c.data)

/-- What is read while the header is expected loses no byte, and a rejected line is the last one
that is completed before the connection is closed. -/
def Closes (s : State) : Event → Prop
  | .read c => s.client.isAlive = true → c.data ≠ [] →
    if s.client.expectingProxyProtocolHeader then
      ¬ c.Tight ∧ c.data.length ≤ maxInboundRequestLength ∧
        ((completed s c).head?.any (rejected platform config peerAddress) = true →
          (completed s c).tail = [])
    else (firstLine s.stream).any (rejected platform config peerAddress) = true →
      completed s c = []
  | _ => True

/-- What the gate promises. -/
structure Gated (remoteEndpoint : IPEndPoint) (s : State) : Prop where
  /-- A rejected first line is the end of it. -/
  requests : ∀ l, firstLine s.stream = some l → rejected platform config peerAddress l = true →
    s.client.requests = []
  /-- The endpoint is the peer's, or the one the first line names. -/
  endpoint : s.client.remoteEndpoint = remoteEndpoint ∨
    ∃ l, firstLine s.stream = some l ∧ isHeader platform l = true ∧
      fromProxy platform config peerAddress = true ∧
      headerEndpoint platform (asciiString l) = .ok s.client.remoteEndpoint
  /-- Behind the first line nothing changes the endpoint. -/
  settled : ∀ l, firstLine s.stream = some l → ∀ e s',
    step platform config peerAddress s e = some s' →
    s'.client.remoteEndpoint = s.client.remoteEndpoint

variable {platform config peerAddress}

/-! ## Lines -/

@[simp] theorem disconnect_expecting (client : StratumClient) :
    client.disconnect.expectingProxyProtocolHeader = client.expectingProxyProtocolHeader := rfl

@[simp] theorem disconnect_requests (client : StratumClient) :
    client.disconnect.requests = client.requests := rfl

@[simp] theorem disconnect_remoteEndpoint (client : StratumClient) :
    client.disconnect.remoteEndpoint = client.remoteEndpoint := rfl

@[simp] theorem disconnect_isAlive (client : StratumClient) :
    client.disconnect.isAlive = client.isAlive := rfl

theorem run_forM_forward (ls : List (List UInt8)) (client : StratumClient) :
    (forM ls forward).run client =
      .ok () { client with requests := client.requests ++ ls } := by
  induction ls generalizing client with
  | nil => rw [List.append_nil]; rfl
  | cons l ls ih =>
    have hforward : (forward l).run client =
        .ok () { client with requests := client.requests ++ [l] } := rfl
    rw [List.forM_cons, run_bind_ok hforward, ih, List.append_assoc]
    rfl

/-- Once the header is no longer expected, the callback of a chunk only forwards. -/
theorem run_forM_lineReceived (ls : List (List UInt8)) {client : StratumClient}
    (h : client.expectingProxyProtocolHeader = false) :
    (forM ls (lineReceived platform config peerAddress)).run client =
      .ok () { client with requests := client.requests ++ ls } := by
  induction ls generalizing client with
  | nil => rw [List.append_nil]; rfl
  | cons l ls ih =>
    have hforward : (lineReceived platform config peerAddress l).run client =
        .ok () { client with requests := client.requests ++ [l] } := by
      unfold lineReceived
      rw [EStateM.run_bind, EStateM.run_get]
      dsimp only
      rw [if_neg (by simp [h])]
      rfl
    have hpassed : ({ client with requests := client.requests ++ [l] } :
        StratumClient).expectingProxyProtocolHeader = false := h
    rw [List.forM_cons, run_bind_ok hforward, ih hpassed, List.append_assoc]
    rfl

/-- What the first line makes of a client. -/
structure FirstLine (platform : Platform) (config : TcpProxyProtocolConfig)
    (peerAddress : IPAddress) (client : StratumClient) (l : List UInt8)
    (client' : StratumClient) : Prop where
  passed : client'.expectingProxyProtocolHeader = false
  requests : rejected platform config peerAddress l = true → client'.requests = client.requests
  endpoint : client'.remoteEndpoint = client.remoteEndpoint ∨
    isHeader platform l = true ∧ fromProxy platform config peerAddress = true ∧
      headerEndpoint platform (asciiString l) = .ok client'.remoteEndpoint

/-- The first line, whether its callback throws or not. -/
theorem lineReceived_first {client : StratumClient} (l : List UInt8)
    (h : client.expectingProxyProtocolHeader = true) :
    ∃ client', FirstLine platform config peerAddress client l client' ∧
      ((lineReceived platform config peerAddress l).run client = .ok () client' ∨
        ∃ e, (lineReceived platform config peerAddress l).run client = .error e client') := by
  unfold lineReceived
  rw [EStateM.run_bind, EStateM.run_get]
  dsimp only
  rw [if_pos h, EStateM.run_bind, EStateM.run_set]
  dsimp only
  split
  · rename_i hheader
    unfold receiveHeader
    cases haddresses : proxyAddresses platform config with
    | error e =>
      refine ⟨_, ?_, Or.inr ⟨e, run_bind_error (run_ofExcept_error rfl _)⟩⟩
      exact ⟨rfl, fun _ => rfl, Or.inl rfl⟩
    | ok addresses =>
      rw [run_bind_ok (run_ofExcept_ok rfl _)]
      split
      · rename_i hproxy
        cases hendpoint : headerEndpoint platform (asciiString l) with
        | error e =>
          refine ⟨_, ?_, Or.inr ⟨e, run_bind_error (run_ofExcept_error rfl _)⟩⟩
          exact ⟨rfl, fun _ => rfl, Or.inl rfl⟩
        | ok endpoint =>
          have hfrom : fromProxy platform config peerAddress = true := by
            unfold fromProxy
            rw [haddresses]
            exact List.contains_iff_mem.mpr hproxy
          refine ⟨_, ?_, Or.inl (run_bind_ok (run_ofExcept_ok rfl _))⟩
          exact ⟨rfl, fun _ => rfl, Or.inr ⟨hheader, hfrom, hendpoint⟩⟩
      · refine ⟨_, ?_, Or.inl rfl⟩
        exact ⟨rfl, fun _ => rfl, Or.inl rfl⟩
  · rename_i hheader
    split
    · refine ⟨_, ?_, Or.inl rfl⟩
      exact ⟨rfl, fun _ => rfl, Or.inl rfl⟩
    · rename_i hoptional
      have hpassed : rejected platform config peerAddress l = false := by
        unfold rejected isHeader
        simp [hheader, hoptional]
      refine ⟨_, ?_, Or.inl rfl⟩
      exact ⟨rfl, fun h => absurd (hpassed.symm.trans h) (by simp), Or.inl rfl⟩

/-! ## One read -/

theorem run_checkFlooding_cases (client₀ : StratumClient) (maxLength : Option ℕ)
    (queue : List PooledArraySegment) (client : StratumClient) :
    ∃ client', (client' = client ∨ client' = client.disconnect) ∧
      (checkFlooding (callbacks platform config peerAddress client₀) maxLength).run
        (queue, client) = .ok () (queue, client') := by
  unfold checkFlooding
  rw [EStateM.run_bind, EStateM.run_get]
  dsimp only
  split
  · exact ⟨client.disconnect, Or.inr rfl, rfl⟩
  · exact ⟨client, Or.inl rfl, rfl⟩

/-- A read of a chunk that is not too long: the callbacks take its lines, and when they take them
all the rest waits. -/
theorem read_cases {s : State} (hq : Stored s.recvQueue) {c : Chunk}
    (halive : s.client.isAlive = true) (hne : c.data ≠ [])
    (hmax : c.data.length ≤ maxInboundRequestLength) :
    let calls := (forM (lines 0x0a (pending s.recvQueue ++ c.received))
      (callbacks platform config peerAddress s.client).onNext).run s.client
    ∃ queue client', s.read platform config peerAddress c = ⟨queue, client', s.stream ++ c.data⟩ ∧
      Stored queue ∧
      ((∃ e, calls = .error e client') ∨
        ∃ client, calls = .ok () client ∧
          pending queue = rest 0x0a (pending s.recvQueue ++ c.received) ∧
          (client' = client ∨ client' = client.disconnect)) := by
  intro calls
  have hspec := receive_spec (callbacks platform config peerAddress s.client) hne
    (fun m hm => Option.some.inj hm ▸ hmax) hq s.client
  have hread : s.read platform config peerAddress c =
      match (receive c.pool (callbacks platform config peerAddress s.client)
        (some maxInboundRequestLength) c.data false).run (s.recvQueue, s.client) with
      | .ok _ (recvQueue, client) => ⟨recvQueue, client, s.stream ++ c.data⟩
      | .error _ (recvQueue, client) => ⟨recvQueue, client, s.stream ++ c.data⟩ :=
    if_neg (by simp [halive, hne])
  rw [hread]
  unfold Frames at hspec
  split at hspec
  · rename_i e client' hcalls
    rw [hspec]
    exact ⟨[], client', rfl, stored_nil, Or.inl ⟨e, hcalls⟩⟩
  · rename_i client hcalls
    obtain ⟨queue, hstored, hpending, htight, hloose⟩ := hspec
    by_cases ht : c.Tight
    · rw [htight ht]
      exact ⟨queue, client, rfl, hstored, Or.inr ⟨client, hcalls, hpending, Or.inl rfl⟩⟩
    · obtain ⟨client', hclient', hcheck⟩ :=
        run_checkFlooding_cases s.client (some maxInboundRequestLength) queue client
      rw [hloose ht, hcheck]
      exact ⟨queue, client', rfl, hstored, Or.inr ⟨client, hcalls, hpending, hclient'⟩⟩

/-- A chunk that is too long is not read, and the client disconnected. -/
theorem read_oversize {s : State} {c : Chunk} (halive : s.client.isAlive = true)
    (hmax : maxInboundRequestLength < c.data.length) :
    s.read platform config peerAddress c =
      ⟨s.recvQueue, s.client.disconnect, s.stream ++ c.data⟩ := by
  have hne : c.data ≠ [] := fun h => by
    rw [h] at hmax
    exact absurd hmax (by simp)
  have hfilter : ((some maxInboundRequestLength).filter fun m => m < c.data.length) =
      some maxInboundRequestLength := by simpa using hmax
  unfold State.read
  rw [if_neg (by simp [halive, hne])]
  unfold receive
  rw [if_neg (mt List.eq_nil_of_length_eq_zero hne), hfilter]
  rfl

/-! ## Runs -/

/-- What holds of a connection whose steps all meet the condition. -/
structure Inv (platform : Platform) (config : TcpProxyProtocolConfig) (peerAddress : IPAddress)
    (remoteEndpoint : IPEndPoint) (s : State) : Prop where
  stored : Stored s.recvQueue
  waiting : s.client.expectingProxyProtocolHeader = true →
    s.client.requests = [] ∧ s.client.remoteEndpoint = remoteEndpoint ∧
      (s.client.isAlive = true →
        lines 0x0a s.stream = [] ∧ pending s.recvQueue = rest 0x0a s.stream)
  passed : s.client.expectingProxyProtocolHeader = false →
    ∃ l, firstLine s.stream = some l ∧
      (rejected platform config peerAddress l = true → s.client.requests = []) ∧
      (s.client.remoteEndpoint = remoteEndpoint ∨
        isHeader platform l = true ∧ fromProxy platform config peerAddress = true ∧
          headerEndpoint platform (asciiString l) = .ok s.client.remoteEndpoint)

/-- The first line of a stream stays its first line. -/
theorem firstLine_append {stream : List UInt8} {l : List UInt8} (h : firstLine stream = some l)
    (data : List UInt8) : firstLine (stream ++ data) = some l := by
  unfold firstLine at h ⊢
  rw [lines_append, List.head?_append, h]
  rfl

/-- A part of what completes no line completes none. -/
theorem lines_received {waiting : List UInt8} {c : Chunk}
    (h : lines 0x0a (waiting ++ c.data) = []) : lines 0x0a (waiting ++ c.received) = [] := by
  by_cases ht : c.Tight
  · have hreceived : c.received = c.data.dropLast := if_pos ht
    have hne : c.data ≠ [] := fun hnil => not_endsTight_nil (hnil ▸ ht.2)
    rw [← List.dropLast_append_getLast hne, ← List.append_assoc, lines_append] at h
    rw [hreceived]
    exact (List.append_eq_nil_iff.mp h).1
  · rw [Chunk.received_of_not_tight ht]
    exact h

/-- A read before the first line is complete: the lines it completes are the first ones of the
stream. -/
theorem read_waiting {remoteEndpoint : IPEndPoint} {s : State} {c : Chunk}
    (hI : Inv platform config peerAddress remoteEndpoint s) (halive : s.client.isAlive = true)
    (hne : c.data ≠ []) (hexp : s.client.expectingProxyProtocolHeader = true)
    (hloose : ¬ c.Tight) (hmax : c.data.length ≤ maxInboundRequestLength) :
    let calls := (forM (completed s c) (lineReceived platform config peerAddress)).run s.client
    lines 0x0a (s.stream ++ c.data) = completed s c ∧
      ∃ queue client', s.read platform config peerAddress c = ⟨queue, client', s.stream ++ c.data⟩ ∧
        Stored queue ∧
        ((∃ e, calls = .error e client') ∨
          ∃ client, calls = .ok () client ∧ pending queue = rest 0x0a (s.stream ++ c.data) ∧
            (client' = client ∨ client' = client.disconnect)) := by
  intro calls
  obtain ⟨hlines, hpending⟩ := (hI.waiting hexp).2.2 halive
  have hrest : rest 0x0a (pending s.recvQueue ++ c.data) = rest 0x0a (s.stream ++ c.data) := by
    rw [hpending, ← rest_append]
  have honNext : (callbacks platform config peerAddress s.client).onNext =
      lineReceived platform config peerAddress := if_pos hexp
  obtain ⟨queue, client', hread, hstored, hcalls⟩ :=
    @read_cases platform config peerAddress s hI.stored c halive hne hmax
  rw [honNext, Chunk.received_of_not_tight hloose, hrest] at hcalls
  refine ⟨?_, queue, client', hread, hstored, hcalls⟩
  rw [lines_append, hlines, List.nil_append, ← hpending]
  rfl

/-- A read that completes no line leaves the connection waiting for its first one. -/
theorem inv_read_none {remoteEndpoint : IPEndPoint} {s : State} {c : Chunk}
    (hI : Inv platform config peerAddress remoteEndpoint s) (halive : s.client.isAlive = true)
    (hne : c.data ≠ []) (hexp : s.client.expectingProxyProtocolHeader = true)
    (hloose : ¬ c.Tight) (hmax : c.data.length ≤ maxInboundRequestLength)
    (hcompleted : completed s c = []) :
    Inv platform config peerAddress remoteEndpoint (s.read platform config peerAddress c) := by
  obtain ⟨hlines, queue, client', hread, hstored, hcalls⟩ :=
    read_waiting hI halive hne hexp hloose hmax
  rw [hcompleted] at hlines hcalls
  obtain ⟨hpending, hclient⟩ : pending queue = rest 0x0a (s.stream ++ c.data) ∧
      (client' = s.client ∨ client' = s.client.disconnect) := by
    rcases hcalls with ⟨e, he⟩ | ⟨client, hok, hpending, hclient⟩
    · exact nomatch he
    · obtain rfl : s.client = client := (EStateM.Result.ok.inj hok).2
      exact ⟨hpending, hclient⟩
  obtain ⟨hrequests, hendpoint, -⟩ := hI.waiting hexp
  obtain ⟨hexp', hrequests', hendpoint'⟩ : client'.expectingProxyProtocolHeader = true ∧
      client'.requests = [] ∧ client'.remoteEndpoint = remoteEndpoint := by
    rcases hclient with rfl | rfl
    · exact ⟨hexp, hrequests, hendpoint⟩
    · exact ⟨hexp, hrequests, hendpoint⟩
  rw [hread]
  exact ⟨hstored, fun _ => ⟨hrequests', hendpoint', fun _ => ⟨hlines, hpending⟩⟩,
    fun h => absurd (hexp'.symm.trans h) (by simp)⟩

/-- The first line is taken, and the others of its chunk are forwarded, unless its callback
throws. -/
theorem run_forM_first {client : StratumClient} (l : List UInt8) (ls : List (List UInt8))
    (h : client.expectingProxyProtocolHeader = true) :
    ∃ client₁, FirstLine platform config peerAddress client l client₁ ∧
      ((forM (l :: ls) (lineReceived platform config peerAddress)).run client =
          .ok () { client₁ with requests := client₁.requests ++ ls } ∨
        ∃ e, (forM (l :: ls) (lineReceived platform config peerAddress)).run client =
          .error e client₁) := by
  obtain ⟨client₁, hline, hrun⟩ := @lineReceived_first platform config peerAddress client l h
  rw [List.forM_cons]
  refine ⟨client₁, hline, hrun.imp (fun hok => ?_) ?_⟩
  · rw [run_bind_ok hok, run_forM_lineReceived ls hline.passed]
  · rintro ⟨e, herror⟩
    exact ⟨e, run_bind_error herror⟩

/-- A read that completes the first line; nothing is forwarded behind one that is rejected. -/
theorem inv_read_first {remoteEndpoint : IPEndPoint} {s : State} {c : Chunk} {l : List UInt8}
    {ls : List (List UInt8)} (hI : Inv platform config peerAddress remoteEndpoint s)
    (halive : s.client.isAlive = true) (hne : c.data ≠ [])
    (hexp : s.client.expectingProxyProtocolHeader = true) (hloose : ¬ c.Tight)
    (hmax : c.data.length ≤ maxInboundRequestLength) (hcompleted : completed s c = l :: ls)
    (hlast : rejected platform config peerAddress l = true → ls = []) :
    Inv platform config peerAddress remoteEndpoint (s.read platform config peerAddress c) := by
  obtain ⟨hlines, queue, client', hread, hstored, hcalls⟩ :=
    read_waiting hI halive hne hexp hloose hmax
  obtain ⟨hrequests, hendpoint, -⟩ := hI.waiting hexp
  obtain ⟨client₁, hline, hrun⟩ := @run_forM_first platform config peerAddress s.client l ls hexp
  rw [hcompleted] at hlines hcalls
  have hfirst : firstLine (s.stream ++ c.data) = some l := congrArg List.head? hlines
  obtain ⟨hpassed, hreq, hend⟩ : client'.expectingProxyProtocolHeader = false ∧
      (rejected platform config peerAddress l = true → client'.requests = client₁.requests) ∧
      client'.remoteEndpoint = client₁.remoteEndpoint := by
    rcases hrun with hok | ⟨e, herror⟩
    · rcases hcalls with ⟨e, he⟩ | ⟨client, hcalls, -, hclient⟩
      · exact absurd (hok.symm.trans he) (by simp)
      obtain ⟨-, rfl⟩ := EStateM.Result.ok.inj (hok.symm.trans hcalls)
      have hadd : rejected platform config peerAddress l = true →
          client₁.requests ++ ls = client₁.requests := fun h => by
        rw [hlast h, List.append_nil]
      rcases hclient with rfl | rfl
      · exact ⟨hline.passed, hadd, rfl⟩
      · exact ⟨hline.passed, hadd, rfl⟩
    · rcases hcalls with ⟨e', he⟩ | ⟨client, hcalls, -⟩
      · obtain ⟨-, rfl⟩ := EStateM.Result.error.inj (herror.symm.trans he)
        exact ⟨hline.passed, fun _ => rfl, rfl⟩
      · exact absurd (herror.symm.trans hcalls) (by simp)
  rw [hread]
  refine ⟨hstored, fun h => absurd (hpassed.symm.trans h) (by simp), fun _ =>
    ⟨l, hfirst, fun h => ?_, ?_⟩⟩
  · exact (hreq h).trans ((hline.requests h).trans hrequests)
  · rw [hend, ← hendpoint]
    exact hline.endpoint

theorem inv_read_waiting {remoteEndpoint : IPEndPoint} {s : State} {c : Chunk}
    (hI : Inv platform config peerAddress remoteEndpoint s)
    (hG : Closes platform config peerAddress s (.read c)) (halive : s.client.isAlive = true)
    (hne : c.data ≠ []) (hexp : s.client.expectingProxyProtocolHeader = true) :
    Inv platform config peerAddress remoteEndpoint (s.read platform config peerAddress c) := by
  have hG := hG halive hne
  rw [if_pos hexp] at hG
  obtain ⟨hloose, hmax, hclose⟩ := hG
  cases hcompleted : completed s c with
  | nil => exact inv_read_none hI halive hne hexp hloose hmax hcompleted
  | cons l ls =>
    rw [hcompleted] at hclose
    exact inv_read_first hI halive hne hexp hloose hmax hcompleted hclose

/-- A read behind the first line forwards what it completes. -/
theorem read_passed {s : State} (hq : Stored s.recvQueue) {c : Chunk}
    (halive : s.client.isAlive = true) (hne : c.data ≠ [])
    (hexp : s.client.expectingProxyProtocolHeader = false) :
    ∃ queue client', s.read platform config peerAddress c = ⟨queue, client', s.stream ++ c.data⟩ ∧
      Stored queue ∧ client'.expectingProxyProtocolHeader = false ∧
      client'.remoteEndpoint = s.client.remoteEndpoint ∧
      (client'.requests = s.client.requests ∨
        client'.requests =
          s.client.requests ++ lines 0x0a (pending s.recvQueue ++ c.received)) := by
  by_cases hmax : c.data.length ≤ maxInboundRequestLength
  · obtain ⟨queue, client', hread, hstored, hcalls⟩ :=
      @read_cases platform config peerAddress s hq c halive hne hmax
    have honNext : (callbacks platform config peerAddress s.client).onNext = forward :=
      if_neg (by simp [hexp])
    rw [honNext, run_forM_forward] at hcalls
    rcases hcalls with ⟨e, he⟩ | ⟨client, hrun, -, hclient⟩
    · exact nomatch he
    obtain ⟨-, rfl⟩ := EStateM.Result.ok.inj hrun
    rcases hclient with rfl | rfl
    · exact ⟨queue, _, hread, hstored, hexp, rfl, Or.inr rfl⟩
    · exact ⟨queue, _, hread, hstored, hexp, rfl, Or.inr rfl⟩
  · exact ⟨_, _, read_oversize halive (Nat.lt_of_not_le hmax), hq, hexp, rfl, Or.inl rfl⟩

theorem inv_read_passed {remoteEndpoint : IPEndPoint} {s : State} {c : Chunk}
    (hI : Inv platform config peerAddress remoteEndpoint s)
    (hG : Closes platform config peerAddress s (.read c)) (halive : s.client.isAlive = true)
    (hne : c.data ≠ []) (hexp : s.client.expectingProxyProtocolHeader = false) :
    Inv platform config peerAddress remoteEndpoint (s.read platform config peerAddress c) := by
  have hG := hG halive hne
  rw [if_neg (by simp [hexp])] at hG
  obtain ⟨l, hfirst, hrequests, hendpoint⟩ := hI.passed hexp
  obtain ⟨queue, client', hread, hstored, hpassed, hend, hreq⟩ :=
    @read_passed platform config peerAddress s hI.stored c halive hne hexp
  rw [hread]
  refine ⟨hstored, fun h => absurd (hpassed.symm.trans h) (by simp), fun _ =>
    ⟨l, firstLine_append hfirst c.data, fun h => ?_, hend.symm ▸ hendpoint⟩⟩
  have hclose : lines 0x0a (pending s.recvQueue ++ c.received) = [] :=
    lines_received (hG (by rw [hfirst]; exact h))
  rcases hreq with hreq | hreq
  · exact hreq.trans (hrequests h)
  · rw [hreq, hclose, hrequests h]
    rfl

/-- What is not read only adds to the stream. -/
theorem read_skip {s : State} {c : Chunk} (h : c.data = [] ∨ s.client.isAlive = false) :
    s.read platform config peerAddress c = { s with stream := s.stream ++ c.data } := if_pos h

theorem step_dispose {s s' : State}
    (h : step platform config peerAddress s .dispose = some s') :
    s' = { s with client := { s.client with isAlive := false, disposerSent := false } } := by
  dsimp only [step] at h
  split at h
  · exact (Option.some.inj h).symm
  · exact nomatch h

theorem inv_step {remoteEndpoint : IPEndPoint} (s : State) (e : Event) (s' : State)
    (hI : Inv platform config peerAddress remoteEndpoint s)
    (hG : Closes platform config peerAddress s e)
    (h : step platform config peerAddress s e = some s') :
    Inv platform config peerAddress remoteEndpoint s' := by
  cases e with
  | read c =>
    obtain rfl := Option.some.inj h
    by_cases hskip : c.data = [] ∨ s.client.isAlive = false
    · rw [read_skip hskip]
      refine ⟨hI.stored, fun hexp => ?_, fun hexp => ?_⟩
      · obtain ⟨hrequests, hendpoint, hstream⟩ := hI.waiting hexp
        refine ⟨hrequests, hendpoint, fun halive => ?_⟩
        rcases hskip with hnil | hdead
        · rw [hnil, List.append_nil]
          exact hstream halive
        · exact absurd (hdead.symm.trans halive) (by simp)
      · obtain ⟨l, hfirst, hl⟩ := hI.passed hexp
        exact ⟨l, firstLine_append hfirst c.data, hl⟩
    · obtain ⟨hne, halive⟩ := not_or.mp hskip
      cases hexp : s.client.expectingProxyProtocolHeader with
      | true => exact inv_read_waiting hI hG (by simpa using halive) hne hexp
      | false => exact inv_read_passed hI hG (by simpa using halive) hne hexp
  | dispose =>
    obtain rfl := step_dispose h
    refine ⟨hI.stored, fun hexp => ?_, hI.passed⟩
    obtain ⟨hrequests, hendpoint, -⟩ := hI.waiting hexp
    exact ⟨hrequests, hendpoint, fun halive => absurd halive (by simp)⟩
  | disconnect =>
    obtain rfl := Option.some.inj h
    exact ⟨hI.stored, hI.waiting, hI.passed⟩
  | complete =>
    obtain rfl := Option.some.inj h
    refine ⟨stored_nil, fun hexp => ?_, hI.passed⟩
    obtain ⟨hrequests, hendpoint, -⟩ := hI.waiting hexp
    exact ⟨hrequests, hendpoint, fun halive => absurd halive (by simp)⟩

/-- Behind the first line nothing changes the endpoint, whatever comes. -/
theorem endpoint_settled {remoteEndpoint : IPEndPoint} {s s' : State} {e : Event}
    (hI : Inv platform config peerAddress remoteEndpoint s) {l : List UInt8}
    (hfirst : firstLine s.stream = some l)
    (h : step platform config peerAddress s e = some s') :
    s'.client.remoteEndpoint = s.client.remoteEndpoint := by
  cases e with
  | read c =>
    obtain rfl := Option.some.inj h
    by_cases hskip : c.data = [] ∨ s.client.isAlive = false
    · rw [read_skip hskip]
    · obtain ⟨hne, hdead⟩ := not_or.mp hskip
      have halive : s.client.isAlive = true := by simpa using hdead
      cases hexp : s.client.expectingProxyProtocolHeader with
      | true =>
        have hlines := ((hI.waiting hexp).2.2 halive).1
        unfold firstLine at hfirst
        rw [hlines] at hfirst
        exact nomatch hfirst
      | false =>
        obtain ⟨queue, client', hread, -, -, hend, -⟩ :=
          @read_passed platform config peerAddress s hI.stored c halive hne hexp
        rw [hread]
        exact hend
  | dispose =>
    obtain rfl := step_dispose h
    rfl
  | disconnect =>
    obtain rfl := Option.some.inj h
    rfl
  | complete =>
    obtain rfl := Option.some.inj h
    rfl

theorem gated_of_inv {remoteEndpoint : IPEndPoint} {s : State}
    (hI : Inv platform config peerAddress remoteEndpoint s) :
    Gated platform config peerAddress remoteEndpoint s := by
  refine ⟨fun l hfirst hrejected => ?_, ?_, fun l hfirst e s' h => endpoint_settled hI hfirst h⟩
  · cases hexp : s.client.expectingProxyProtocolHeader with
    | true => exact (hI.waiting hexp).1
    | false =>
      obtain ⟨l', hfirst', hrequests, -⟩ := hI.passed hexp
      obtain rfl := Option.some.inj (hfirst.symm.trans hfirst')
      exact hrequests hrejected
  · cases hexp : s.client.expectingProxyProtocolHeader with
    | true => exact Or.inl (hI.waiting hexp).2.1
    | false =>
      obtain ⟨l, hfirst, -, hendpoint⟩ := hI.passed hexp
      exact hendpoint.imp id fun h => ⟨l, hfirst, h⟩

variable (platform config peerAddress)

/-- **The gate holds** in every run whose steps meet the condition. -/
theorem gate_holds {remoteEndpoint : IPEndPoint} {es : List Event} {s : State}
    (hG : Along (step platform config peerAddress) (Closes platform config peerAddress)
      (State.init remoteEndpoint) es)
    (hrun : run (step platform config peerAddress) (State.init remoteEndpoint) es = some s) :
    Gated platform config peerAddress remoteEndpoint s := by
  have hinit : Inv platform config peerAddress remoteEndpoint (State.init remoteEndpoint) := by
    refine ⟨stored_nil, fun _ => ⟨rfl, rfl, fun _ => ⟨rfl, rfl⟩⟩, fun h => absurd h ?_⟩
    simp [State.init, StratumClient.init]
  exact gated_of_inv (run_invariant inv_step hinit hG hrun)

/-! ## A header that does not come from a proxy -/

/-- A number in decimal digits. -/
def decimal (t : Text) : Option ℕ :=
  if t ≠ [] ∧ t.all fun c => 48 ≤ c.toNat ∧ c.toNat ≤ 57 then
    some (t.foldl (fun n c => 10 * n + (c.toNat - 48)) 0)
  else none

/-- A platform that knows the addresses of version four. -/
def samplePlatform : Platform where
  startsWith t start := t.take start.length == start
  parseAddress t :=
    match (t.splitOn 46).mapM decimal with
    | some ns =>
      if ns.length = 4 ∧ ns.all (· < 256) then return ns.map UInt8.ofNat else throw .format
    | none => throw .format
  parseInt t :=
    match decimal t with
    | some n => if n < 2 ^ 31 then return Int32.ofNat n else throw (.overflow "Int32")
    | none => throw .format

/-- A port whose header is optional and comes from the address `10.0.0.1`. -/
def sampleConfig : TcpProxyProtocolConfig where
  mandatory := false
  proxyAddresses := some [ascii "10.0.0.1"]

/-- The bytes of a line, with its newline. -/
def sampleLine (line : String) : List UInt8 :=
  (line.toList.map fun c => UInt8.ofNat c.toNat) ++ [0x0a]

/-- A header of the proxy protocol. -/
def sampleHeader : List UInt8 := sampleLine "PROXY TCP4 1.2.3.4 10.0.0.9 4000 3333"

/-- The connection is closed before another line comes. -/
def sampleClosed : List Event :=
  [.read ⟨sampleHeader, samplePool⟩, .dispose, .read ⟨sampleLine "request", samplePool⟩]

instance (s : State) (e : Event) :
    Decidable (Closes samplePlatform sampleConfig [9, 9, 9, 9] s e) :=
  match e with
  | .read _ => inferInstanceAs (Decidable (_ → _ → ite _ _ _))
  | .dispose => isTrue trivial
  | .disconnect => isTrue trivial
  | .complete => isTrue trivial

/-- A spoofed header, and a request after the connection is closed. -/
theorem gate_holds_closed :
    ∃ s, run (step samplePlatform sampleConfig [9, 9, 9, 9])
        (State.init ⟨[9, 9, 9, 9], 5000⟩) sampleClosed = some s ∧
      firstLine s.stream = some sampleHeader.dropLast ∧
      Gated samplePlatform sampleConfig [9, 9, 9, 9] ⟨[9, 9, 9, 9], 5000⟩ s := by
  obtain ⟨s, hs⟩ := Option.isSome_iff_exists.mp (show (run
    (step samplePlatform sampleConfig [9, 9, 9, 9])
    (State.init ⟨[9, 9, 9, 9], 5000⟩) sampleClosed).isSome = true by decide +kernel)
  have hfirst : (run (step samplePlatform sampleConfig [9, 9, 9, 9])
      (State.init ⟨[9, 9, 9, 9], 5000⟩) sampleClosed).map (fun s => firstLine s.stream) =
      some (some sampleHeader.dropLast) := by decide +kernel
  rw [hs] at hfirst
  exact ⟨s, hs, Option.some.inj hfirst, gate_holds _ _ _ (by decide +kernel) hs⟩

/-- A request in the chunk of a spoofed header is handed over. -/
theorem not_gated_same_chunk :
    ∃ es s, run (step samplePlatform sampleConfig [9, 9, 9, 9])
        (State.init ⟨[9, 9, 9, 9], 5000⟩) es = some s ∧
      ¬ Gated samplePlatform sampleConfig [9, 9, 9, 9] ⟨[9, 9, 9, 9], 5000⟩ s := by
  obtain ⟨s, hs⟩ := Option.isSome_iff_exists.mp (show (run
    (step samplePlatform sampleConfig [9, 9, 9, 9]) (State.init ⟨[9, 9, 9, 9], 5000⟩)
    [.read ⟨sampleHeader ++ sampleLine "request", samplePool⟩]).isSome = true by decide +kernel)
  refine ⟨_, s, hs, fun hgated => ?_⟩
  have hfacts : (run (step samplePlatform sampleConfig [9, 9, 9, 9])
      (State.init ⟨[9, 9, 9, 9], 5000⟩)
      [.read ⟨sampleHeader ++ sampleLine "request", samplePool⟩]).map
        (fun s => (firstLine s.stream, s.client.requests)) =
      some (some sampleHeader.dropLast, [(sampleLine "request").dropLast]) := by decide +kernel
  rw [hs] at hfacts
  obtain ⟨hfirst, hrequests⟩ := Prod.mk.inj (Option.some.inj hfacts)
  have hnone := hgated.requests _ hfirst (by decide +kernel)
  exact absurd (hrequests.symm.trans hnone) (by decide)

end AionPool.Stratum1
