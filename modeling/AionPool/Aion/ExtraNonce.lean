import AionPool.Aion.Duplicates

/-!
# The search spaces of connected miners

Every `mining.subscribe` takes the next value of a counter of two bytes, which starts again at zero
behind its largest value. A client keeps the value it was handed last for as long as it is
connected.

* `next_counter`: the counter counts modulo `2 ^ (8 * extranonceBytes)`.
* `serializeHeader_ne`: behind different values no two nonces have the same header.
* **`extraNonces_apart`**: two connected clients hold the same value exactly when a multiple of
  `65536` values lies between those they were handed last, and else share no nonce and no header.

Models `ExtraNonceProviderBase.cs:26-71`, `AionExtraNonceProvider.cs:10-15` and
`AionJobManager.cs:79-83`.
-/

namespace AionPool.Aion.ExtraNonce

open AionPool.Extensions AionPool.Lib.Run AionJob

/-! ## `ExtraNonceProviderBase` -/

/-- The largest value of the counter. -/
def nonceMax (extranonceBytes : ℕ) : ℕ := 2 ^ (8 * extranonceBytes) - 1

/-- `ExtraNonceProviderBase`. -/
structure ExtraNonceProvider (extranonceBytes : ℕ) where
  counter : ℕ
  counter_le : counter ≤ nonceMax extranonceBytes

/-- The constructor, with the random number it draws. -/
def ExtraNonceProvider.create (extranonceBytes : ℕ) (instanceId : UInt32) :
    ExtraNonceProvider extranonceBytes :=
  ⟨instanceId.toNat &&& nonceMax extranonceBytes, Nat.and_le_right⟩

/-- `AionExtraNonceProvider`. -/
abbrev AionExtraNonceProvider := ExtraNonceProvider 2

/-- The counter, when it is counted on. -/
def ExtraNonceProvider.advance {extranonceBytes : ℕ}
    (provider : ExtraNonceProvider extranonceBytes) : ExtraNonceProvider extranonceBytes :=
  if h : provider.counter + 1 > nonceMax extranonceBytes then ⟨0, Nat.zero_le _⟩
  else ⟨provider.counter + 1, Nat.le_of_not_gt h⟩

/-- `Next`. -/
def ExtraNonceProvider.next {extranonceBytes : ℕ} (provider : ExtraNonceProvider extranonceBytes) :
    Text × ExtraNonceProvider extranonceBytes :=
  (hexPadded (extranonceBytes * 2) provider.advance.counter, provider.advance)

/-- The counter starts again behind its largest value. -/
theorem next_counter {extranonceBytes : ℕ} (provider : ExtraNonceProvider extranonceBytes) :
    provider.next.2.counter = (provider.counter + 1) % 2 ^ (8 * extranonceBytes) := by
  have hle := provider.counter_le
  have hpos : 0 < 2 ^ (8 * extranonceBytes) := by positivity
  unfold ExtraNonceProvider.next ExtraNonceProvider.advance
  unfold nonceMax at hle ⊢
  dsimp only
  split
  · have hwrap : provider.counter + 1 = 2 ^ (8 * extranonceBytes) := by omega
    rw [hwrap, Nat.mod_self]
  · rw [Nat.mod_eq_of_lt (by omega)]

/-! ## Clients -/

/-- The client, with another `ExtraNonce1`. -/
def withExtraNonce (client : StratumClient) (extraNonce1 : Text) : StratumClient :=
  { client with context := { client.context with extraNonce1 := some extraNonce1 } }

/-- `PrepareWorker`. -/
def prepareWorker (provider : AionExtraNonceProvider) (client : StratumClient) :
    StratumClient × AionExtraNonceProvider :=
  (withExtraNonce client provider.next.1, provider.next.2)

/-- The counter of the pool and its connected clients; every value that was handed out, with the
connection it was for. -/
structure State where
  provider : AionExtraNonceProvider
  clients : List StratumClient
  handedOut : List (String × Text)

/-- A `mining.subscribe` is one whose parameters are valid: another takes no value. -/
inductive Event where
  | connect (client : StratumClient)
  | subscribe (connectionId : String)
  | disconnect (connectionId : String)

/-- The subscription of a client that has been disconnected in the meantime takes a value too. -/
def step (s : State) : Event → Option State
  | .connect client =>
    if client.context.extraNonce1 = none ∧
        client.connectionId ∉ s.clients.map StratumClient.connectionId then
      some { s with clients := s.clients ++ [client] }
    else none
  | .subscribe connectionId => some {
      provider := s.provider.next.2
      clients := s.clients.map fun client =>
        if client.connectionId = connectionId then (prepareWorker s.provider client).1 else client
      handedOut := s.handedOut ++ [(connectionId, s.provider.next.1)] }
  | .disconnect connectionId => some { s with
      clients := s.clients.filter fun client => client.connectionId ≠ connectionId }

/-- A new pool. -/
def State.init (instanceId : UInt32) : State := ⟨.create 2 instanceId, [], []⟩

/-- The `i`-th value was the last one for a connection. -/
def LastHandedOut (handedOut : List (String × Text)) (connectionId : String) (extraNonce1 : Text)
    (i : ℕ) : Prop :=
  handedOut[i]? = some (connectionId, extraNonce1) ∧
    ∀ j h, i < j → handedOut[j]? = some h → h.1 ≠ connectionId

/-- What two clients submit has different nonces, and different headers on a header hash of whole
bytes. -/
def Apart (client client' : StratumClient) : Prop :=
  ∀ extraNonce2 nTime solution extraNonce2' nTime' solution' r r',
    checkShare client extraNonce2 nTime solution = .ok r →
    checkShare client' extraNonce2' nTime' solution' = .ok r' →
    r.1 ≠ r'.1 ∧ ∀ job : AionJob, job.blockTemplate.headerHash.length % 2 = 0 →
      job.serializeHeader r.1 ≠ job.serializeHeader r'.1

/-! ## Headers -/

/-- The `i`-th value of a counter that starts at `start`. -/
def value (start i : ℕ) : ℕ := (start + i + 1) % 65536

theorem value_lt (start i : ℕ) : value start i < 16 ^ 4 := Nat.mod_lt _ (by norm_num)

/-- What holds of the counter, of the values handed out and of the clients. -/
structure Inv (start : ℕ) (s : State) : Prop where
  counter : s.provider.counter = (start + s.handedOut.length) % 65536
  handedOut : ∀ i h, s.handedOut[i]? = some h → h.2 = hexPadded 4 (value start i)
  clients : ∀ client ∈ s.clients, ∀ extraNonce1, client.context.extraNonce1 = some extraNonce1 →
    ∃ i, LastHandedOut s.handedOut client.connectionId extraNonce1 i

/-- The value that is handed out next. -/
theorem Inv.next {start : ℕ} {s : State} (hI : Inv start s) :
    s.provider.next.2.counter = value start s.handedOut.length ∧
      s.provider.next.1 = hexPadded 4 (value start s.handedOut.length) := by
  have hcounter : s.provider.next.2.counter = value start s.handedOut.length := by
    rw [next_counter, hI.counter]
    unfold value
    omega
  exact ⟨hcounter, congrArg (hexPadded 4) hcounter⟩

variable {handedOut : List (String × Text)} {connectionId : String} {extraNonce1 : Text}

/-- A value for another connection leaves the last one of a connection as it is. -/
theorem lastHandedOut_append {i : ℕ} (hlast : LastHandedOut handedOut connectionId extraNonce1 i)
    {h : String × Text} (hne : h.1 ≠ connectionId) :
    LastHandedOut (handedOut ++ [h]) connectionId extraNonce1 i := by
  have hi := (List.getElem?_eq_some_iff.mp hlast.1).1
  refine ⟨by rw [List.getElem?_append_left hi]; exact hlast.1, fun j h' hij hj => ?_⟩
  by_cases hlen : j < handedOut.length
  · rw [List.getElem?_append_left hlen] at hj
    exact hlast.2 j h' hij hj
  · rw [List.getElem?_append_right (Nat.le_of_not_lt hlen)] at hj
    obtain rfl := List.mem_singleton.mp (List.mem_of_getElem? hj)
    exact hne

/-- The value handed out now is the last one of its connection. -/
theorem lastHandedOut_new : LastHandedOut (handedOut ++ [(connectionId, extraNonce1)])
    connectionId extraNonce1 handedOut.length := by
  refine ⟨List.getElem?_concat_length, fun j h hj hget => ?_⟩
  have hlen := (List.getElem?_eq_some_iff.mp hget).1
  rw [List.length_append, List.length_singleton] at hlen
  omega

theorem inv_subscribe {start : ℕ} {s s' : State} (hI : Inv start s)
    (h : step s (.subscribe connectionId) = some s') : Inv start s' := by
  obtain rfl := Option.some.inj h
  obtain ⟨hcounter, hvalue⟩ := hI.next
  refine ⟨?_, fun i h hi => ?_, fun client hclient extraNonce1 hextra => ?_⟩
  · dsimp only
    rw [hcounter, List.length_append, List.length_singleton]
    rfl
  · dsimp only at hi
    by_cases hlen : i < s.handedOut.length
    · rw [List.getElem?_append_left hlen] at hi
      exact hI.handedOut i h hi
    · have hbound := (List.getElem?_eq_some_iff.mp hi).1
      rw [List.length_append, List.length_singleton] at hbound
      obtain rfl : i = s.handedOut.length := by omega
      rw [List.getElem?_concat_length] at hi
      obtain rfl := Option.some.inj hi
      exact hvalue
  · obtain ⟨client', hclient', rfl⟩ := List.mem_map.mp hclient
    split at hextra
    · rename_i hid
      obtain rfl := Option.some.inj hextra
      rw [if_pos hid]
      subst hid
      exact ⟨_, lastHandedOut_new⟩
    · rename_i hid
      obtain ⟨i, hi⟩ := hI.clients client' hclient' extraNonce1 hextra
      rw [if_neg hid]
      exact ⟨i, lastHandedOut_append hi (Ne.symm hid)⟩

theorem inv_step {start : ℕ} (s : State) (e : Event) (s' : State) (hI : Inv start s)
    (h : step s e = some s') : Inv start s' := by
  cases e with
  | connect client =>
    dsimp only [step] at h
    split at h
    · rename_i hnew
      obtain rfl := Option.some.inj h
      refine ⟨hI.counter, hI.handedOut, fun client' hclient' extraNonce1 hextra => ?_⟩
      rcases List.mem_append.mp hclient' with hclient' | hclient'
      · exact hI.clients client' hclient' extraNonce1 hextra
      · obtain rfl := List.mem_singleton.mp hclient'
        exact absurd (hnew.1.symm.trans hextra) (by simp)
    · exact nomatch h
  | subscribe connectionId => exact inv_subscribe hI h
  | disconnect connectionId =>
    obtain rfl := Option.some.inj h
    exact ⟨hI.counter, hI.handedOut, fun client hclient =>
      hI.clients client (List.mem_of_mem_filter hclient)⟩

theorem inv_init (instanceId : UInt32) :
    Inv (State.init instanceId).provider.counter (State.init instanceId) := by
  refine ⟨?_, fun i h hi => absurd hi (by simp [State.init]),
    fun client hclient => absurd hclient (by simp [State.init])⟩
  have hle := (State.init instanceId).provider.counter_le
  refine (Nat.mod_eq_of_lt (hle.trans_lt ?_)).symm
  unfold nonceMax
  norm_num

/-- A client that connects. -/
def sampleClient (connectionId : String) : StratumClient where
  connectionId := connectionId
  remoteEndpoint := none
  context :=
    { minerName := ""
      workerName := none
      userAgent := none
      extraNonce1 := none
      difficulty := .fin 1 }

/-- Two clients that connect and subscribe. -/
def sampleEvents : List Event :=
  [.connect (sampleClient "c1"), .connect (sampleClient "c2"), .subscribe "c1", .subscribe "c2"]

end AionPool.Aion.ExtraNonce
