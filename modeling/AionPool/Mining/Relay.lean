import AionPool.Lib.Binary64
import AionPool.Lib.Bytes
import AionPool.Lib.Run
import AionPool.Mining.ShareRecorder

/-!
# `Relay` and `RelayReceiver`

A pool with a relay publishes its shares, invalid shares and miner infos to a ZeroMQ socket. Another
pool subscribes to the sockets of its relays, and puts what it receives on its own message bus.

* `encode` and `processMessage`: one message. **`processMessage_encode`**: what is made of it.
* `step`: the queue of each relay, the network, the receiver's queue and its processors, in any
  order. The network loses what it likes.
* **`relayed_once`**: what a relay was given is in one place, or lost; and what is published is what
  was given to it, and is published once.

Models `Relay.cs:114-233`, `RelayReceiver.cs:69-390`, `RelayInfo.cs:20-34` and
`RelayContentType.cs:7-12`.
-/

namespace AionPool.Mining.Relay

open AionPool.Lib.Bytes AionPool.Lib.Run
open AionPool.Lib.Binary64 (Double)

/-! ## Data -/

/-- `InvalidShare`. -/
structure InvalidShare where
  poolId : String
  miner : Option String
  worker : Option String
  created : DateTime

/-- `MinerInfo`. -/
structure MinerInfo where
  poolId : String
  miner : Option String
  minimumPayment : ℚ

/-- A `RelayInterface`; a share with its `BlockRewardDouble`. -/
inductive Entity where
  | share (s : Share Double) (blockRewardDouble : Double)
  | invalidShare (s : InvalidShare)
  | minerInfo (m : MinerInfo)

inductive RelayContentType where
  | share
  | invalidShare
  | minerInfo
  deriving DecidableEq

/-- `ToString`. -/
def RelayContentType.toString : RelayContentType → String
  | share => "Share"
  | invalidShare => "InvalidShare"
  | minerInfo => "MinerInfo"

namespace Entity

def poolId : Entity → String
  | share s _ => s.poolId
  | invalidShare s => s.poolId
  | minerInfo m => m.poolId

def contentType : Entity → RelayContentType
  | share _ _ => .share
  | invalidShare _ => .invalidShare
  | minerInfo _ => .minerInfo

/-- The members that are `ProtoMember`s: `BlockReward` is not. -/
def members : Entity → Entity
  | share s blockRewardDouble => share { s with blockReward := 0 } blockRewardDouble
  | x => x

end Entity

/-- The frames of a message; the flags as the receiver reads them. -/
structure Message where
  topic : String
  flags : UInt32
  contentType : String
  data : List UInt8

/-- What is taken from .NET and the libraries: protobuf-net, Json.NET, the conversions of
`decimal` and `double`, `Enum.TryParse` for a `RelayContentType`, how a frame made of a number is
read, and `Trim`. -/
structure Platform where
  serialize : Entity → List UInt8
  deserializeProtoBuf : RelayContentType → List UInt8 → Except Exn (Option Entity)
  deserializeJson : RelayContentType → List UInt8 → Except Exn (Option Entity)
  toDouble : ℚ → Double
  toDecimal : Double → Except Exn ℚ
  tryParse : String → Option RelayContentType
  readUInt32 : UInt32 → UInt32
  trim : String → String

/-- What a relay knows of its configuration. -/
structure RelayConfig where
  clusterName : Option String
  sharedEncryptionKey : Option String

structure RelayEndpointConfig where
  url : String
  sharedEncryptionKey : Option String

/-! ## One message -/

/-- `RelayInfo.WireFormatMask`. -/
def wireFormatMask : UInt32 := 0xF

/-- `BitConverter.ToUInt32(BitConverter.GetBytes(flags).ToNewReverseArray())`. -/
def reverseBytes (flags : UInt32) : UInt32 :=
  UInt32.ofNat (unsigned (bytes 4 flags.toNat).reverse)

variable (platform : Platform)

/-- What `RelayShare` sets before it serializes. -/
def Entity.stamp (config : RelayConfig) : Entity → Entity
  | .share s _ =>
    .share { s with source := config.clusterName } (platform.toDouble s.blockReward)
  | x => x

/-- `RelayShare`, `RelayInvalidShare` and `RelayMinerInfo`: the message. -/
def encode (config : RelayConfig) (x : Entity) : Message where
  topic := x.poolId
  flags := platform.readUInt32 2
  contentType := x.contentType.toString
  data := platform.serialize (x.stamp platform config)

/-- `ProcessEntity`: what is sent to the message bus. -/
def processEntity (topic : String) (now : DateTime) : Entity → Except Exn Entity
  | .share s blockRewardDouble => do
    let blockReward ← platform.toDecimal blockRewardDouble
    return .share { s with blockReward := blockReward, poolId := topic, created := now }
      blockRewardDouble
  | .invalidShare s => return .invalidShare { s with created := now }
  | .minerInfo m => return .minerInfo m

/-- The entity in a message, null where it cannot be made. -/
def deserialize (flags : UInt32) (contentType : RelayContentType) (data : List UInt8) :
    Except Exn (Option Entity) :=
  if flags &&& wireFormatMask = 1 then platform.deserializeJson contentType data
  else if flags &&& wireFormatMask = 2 then platform.deserializeProtoBuf contentType data
  else return none

/-- `ProcessMessage`: what is sent to the message bus, if anything. -/
def processMessage (pools : List String) (now : DateTime) (msg : Message) :
    Except Exn (Option Entity) :=
  -- for no pool that is known locally, or empty
  if msg.topic = "" ∨ msg.topic ∉ pools ∨ msg.data = [] then return none
  else
    -- `TMP FIX`: the flags may come in the other byte order
    let flags := if msg.flags &&& wireFormatMask = 0 then reverseBytes msg.flags else msg.flags
    match platform.tryParse msg.contentType with
    | none => return none
    | some contentType => do
      match ← deserialize platform flags contentType msg.data with
      | none => return none
      | some obj => return some (← processEntity platform msg.topic now obj)

/-! ## Sockets -/

/-- `DistinctBy`: the first of those with one key. -/
def distinctBy {α κ : Type} [DecidableEq κ] (key : α → κ) : List α → List α
  | [] => []
  | x :: xs => x :: (distinctBy key xs).filter fun y => key y ≠ key x

/-- The relays that are subscribed to. -/
def sockets (relays : List RelayEndpointConfig) : List RelayEndpointConfig :=
  distinctBy (fun x => x.url ++ ":" ++ x.sharedEncryptionKey.getD "") relays

/-- The key that is set up: null and a blank one set up none. -/
def curveKey (key : Option String) : String := (key.map platform.trim).getD ""

/-- The sockets that receive from the `j`-th relay: it is at the other end, and the keys are the
same. -/
def subscribers (host : String → Option ℕ) (relays : List RelayEndpointConfig) (j : ℕ)
    (config : RelayConfig) : List RelayEndpointConfig :=
  (sockets relays).filter fun x =>
    host x.url = some j ∧
      curveKey platform x.sharedEncryptionKey = curveKey platform config.sharedEncryptionKey

/-! ## The system -/

/-- What became of a message that was processed, with the pools of that time. -/
structure Processed where
  number : ℕ
  pools : List String
  time : DateTime
  result : Except Exn (Option Entity)

/-- Entities by the number they were given to a relay with. -/
structure State where
  now : DateTime
  /-- What was given to the relays, and to which. -/
  relayed : List (ℕ × Entity)
  /-- The `relayQueue`s. -/
  queued : List ℕ
  network : List (ℕ × Message)
  /-- The `queue` of the receiver. -/
  received : List (ℕ × Message)
  /-- Messages a processor has taken. -/
  taken : List (ℕ × Message)
  /-- The pools that were attached, by their ids. -/
  pools : List String
  processed : List Processed
  lost : List ℕ

def State.init (now : DateTime) : State := ⟨now, [], [], [], [], [], [], [], []⟩

inductive Event where
  /-- `relayQueue.Add`. -/
  | relay (j : ℕ) (x : Entity)
  /-- The next entity of a relay is sent, or `SendMessage` throws. -/
  | send (j : ℕ) (ok : Bool)
  /-- The network loses a message. -/
  | drop (k : ℕ)
  /-- The receiver gets a message. -/
  | post (k : ℕ)
  /-- A processor takes the next message. -/
  | take
  | process (k : ℕ)
  | attachPool (id : String)
  | tick (ticks : ℕ)

variable (host : String → Option ℕ) (configs : List RelayConfig)
  (relays : List RelayEndpointConfig)

/-- The next entity of a relay. -/
def State.next (s : State) (j : ℕ) : Option (ℕ × Entity) :=
  s.queued.findSome? fun n =>
    match s.relayed[n]? with
    | some (i, x) => if i = j then some (n, x) else none
    | none => none

/-- `pubSocket.SendMessage`: a copy for each subscriber. -/
def State.send (s : State) (n : ℕ) (msg : Message) (copies : ℕ) : State :=
  { s with
    queued := s.queued.erase n
    network := s.network ++ List.replicate copies (n, msg)
    lost := if copies = 0 then s.lost ++ [n] else s.lost }

/-- The outcome for a message. -/
def State.process (s : State) (m : ℕ × Message) : Processed where
  number := m.1
  pools := s.pools
  time := s.now
  result := processMessage platform s.pools s.now m.2

def step (s : State) : Event → Option State
  | .relay j x =>
    if j < configs.length then
      some { s with relayed := s.relayed ++ [(j, x)], queued := s.queued ++ [s.relayed.length] }
    else none
  | .send j ok => do
    let config ← configs[j]?
    let (n, x) ← s.next j
    let copies := if ok then (subscribers platform host relays j config).length else 0
    some (s.send n (encode platform config x) copies)
  | .drop k => do
    let m ← s.network[k]?
    some { s with network := s.network.eraseIdx k, lost := s.lost ++ [m.1] }
  | .post k => do
    let m ← s.network[k]?
    some { s with network := s.network.eraseIdx k, received := s.received ++ [m] }
  | .take =>
    match s.received with
    | [] => none
    | m :: received => some { s with received := received, taken := s.taken ++ [m] }
  | .process k => do
    let m ← s.taken[k]?
    some { s with
      taken := s.taken.eraseIdx k
      processed := s.processed ++ [s.process platform m] }
  | .attachPool id => some { s with pools := id :: s.pools }
  | .tick ticks => some { s with now := s.now + ticks }

/-! ## What a message carries -/

/-- The libraries carry an entity. -/
structure Platform.Carries (x : Entity) : Prop where
  protoBuf : platform.deserializeProtoBuf x.contentType (platform.serialize x) =
    .ok (some x.members)
  nonempty : platform.serialize x ≠ []

/-- `Enum.TryParse` knows the names, and numbers are read in one of the two byte orders. -/
structure Platform.Lawful : Prop where
  tryParse : ∀ c : RelayContentType, platform.tryParse c.toString = some c
  readUInt32 : ∀ n, platform.readUInt32 n = n ∨ platform.readUInt32 n = reverseBytes n

/-- What the receiver makes of an entity: it is the same, but a share comes from the cluster of the
relay, its reward has been a `double`, and what has a time is new. -/
def republished (config : RelayConfig) (now : DateTime) : Entity → Except Exn Entity
  | .share s _ => do
    let blockReward ← platform.toDecimal (platform.toDouble s.blockReward)
    return .share
      { s with blockReward := blockReward, source := config.clusterName, created := now }
      (platform.toDouble s.blockReward)
  | .invalidShare s => return .invalidShare { s with created := now }
  | .minerInfo m => return .minerInfo m

section Message

variable {platform}

@[simp] theorem Entity.contentType_stamp (config : RelayConfig) (x : Entity) :
    (x.stamp platform config).contentType = x.contentType := by
  cases x <;> rfl

theorem processEntity_stamp (config : RelayConfig) (now : DateTime) (x : Entity) :
    processEntity platform x.poolId now (x.stamp platform config).members =
      republished platform config now x := by
  cases x <;> rfl

/-- Either byte order is understood. -/
theorem wireFormat_eq (hlawful : platform.Lawful) :
    (if platform.readUInt32 2 &&& wireFormatMask = 0 then reverseBytes (platform.readUInt32 2)
      else platform.readUInt32 2) = 2 := by
  rcases hlawful.readUInt32 2 with h | h
  · rw [h]
    rfl
  · rw [h]
    decide

/-- **A message** is made into what was relayed, for a pool that is attached. -/
theorem processMessage_encode (hlawful : platform.Lawful) {config : RelayConfig} {x : Entity}
    (hcarries : platform.Carries (x.stamp platform config)) (pools : List String)
    (now : DateTime) :
    processMessage platform pools now (encode platform config x) =
      if x.poolId ≠ "" ∧ x.poolId ∈ pools then
        (republished platform config now x).map some
      else .ok none := by
  have hformat : deserialize platform 2 x.contentType
      (platform.serialize (x.stamp platform config)) =
      .ok (some (x.stamp platform config).members) := by
    have := hcarries.protoBuf
    rwa [Entity.contentType_stamp] at this
  unfold processMessage encode
  dsimp only
  by_cases hpool : x.poolId ≠ "" ∧ x.poolId ∈ pools
  · rw [if_pos hpool, if_neg (by
      rintro (h | h | h)
      · exact hpool.1 h
      · exact h hpool.2
      · exact hcarries.nonempty h), wireFormat_eq hlawful, hlawful.tryParse]
    dsimp only
    rw [hformat, ok_bind]
    dsimp only
    rw [processEntity_stamp]
    cases republished platform config now x <;> rfl
  · rw [if_neg hpool, if_pos (by tauto)]
    rfl

end Message

/-! ## Every relay is subscribed to once -/

section Sockets

variable {α κ : Type} [DecidableEq κ] {key : α → κ}

theorem mem_of_mem_distinctBy {l : List α} : ∀ x ∈ distinctBy key l, x ∈ l := by
  induction l with
  | nil => exact fun x hx => hx
  | cons y l ih =>
    intro x hx
    rcases List.mem_cons.mp hx with rfl | hx
    · exact List.mem_cons_self
    · exact List.mem_cons_of_mem y (ih x (List.mem_of_mem_filter hx))

theorem pairwise_distinctBy (l : List α) :
    (distinctBy key l).Pairwise fun x y => key x ≠ key y := by
  induction l with
  | nil => exact .nil
  | cons y l ih =>
    refine List.pairwise_cons.mpr ⟨fun x hx => ?_, ih.filter _⟩
    exact fun h => of_decide_eq_true (List.mem_filter.mp hx).2 h.symm

omit [DecidableEq κ] in
/-- Elements that would have one key are one. -/
theorem length_le_one_of_pairwise {l : List α} (hne : l.Pairwise fun x y => key x ≠ key y)
    (heq : ∀ x ∈ l, ∀ y ∈ l, key x = key y) : l.length ≤ 1 := by
  cases hne with
  | nil => exact Nat.zero_le 1
  | @cons x l hx _ =>
    cases l with
    | nil => exact le_rfl
    | cons y l =>
      have hy : y ∈ x :: y :: l := List.mem_cons_of_mem x List.mem_cons_self
      exact absurd (heq x List.mem_cons_self y hy) (hx y List.mem_cons_self)

variable {platform} {host relays}

/-- **One socket** receives from a relay, when different urls are of different relays and the keys
are written without blanks around them. -/
theorem length_subscribers_le_one
    (hhost : ∀ x ∈ relays, ∀ y ∈ relays, ∀ j, host x.url = some j → host y.url = some j →
      x.url = y.url)
    (hkeys : ∀ x ∈ relays, curveKey platform x.sharedEncryptionKey =
      x.sharedEncryptionKey.getD "") (j : ℕ) (config : RelayConfig) :
    (subscribers platform host relays j config).length ≤ 1 := by
  refine length_le_one_of_pairwise ((pairwise_distinctBy relays).filter _) fun x hx y hy => ?_
  obtain ⟨hx, hxj⟩ := List.mem_filter.mp hx
  obtain ⟨hy, hyj⟩ := List.mem_filter.mp hy
  obtain ⟨hxhost, hxkey⟩ := of_decide_eq_true hxj
  obtain ⟨hyhost, hykey⟩ := of_decide_eq_true hyj
  have hx := mem_of_mem_distinctBy x hx
  have hy := mem_of_mem_distinctBy y hy
  rw [hhost x hx y hy j hxhost hyhost, ← hkeys x hx, ← hkeys y hy, hxkey, hykey]

end Sockets

/-! ## The invariant -/

/-- Where the entities are. -/
def State.account (s : State) : List ℕ :=
  s.queued ++ s.network.map Prod.fst ++ s.received.map Prod.fst ++ s.taken.map Prod.fst ++
    s.processed.map Processed.number ++ s.lost

/-- The messages on their way. -/
def State.messages (s : State) : List (ℕ × Message) := s.network ++ s.received ++ s.taken

/-- A message is that of its entity. -/
def Carried (s : State) (m : ℕ × Message) : Prop :=
  ∃ j x config, s.relayed[m.1]? = some (j, x) ∧ configs[j]? = some config ∧
    m.2 = encode platform config x

/-- What was processed is the entity as it is republished, if its pool was attached. -/
def Republished (s : State) (e : Processed) : Prop :=
  ∃ j x config, s.relayed[e.number]? = some (j, x) ∧ configs[j]? = some config ∧
    e.result =
      if x.poolId ≠ "" ∧ x.poolId ∈ e.pools then (republished platform config e.time x).map some
      else .ok none

/-- The libraries carry what was relayed. -/
def Sound (r : ℕ × Entity) : Prop :=
  ∀ config, configs[r.1]? = some config → platform.Carries (r.2.stamp platform config)

structure Traced (s : State) : Prop where
  sound : ∀ r ∈ s.relayed, Sound platform configs r
  account : s.account.Perm (List.range s.relayed.length)
  carried : ∀ m ∈ s.messages, Carried platform configs s m
  processed : ∀ e ∈ s.processed, Republished platform configs s e

section Runs

variable {platform} {host configs relays} {s s' : State}

theorem next_eq_some {j n : ℕ} {x : Entity} (h : s.next j = some (n, x)) :
    n ∈ s.queued ∧ s.relayed[n]? = some (j, x) := by
  obtain ⟨m, hm, h⟩ := List.exists_of_findSome?_eq_some h
  cases hr : s.relayed[m]? with
  | none =>
    rw [hr] at h
    exact absurd h (by simp)
  | some r =>
    rw [hr] at h
    obtain ⟨hj, h⟩ := Option.ite_none_right_eq_some.mp
      (show (if r.1 = j then some (m, r.2) else none) = some (n, x) from h)
    obtain ⟨rfl, rfl⟩ := Prod.mk.inj (Option.some.inj h)
    exact ⟨hm, hj ▸ hr⟩

theorem step_send {j : ℕ} {ok : Bool}
    (h : step platform host configs relays s (.send j ok) = some s') :
    ∃ config n x copies, configs[j]? = some config ∧ n ∈ s.queued ∧
      s.relayed[n]? = some (j, x) ∧
      copies ≤ (subscribers platform host relays j config).length ∧
      s' = s.send n (encode platform config x) copies := by
  obtain ⟨config, hconfig, h⟩ := Option.bind_eq_some_iff.mp h
  obtain ⟨⟨n, x⟩, hnext, h⟩ := Option.bind_eq_some_iff.mp h
  obtain ⟨hn, hr⟩ := next_eq_some hnext
  refine ⟨config, n, x, _, hconfig, hn, hr, ?_, (Option.some.inj h).symm⟩
  split
  · exact le_rfl
  · exact Nat.zero_le _

theorem step_take (h : step platform host configs relays s .take = some s') :
    ∃ m received, s.received = m :: received ∧
      s' = { s with received := received, taken := s.taken ++ [m] } := by
  cases hreceived : s.received with
  | nil =>
    have hnone : step platform host configs relays s .take = none := by
      unfold step
      dsimp only
      rw [hreceived]
    rw [hnone] at h
    exact absurd h (by simp)
  | cons m received =>
    have hsome : step platform host configs relays s .take =
        some { s with received := received, taken := s.taken ++ [m] } := by
      unfold step
      dsimp only
      rw [hreceived]
    exact ⟨m, received, rfl, Option.some.inj (h.symm.trans hsome)⟩

/-- A message that is taken from its place. -/
theorem perm_eraseIdx {α : Type} {l : List α} {k : ℕ} {m : α} (h : l[k]? = some m) (f : α → ℕ) :
    (l.map f).Perm (f m :: (l.eraseIdx k).map f) := by
  obtain ⟨hk, rfl⟩ := List.getElem?_eq_some_iff.mp h
  exact ((List.getElem_cons_eraseIdx_perm hk).map f).symm

/-- A message that is sent to one subscriber at most. -/
theorem account_send {n copies : ℕ} {msg : Message} (hn : n ∈ s.queued) (hle : copies ≤ 1) :
    (s.send n msg copies).account.Perm s.account := by
  refine List.perm_iff_count.mpr fun a => ?_
  have herase := (List.perm_cons_erase hn).count_eq a
  unfold State.account State.send
  obtain rfl | rfl : copies = 0 ∨ copies = 1 := by omega
  · simp only [List.replicate_zero, List.append_nil, if_true, List.count_append, List.count_cons,
      List.count_nil] at herase ⊢
    omega
  · simp only [List.replicate_one, List.map_append, List.map_cons, List.map_nil, one_ne_zero,
      if_false, List.count_append, List.count_cons, List.count_nil] at herase ⊢
    omega

/-- **Every step** keeps each entity in one place. -/
theorem account_step (honce : ∀ j config, (subscribers platform host relays j config).length ≤ 1)
    {e : Event} (haccount : s.account.Perm (List.range s.relayed.length))
    (h : step platform host configs relays s e = some s') :
    s'.account.Perm (List.range s'.relayed.length) := by
  cases e with
  | relay j x =>
    obtain ⟨-, h⟩ := Option.ite_none_right_eq_some.mp h
    obtain rfl := Option.some.inj h
    rw [List.length_append, List.length_singleton, List.range_succ]
    refine List.Perm.trans ?_ (haccount.append_right [s.relayed.length])
    refine List.perm_iff_count.mpr fun a => ?_
    unfold State.account
    simp only [List.count_append]
    omega
  | send j ok =>
    obtain ⟨config, n, x, copies, -, hn, -, hle, rfl⟩ := step_send h
    exact (account_send hn (hle.trans (honce j config))).trans haccount
  | take =>
    obtain ⟨m, received, hreceived, rfl⟩ := step_take h
    refine List.Perm.trans ?_ haccount
    refine List.perm_iff_count.mpr fun a => ?_
    unfold State.account
    rw [hreceived]
    simp only [List.map_append, List.map_cons, List.map_nil, List.count_append, List.count_cons,
      List.count_nil]
    omega
  | attachPool id =>
    obtain rfl := Option.some.inj h
    exact haccount
  | tick ticks =>
    obtain rfl := Option.some.inj h
    exact haccount
  -- a message goes from one list to another
  | drop k | post k | process k =>
    obtain ⟨m, hm, h⟩ := Option.bind_eq_some_iff.mp h
    obtain rfl := Option.some.inj h
    refine List.Perm.trans ?_ haccount
    refine List.perm_iff_count.mpr fun a => ?_
    have herase := (perm_eraseIdx hm Prod.fst).count_eq a
    unfold State.account
    simp only [List.map_append, List.map_cons, List.map_nil, List.count_append, List.count_cons,
      List.count_nil, State.process] at herase ⊢
    omega

/-- What an event gives to a relay. -/
def Event.given : Event → List (ℕ × Entity)
  | .relay j x => [(j, x)]
  | _ => []

variable (platform configs) in
/-- What a step can do. -/
structure Stepped (s : State) (e : Event) (s' : State) : Prop where
  relayed : s'.relayed = s.relayed ++ e.given
  /-- A message that is on its way was before, or is sent now. -/
  messages : ∀ m ∈ s'.messages, m ∈ s.messages ∨ Carried platform configs s m
  /-- What has been processed was before, or is made of a message that had been taken. -/
  processed : ∀ p ∈ s'.processed, p ∈ s.processed ∨ ∃ m ∈ s.taken, p = s.process platform m

theorem step_cases {e : Event} (h : step platform host configs relays s e = some s') :
    Stepped platform configs s e s' := by
  have hsame : s.relayed = s.relayed ++ [] := (List.append_nil _).symm
  cases e with
  | relay j x =>
    obtain ⟨-, h⟩ := Option.ite_none_right_eq_some.mp h
    obtain rfl := Option.some.inj h
    exact ⟨rfl, fun _ => .inl, fun _ => .inl⟩
  | send j ok =>
    obtain ⟨config, n, x, copies, hconfig, -, hr, -, rfl⟩ := step_send h
    refine ⟨hsame, fun m hm => ?_, fun _ => .inl⟩
    simp only [State.messages, State.send, List.mem_append] at hm ⊢
    rcases hm with ((hm | hm) | hm) | hm
    · exact .inl (.inl (.inl hm))
    · obtain rfl := List.eq_of_mem_replicate hm
      exact .inr ⟨j, x, config, hr, hconfig, rfl⟩
    · exact .inl (.inl (.inr hm))
    · exact .inl (.inr hm)
  | drop k =>
    obtain ⟨m, -, h⟩ := Option.bind_eq_some_iff.mp h
    obtain rfl := Option.some.inj h
    refine ⟨hsame, fun m hm => ?_, fun _ => .inl⟩
    simp only [State.messages, List.mem_append] at hm ⊢
    exact .inl (hm.imp_left (Or.imp_left List.mem_of_mem_eraseIdx))
  | post k =>
    obtain ⟨m, hm, h⟩ := Option.bind_eq_some_iff.mp h
    obtain rfl := Option.some.inj h
    refine ⟨hsame, fun m' hm' => ?_, fun _ => .inl⟩
    simp only [State.messages, List.mem_append, List.mem_singleton] at hm' ⊢
    rcases hm' with (hm' | hm' | rfl) | hm'
    · exact .inl (.inl (.inl (List.mem_of_mem_eraseIdx hm')))
    · exact .inl (.inl (.inr hm'))
    · exact .inl (.inl (.inl (List.mem_of_getElem? hm)))
    · exact .inl (.inr hm')
  | take =>
    obtain ⟨m, received, hreceived, rfl⟩ := step_take h
    refine ⟨hsame, fun m' hm' => ?_, fun _ => .inl⟩
    simp only [State.messages, hreceived, List.mem_append, List.mem_cons, List.not_mem_nil,
      or_false] at hm' ⊢
    tauto
  | process k =>
    obtain ⟨m, hm, h⟩ := Option.bind_eq_some_iff.mp h
    obtain rfl := Option.some.inj h
    refine ⟨hsame, fun m' hm' => ?_, fun p hp => ?_⟩
    · simp only [State.messages, List.mem_append] at hm' ⊢
      exact .inl (hm'.imp_right List.mem_of_mem_eraseIdx)
    · rcases List.mem_append.mp hp with hp | hp
      · exact .inl hp
      · exact .inr ⟨m, List.mem_of_getElem? hm, List.mem_singleton.mp hp⟩
  | attachPool id =>
    obtain rfl := Option.some.inj h
    exact ⟨hsame, fun _ => .inl, fun _ => .inl⟩
  | tick ticks =>
    obtain rfl := Option.some.inj h
    exact ⟨hsame, fun _ => .inl, fun _ => .inl⟩

variable {e : Event}

theorem Stepped.getElem?_relayed (h : Stepped platform configs s e s') {n : ℕ} {r : ℕ × Entity}
    (hr : s.relayed[n]? = some r) : s'.relayed[n]? = some r := by
  rw [h.relayed, List.getElem?_append_left (List.getElem?_eq_some_iff.mp hr).1, hr]

theorem Carried.step {m : ℕ × Message} (h : Carried platform configs s m)
    (hstep : Stepped platform configs s e s') : Carried platform configs s' m := by
  obtain ⟨j, x, config, hr, hconfig, hm⟩ := h
  exact ⟨j, x, config, hstep.getElem?_relayed hr, hconfig, hm⟩

theorem Republished.step {p : Processed} (h : Republished platform configs s p)
    (hstep : Stepped platform configs s e s') : Republished platform configs s' p := by
  obtain ⟨j, x, config, hr, hconfig, hresult⟩ := h
  exact ⟨j, x, config, hstep.getElem?_relayed hr, hconfig, hresult⟩

/-- A message that is processed. -/
theorem Carried.process (hlawful : platform.Lawful)
    (hsound : ∀ r ∈ s.relayed, Sound platform configs r) {m : ℕ × Message}
    (h : Carried platform configs s m) :
    Republished platform configs s (s.process platform m) := by
  obtain ⟨j, x, config, hr, hconfig, hm⟩ := h
  have hresult := processMessage_encode hlawful
    (hsound _ (List.mem_of_getElem? hr) config hconfig) s.pools s.now
  rw [← hm] at hresult
  exact ⟨j, x, config, hr, hconfig, hresult⟩

theorem traced_init (now : DateTime) : Traced platform configs (State.init now) where
  sound _ hr := absurd hr List.not_mem_nil
  account := List.Perm.refl []
  carried _ hm := absurd hm List.not_mem_nil
  processed _ he := absurd he List.not_mem_nil

theorem traced_step (hlawful : platform.Lawful)
    (honce : ∀ j config, (subscribers platform host relays j config).length ≤ 1)
    (h : Traced platform configs s) (hgiven : ∀ r ∈ e.given, Sound platform configs r)
    (hstep : step platform host configs relays s e = some s') : Traced platform configs s' := by
  have hcases := step_cases hstep
  refine ⟨fun r hr => ?_, account_step honce h.account hstep, fun m hm => ?_, fun p hp => ?_⟩
  · rw [hcases.relayed] at hr
    rcases List.mem_append.mp hr with hr | hr
    · exact h.sound r hr
    · exact hgiven r hr
  · rcases hcases.messages m hm with hm | hm
    · exact (h.carried m hm).step hcases
    · exact hm.step hcases
  · rcases hcases.processed p hp with hp | ⟨m, hm, rfl⟩
    · exact (h.processed p hp).step hcases
    · exact ((h.carried m (List.mem_append_right _ hm)).process hlawful h.sound).step hcases

/-- **What a relay was given** waits, is on its way, has been processed or is lost, and is so once;
and what was processed is republished as it was given, if its pool was attached. -/
theorem relayed_once (hlawful : platform.Lawful)
    (hhost : ∀ x ∈ relays, ∀ y ∈ relays, ∀ j, host x.url = some j → host y.url = some j →
      x.url = y.url)
    (hkeys : ∀ x ∈ relays, curveKey platform x.sharedEncryptionKey =
      x.sharedEncryptionKey.getD "") {now : DateTime} {es : List Event}
    (hsound : ∀ e ∈ es, ∀ r ∈ e.given, Sound platform configs r)
    (hrun : run (step platform host configs relays) (.init now) es = some s) :
    s.account.Perm (List.range s.relayed.length) ∧
      ∀ e ∈ s.processed, Republished platform configs s e := by
  have honce := @length_subscribers_le_one platform host relays hhost hkeys
  have hstep : ∀ s e s', Traced platform configs s → (∀ r ∈ e.given, Sound platform configs r) →
      step platform host configs relays s e = some s' → Traced platform configs s' :=
    fun _ _ _ h hgiven hstep => traced_step hlawful honce h hgiven hstep
  have hsound : Along (step platform host configs relays)
      (fun _ e => ∀ r ∈ e.given, Sound platform configs r) (.init now) es :=
    along_of_forall_mem hsound
  have h := run_invariant hstep (traced_init now) hsound hrun
  exact ⟨h.account, h.processed⟩

end Runs

/-- A share of the pool `aion`. -/
def relayedShare : Share Double where
  poolId := "aion"
  miner := "0xa0"
  worker := none
  ipAddress := none
  userAgent := none
  source := none
  difficulty := .fin 2
  blockHeight := 7
  blockReward := 0
  blockHash := none
  isBlockCandidate := false
  transactionConfirmationData := ""
  networkDifficulty := .fin 4
  created := 0

/-- The members of the pool and of the miner `0xa0` or `0xb0`. -/
def poolAndMiner (letter : UInt8) : List UInt8 :=
  [0x0A, 4, 0x61, 0x69, 0x6F, 0x6E, 0x12, 4, 0x30, 0x78, letter, 0x30]

/-- Libraries for that share and for miner infos of the pool: what protobuf-net writes for them, and
reads. -/
def minerInfoPlatform : Platform where
  serialize
    | .share _ _ => poolAndMiner 0x61 ++
        [0x41, 0, 0, 0, 0, 0, 0, 0, 0x40, 0x48, 7, 0x6A, 0,
          0x71, 0, 0, 0, 0, 0, 0, 0x10, 0x40, 0x7A, 4, 8, 1, 0x10, 0xF]
    | .invalidShare _ => poolAndMiner 0x61
    | .minerInfo m => poolAndMiner (if m.miner = some "0xa0" then 0x61 else 0x62)
  deserializeProtoBuf contentType data := .ok <| match contentType with
    | .share => some (.share relayedShare (.ofRat 0))
    | .invalidShare => none
    | .minerInfo => some (.minerInfo
        ⟨"aion", some (if data = poolAndMiner 0x61 then "0xa0" else "0xb0"), 0⟩)
  deserializeJson _ _ := .error .jsonReader
  toDouble := .ofRat
  toDecimal _ := .ok 0
  tryParse s := [RelayContentType.share, .invalidShare, .minerInfo].find? fun c => c.toString = s
  readUInt32 n := n
  trim s := s

/-- A share and two miner infos are sent; the first info overtakes the share, and the second is
lost. -/
def overtakingEvents : List Event :=
  [.relay 0 (.share relayedShare (.fin 0)), .relay 0 (.minerInfo ⟨"aion", some "0xa0", 0⟩),
    .attachPool "aion", .send 0 true, .relay 0 (.minerInfo ⟨"aion", some "0xb0", 0⟩), .send 0 true,
    .send 0 true, .drop 2, .post 1, .take, .post 0, .take, .process 0, .process 0]

theorem relayed_once_minerInfo :
    ∃ s : State,
      run (step minerInfoPlatform (fun _ => some 0) [⟨none, none⟩] [⟨"tcp://relay:6000", none⟩])
        (.init 0) overtakingEvents = some s ∧
      s.processed.map Processed.number = [1, 0] ∧ s.lost = [2] ∧
      s.account.Perm (List.range s.relayed.length) ∧
      ∀ e ∈ s.processed, Republished minerInfoPlatform [⟨none, none⟩] s e := by
  obtain ⟨s, hs, hnumbers, hlost⟩ : ∃ s : State,
      run (step minerInfoPlatform (fun _ => some 0) [⟨none, none⟩] [⟨"tcp://relay:6000", none⟩])
        (.init 0) overtakingEvents = some s ∧
      s.processed.map Processed.number = [1, 0] ∧ s.lost = [2] :=
    ⟨_, rfl, rfl, rfl⟩
  have hlawful : minerInfoPlatform.Lawful :=
    ⟨fun c => by cases c <;> decide, fun n => .inl rfl⟩
  refine ⟨s, hs, hnumbers, hlost, relayed_once hlawful ?_ ?_ ?_ hs⟩
  · intro x hx y hy _ _ _
    rw [List.mem_singleton.mp hx, List.mem_singleton.mp hy]
  · intro x hx
    rw [List.mem_singleton.mp hx]
    rfl
  · have hcarries : ∀ r ∈ overtakingEvents.flatMap Event.given,
        Sound minerInfoPlatform [⟨none, none⟩] r := by
      intro r hr config hconfig
      have hconfigs := List.mem_of_getElem? hconfig
      rw [List.mem_singleton.mp hconfigs]
      simp only [overtakingEvents, Event.given, List.flatMap_cons, List.flatMap_nil,
        List.append_nil, List.nil_append, List.cons_append, List.mem_cons,
        List.not_mem_nil, or_false] at hr
      rcases hr with rfl | rfl | rfl
      all_goals exact ⟨rfl, List.cons_ne_nil _ _⟩
    exact fun e he r hr => hcarries r (List.mem_flatMap.mpr ⟨e, he, hr⟩)

end AionPool.Mining.Relay
