import AionPool.Aion.ExtraNonce
import AionPool.Aion.UpdateJob

/-!
# `AionPool`: the requests of a client

What `OnReceive` makes of a JSON-RPC request, and what a broadcast sends. A handler is a program
that changes the session of its client and may throw: what it has changed by then stays changed,
and the exception is caught by `OnRequestAsync` when it is a `StratumException`, and by
`OnReceive` else.

* `onReceive`: the three methods, each with what it checks, changes, replies and sends.
* `onNewJobAsync`: a broadcast, to one client.

Models `AionPool.cs:72-316`, `:381-398` and `:413-473`, `PoolBase.cs:88-117`, `:201-240` and
`:332-361`, `WorkerContextBase.cs:64-100` and `StratumClient.cs:127-200`. Out of scope: the bytes on
the wire.
-/

namespace AionPool.Aion.Pool

open AionPool.Extensions AionPool.Lib.Effects
open AionPool.Aion.ExtraNonce (AionExtraNonceProvider)
open AionPool.Aion.UpdateJob (JobParams)
open AionPool.Lib.Binary64 (Double)

/-! ## Configuration -/

/-- `PoolShareBasedBanningConfig`. -/
structure PoolShareBasedBanningConfig where
  enabled : Bool
  checkThreshold : Int32
  invalidPercent : Double
  time : Int32

/-- `ClusterBanningConfig`. -/
structure ClusterBanningConfig where
  banOnJunkReceive : Option Bool
  banOnInvalidShares : Option Bool

/-- What the handlers read of `PoolConfig` and `ClusterConfig`. -/
structure Settings where
  poolId : String
  banning : Option PoolShareBasedBanningConfig
  clusterBanning : Option ClusterBanningConfig
  clientConnectionTimeout : Int32

/-- `VarDiffConfig`; its other fields are read by the `VarDiffManager` only. -/
structure VarDiffConfig where
  minDiff : Double
  deriving DecidableEq

/-! ## Sessions -/

/-- `AionWorkerContext`. -/
structure WorkerContext where
  validShares : Int32
  invalidShares : Int32
  /-- The `VarDiffContext`, by its configuration. -/
  varDiff : Option VarDiffConfig
  lastActivity : DateTime
  isAuthorized : Bool
  isSubscribed : Bool
  difficulty : Double
  previousDifficulty : Option Double
  userAgent : Option Text
  pendingDifficulty : Option Double
  minerName : Option Text
  workerName : Option Text
  isInitialWorkSent : Bool
  extraNonce1 : Option Text
  minimumPayment : ℚ
  deriving DecidableEq

/-- `Init`, of a context that has just been created. -/
def WorkerContext.init (difficulty : Double) (varDiff : Option VarDiffConfig) (now : DateTime) :
    WorkerContext where
  validShares := 0
  invalidShares := 0
  varDiff := varDiff
  lastActivity := now
  isAuthorized := false
  isSubscribed := false
  difficulty := difficulty
  previousDifficulty := none
  userAgent := none
  pendingDifficulty := none
  minerName := none
  workerName := none
  isInitialWorkSent := false
  extraNonce1 := none
  minimumPayment := 0

/-- The `result` of a response; that of a subscription names the stratum version too. -/
inductive ResponseResult where
  | subscription (connectionId : String) (extraNonce1 : Text)
  | bool (value : Bool)
  deriving DecidableEq

/-- What is sent to a client; ids are JSON values. -/
inductive Message (Id : Type) where
  | response (id : Id) (result : ResponseResult)
  | error (id : Option Id) (code : StratumError) (message : String) (result : Option Bool)
  | miningNotify (jobParams : Option JobParams)
  | setTarget (target : Text)
  | setDifficulty (difficulty : Double)
  deriving DecidableEq

/-- What is published on the message bus. -/
inductive BusMessage where
  | minerInfo (poolId : String) (miner : Option Text) (minimumPayment : ℚ)
  | clientShare (share : Mining.Share Double)
  | invalidShare (poolId : String) (miner worker : Option Text) (created : DateTime)

/-- A client, and what its pool shares with it. -/
structure Session (Id : Type) where
  connectionId : String
  remoteEndpoint : Option String
  /-- The address of the client is one of the host itself. -/
  isLoopback : Bool
  /-- The connection has not been closed. -/
  isAlive : Bool
  /-- The client is one of the pool's `clients`. -/
  registered : Bool
  context : WorkerContext
  sent : List (Message Id)
  /-- The address of the client is in the cache of banned addresses. -/
  banned : Bool
  manager : AionJobManager
  extraNonceProvider : AionExtraNonceProvider
  currentJobParams : Option JobParams
  bus : List BusMessage

variable {Id : Type}

/-- The session, with its context changed. -/
def Session.mapContext (s : Session Id) (f : WorkerContext → WorkerContext) : Session Id :=
  { s with context := f s.context }

@[simp] theorem Session.mapContext_context (s : Session Id) (f : WorkerContext → WorkerContext) :
    (s.mapContext f).context = f s.context := rfl

/-- `SetDifficulty`. -/
def WorkerContext.setDifficulty (c : WorkerContext) (difficulty : Double) : WorkerContext :=
  { c with previousDifficulty := some c.difficulty, difficulty := difficulty }

/-- `ApplyPendingDifficulty`, the context only. -/
def WorkerContext.applyPendingDifficulty (c : WorkerContext) : WorkerContext :=
  match c.pendingDifficulty with
  | none => c
  | some difficulty => { c.setDifficulty difficulty with pendingDifficulty := none }

theorem applyPendingDifficulty_none {c : WorkerContext} (h : c.pendingDifficulty = none) :
    c.applyPendingDifficulty = c := by
  unfold WorkerContext.applyPendingDifficulty
  rw [h]

theorem applyPendingDifficulty_keeps (c : WorkerContext) :
    c.applyPendingDifficulty.isAuthorized = c.isAuthorized ∧
      c.applyPendingDifficulty.isInitialWorkSent = c.isInitialWorkSent ∧
      c.applyPendingDifficulty.isSubscribed = c.isSubscribed := by
  unfold WorkerContext.applyPendingDifficulty
  split
  · exact ⟨rfl, rfl, rfl⟩
  · exact ⟨rfl, rfl, rfl⟩

/-! ## Requests -/

/-- The `params` of a request: an array whose elements can be read as strings, nothing at all, or
what cannot be read as `string[]`, for one of three reasons. -/
inductive Params where
  | strings (values : List (Option Text))
  | null
  | scalar
  | object
  | nested

/-- `ParamsAs<string[]>`. -/
def paramsAs : Params → Except Exn (Option (List (Option Text)))
  | .strings values => return some values
  | .null => return none
  | .scalar => throw .invalidCast
  | .object => throw .jsonSerialization
  | .nested => throw .jsonReader

/-- `JsonRpcRequest`, with the time it was received. -/
structure Request (Id : Type) where
  method : Option Text
  params : Params
  id : Option Id
  timestamp : DateTime

/-- What the handlers take from .NET: the classes of characters, the numbers `Decimal.Parse` and
`double.TryParse` read, the texts of records, and whether a message fits the buffer it is written
to. -/
structure Platform (Id : Type) where
  isWhiteSpace : UInt16 → Bool
  isDigit : UInt16 → Bool
  parseDecimal : Text → Option ℚ
  parseDouble : Text → Option Double
  string : Text → String
  fits : Message Id → Bool

/-- What the daemons, the clock and the `VarDiffManager` answer while a request is processed. -/
structure World extends Environment where
  validateAddress : Text → Bool
  varDiffUpdate : Option Double

/-- A program that changes the session. -/
abbrev Handler (Id α : Type) := EStateM Exn (Session Id) α

/-- `catch (StratumException ex)`. -/
def catchStratum {α : Type} (x : Handler Id α)
    (handle : StratumError → String → Handler Id α) : Handler Id α :=
  tryCatch x fun e =>
    match e with
    | .stratum code message => handle code message
    | e => throw e

/-! ## Sending -/

variable (platform : Platform Id) (settings : Settings) (world : World)

/-- `Send`: the message is queued, when it fits. -/
def send (message : Message Id) : Handler Id Unit := do
  let s ← get
  if s.isAlive then
    if platform.fits message then set { s with sent := s.sent ++ [message] }
    else throw .notSupported
  else pure ()

/-- `DisconnectClient`: the connection is closed later, by the event loop. -/
def Session.disconnectClient (s : Session Id) : Session Id := { s with registered := false }

/-- The job and the target, as miners get them. -/
def sendWork (target : Text) : Handler Id Unit := do
  let s ← get
  send platform (.miningNotify s.currentJobParams)
  send platform (.setTarget target)

/-- The block of `EnsureInitialWorkSent` that holds the lock: the target, when there is work to be
sent. -/
def claimInitialWork : Handler Id (Option Text) := do
  let s ← get
  if s.context.isSubscribed ∧ s.context.isAuthorized ∧ s.context.isInitialWorkSent = false then
    modify fun s => s.mapContext fun c => { c with isInitialWorkSent := true }
    let target ← MonadExcept.ofExcept (diffToTarget s.context.difficulty)
    return some target
  else return none

/-- `EnsureInitialWorkSent`. -/
def ensureInitialWorkSent : Handler Id Unit := do
  match ← claimInitialWork with
  | none => pure ()
  | some target => sendWork platform target

/-! ## Difficulties -/

/-- `OnVarDiffUpdateAsync`. -/
def onVarDiffUpdateAsync (newDiff : Double) : Handler Id Unit := do
  modify fun s => s.mapContext fun c => { c with pendingDifficulty := some newDiff }
  modify fun s => s.mapContext WorkerContext.applyPendingDifficulty
  let target ← MonadExcept.ofExcept (diffToTarget newDiff)
  sendWork platform target

/-- What the `VarDiffManager` answers, to a client that has one. -/
def varDiffUpdate (c : WorkerContext) : Option Double :=
  match c.varDiff with
  | none => none
  | some _ => world.varDiffUpdate

/-- `UpdateVarDiffAsync`. -/
def updateVarDiffAsync : Handler Id Unit := do
  let s ← get
  match varDiffUpdate world s.context with
  | none => pure ()
  | some newDiff => onVarDiffUpdateAsync platform newDiff

/-- The client has been idle for too long. -/
def isZombie (s : Session Id) : Bool :=
  let ticks : ℤ := world.now - s.context.lastActivity
  let totalSeconds := (Double.ofRat ticks).div (.fin 10000000)
  0 < settings.clientConnectionTimeout &&
    Double.lt (.fin settings.clientConnectionTimeout.toInt) totalSeconds

/-- A pending difficulty that has been applied is sent. -/
def sendDifficulty (applied : Bool) : Handler Id Unit := do
  if applied then
    let s ← get
    send platform (.setDifficulty s.context.difficulty)

/-- What `OnNewJobAsync` sends to a client that is not idle. -/
def broadcastWork : Handler Id Unit := do
  let hasPendingDifficulty := (← get).context.pendingDifficulty.isSome
  modify fun s => s.mapContext WorkerContext.applyPendingDifficulty
  sendDifficulty platform hasPendingDifficulty
  let s ← get
  let target ← MonadExcept.ofExcept (diffToTarget s.context.difficulty)
  sendWork platform target

/-- `OnNewJobAsync`, for one client. -/
def onNewJobAsync (jobParams : Option JobParams) : Handler Id Unit := do
  modify fun s => { s with currentJobParams := jobParams }
  let s ← get
  if s.registered ∧ s.context.isSubscribed ∧ s.context.isAuthorized ∧
      s.context.isInitialWorkSent then
    if isZombie settings world s then modify Session.disconnectClient
    else broadcastWork platform
  else pure ()

/-! ## `mining.subscribe` -/

/-- The id of a request. -/
def requestId (code : StratumError) (request : Request Id) : Except Exn Id :=
  match request.id with
  | none => throw (.stratum code "missing request id")
  | some id => return id

/-- The parameters of a subscription. -/
def subscribeParams (request : Request Id) : Except Exn (List (Option Text)) := do
  match ← paramsAs request.params with
  | none => throw (.stratum .minusOne "invalid request")
  | some requestParams =>
    if requestParams.length < 2 then throw (.stratum .minusOne "invalid request")
    else return requestParams

/-- `PrepareWorker`, of the client of the session. -/
def prepareWorker : Handler Id Text := do
  let (extraNonce1, extraNonceProvider) := (← get).extraNonceProvider.next
  modify fun s => { s with extraNonceProvider := extraNonceProvider }.mapContext fun c =>
    { c with extraNonce1 := some extraNonce1 }
  return extraNonce1

/-- `str.Trim()`. -/
def trim (str : Text) : Text :=
  ((str.dropWhile platform.isWhiteSpace).reverse.dropWhile platform.isWhiteSpace).reverse

/-- `requestParams[0].Trim()`. -/
def subscribeAgent (requestParams : List (Option Text)) : Except Exn Text :=
  match requestParams.head? with
  | some (some userAgent) => return trim platform userAgent
  | _ => throw .nullReference

/-- `OnSubscribeAsync`. -/
def onSubscribeAsync (request : Request Id) : Handler Id Unit := do
  let id ← MonadExcept.ofExcept (requestId .other request)
  let requestParams ← MonadExcept.ofExcept (subscribeParams request)
  let extraNonce1 ← prepareWorker
  let s ← get
  send platform (.response id (.subscription s.connectionId extraNonce1))
  modify fun s => s.mapContext fun c => { c with isSubscribed := true }
  let userAgent ← MonadExcept.ofExcept (subscribeAgent platform requestParams)
  modify fun s => s.mapContext fun c => { c with userAgent := some userAgent }

/-! ## `mining.authorize` -/

/-- What follows the first occurrence of `key`, as `(\d*(\.\d+)?)` matches it. -/
def matchNumber (key : Text) : Text → Option Text
  | [] => none
  | c :: part =>
    if (c :: part).take key.length = key then
      let rest := (c :: part).drop key.length
      let digits := rest.takeWhile platform.isDigit
      let rest := rest.drop digits.length
      let fraction := (rest.drop 1).takeWhile platform.isDigit
      some (if rest.head? = some 46 ∧ fraction ≠ [] then digits ++ 46 :: fraction else digits)
    else matchNumber key part

/-- `GetMinimumPaymentFromPassparts`; a number that is not read throws. -/
def getMinimumPaymentFromPassparts (parts : List Text) : Except Exn ℚ :=
  match parts.findSome? (matchNumber platform (ascii "mp=")) with
  | none => return 0
  | some str =>
    match platform.parseDecimal str with
    | none => throw .format
    | some minimumPayment => return minimumPayment

/-- A number that is neither NaN nor infinite. -/
def isFinite : Double → Bool
  | .fin _ => true
  | _ => false

/-- `GetStaticDiffFromPassparts`. -/
def getStaticDiffFromPassparts (parts : List Text) : Option Double :=
  parts.findSome? fun part =>
    ((matchNumber platform (ascii "d=") part).bind platform.parseDouble).filter isFinite

/-- What `OnAuthorizeAsync` reads from a request before it changes anything. -/
structure AuthorizeRequest where
  minerName : Option Text
  workerName : Option Text
  passParts : List Text
  minimumPayment : ℚ
  deriving DecidableEq

def authorizeRequest (params : Params) : Except Exn AuthorizeRequest := do
  let requestParams := (← paramsAs params).getD []
  let workerValue := requestParams[0]?.join
  let password := requestParams[1]?.join
  let passParts := (password.map fun t => t.splitOn 59).getD []
  let workerParts := (workerValue.map fun t => t.splitOn 46).getD []
  let minimumPayment ← getMinimumPaymentFromPassparts platform passParts
  return {
    minerName := workerParts[0]?.map (trim platform)
    workerName := workerParts[1]?.map (trim platform)
    passParts := passParts
    minimumPayment := minimumPayment }

/-- `!string.IsNullOrEmpty(minerName) && await manager.ValidateAddressAsync(minerName)`. -/
def isAuthorized (minerName : Option Text) : Bool :=
  match minerName with
  | none => false
  | some minerName => minerName ≠ [] && world.validateAddress minerName

/-- The difficulty a password asks for, when it is taken. -/
def staticDiff (passParts : List Text) (c : WorkerContext) : Option Double :=
  (getStaticDiffFromPassparts platform passParts).filter fun diff =>
    match c.varDiff with
    | some varDiff => varDiff.minDiff.le diff
    | none => c.difficulty.lt diff

/-- A difficulty that is taken is static. -/
def WorkerContext.applyStaticDiff (c : WorkerContext) (diff : Option Double) : WorkerContext :=
  match diff with
  | none => c
  | some diff => { c with varDiff := none }.setDifficulty diff

theorem difficulty_applyStaticDiff (c : WorkerContext) (diff : Option Double) :
    (c.applyStaticDiff diff).difficulty = diff.getD c.difficulty := by
  cases diff with
  | none => rfl
  | some diff => rfl

theorem applyStaticDiff_keeps (c : WorkerContext) (diff : Option Double) :
    (c.applyStaticDiff diff).isInitialWorkSent = c.isInitialWorkSent ∧
      (c.applyStaticDiff diff).pendingDifficulty = c.pendingDifficulty ∧
      (c.applyStaticDiff diff).isSubscribed = c.isSubscribed ∧
      (c.applyStaticDiff diff).isAuthorized = c.isAuthorized := by
  cases diff with
  | none => exact ⟨rfl, rfl, rfl, rfl⟩
  | some diff => exact ⟨rfl, rfl, rfl, rfl⟩

/-- What `OnAuthorizeAsync` does before it replies. -/
def authorizeWorker (authorize : AuthorizeRequest) : Handler Id Unit := do
  modify fun s => s.mapContext fun c =>
    { c with isAuthorized := isAuthorized world authorize.minerName }
  modify fun s => s.mapContext fun c =>
    { c with minerName := authorize.minerName, workerName := authorize.workerName }

/-- What it does behind the reply, but for the work it sends. -/
def authorizeDifficulty (authorize : AuthorizeRequest) : Handler Id Unit := do
  modify fun s => s.mapContext fun c =>
    c.applyStaticDiff (staticDiff platform authorize.passParts c)
  modify fun s => s.mapContext fun c => { c with minimumPayment := authorize.minimumPayment }
  modify fun s => { s with
    bus := s.bus ++
      [.minerInfo settings.poolId s.context.minerName authorize.minimumPayment] }

/-- `OnAuthorizeAsync`. -/
def onAuthorizeAsync (request : Request Id) : Handler Id Unit := do
  let id ← MonadExcept.ofExcept (requestId .minusOne request)
  let authorize ← MonadExcept.ofExcept (authorizeRequest platform request.params)
  authorizeWorker world authorize
  let s ← get
  send platform (.response id (.bool s.context.isAuthorized))
  authorizeDifficulty platform settings authorize
  ensureInitialWorkSent platform

/-! ## `mining.submit` -/

/-- Shares that are not valid are banned for. -/
def bansInvalidShares : Bool :=
  settings.banning.any PoolShareBasedBanningConfig.enabled &&
    settings.clusterBanning.any fun config => config.banOnInvalidShares ≠ some false

/-- `Ban`; the host itself is not banned. -/
def Session.ban (s : Session Id) : Session Id := { s with banned := s.banned || !s.isLoopback }

/-- What `ConsiderBan` makes of the counts. -/
inductive BanDecision where
  | keep
  | reset
  | ban
  deriving DecidableEq

/-- The shares that were invalid, of those that were counted. -/
def ratioBad (c : WorkerContext) : Double :=
  Double.div (.fin c.invalidShares.toInt) (.fin (c.validShares + c.invalidShares).toInt)

/-- The tests of `ConsiderBan`, with that of `Ban`. -/
def banDecision (c : WorkerContext) : Except Exn BanDecision :=
  match settings.banning with
  | none => throw .nullReference
  | some config =>
    if c.validShares + c.invalidShares ≤ config.checkThreshold then return .keep
    else if (ratioBad c).lt (config.invalidPercent.div (.fin 100)) then return .reset
    else if bansInvalidShares settings = false then return .keep
    else if config.time ≤ 0 then throw .argument
    else return .ban

/-- The counts, when they are reset. -/
def BanDecision.apply (decision : BanDecision) (c : WorkerContext) : WorkerContext :=
  match decision with
  | .reset => { c with validShares := 0, invalidShares := 0 }
  | .keep | .ban => c

/-- `ConsiderBan`. -/
def considerBan : Handler Id Unit := do
  let s ← get
  let decision ← MonadExcept.ofExcept (banDecision settings s.context)
  modify fun s => s.mapContext decision.apply
  if decision = .ban then modify fun s => s.ban.disconnectClient
  else pure ()

/-- `context.Stats.InvalidShares++`. -/
def WorkerContext.countInvalid (c : WorkerContext) : WorkerContext :=
  { c with invalidShares := c.invalidShares + 1 }

/-- A share is counted as invalid, and the client banned when there are too many. -/
def rejectShare : Handler Id Unit := do
  modify fun s => s.mapContext WorkerContext.countInvalid
  considerBan settings

/-- `maxShareAge`, in ticks. -/
def maxShareAge : ℤ := 60000000

/-- The submission is too old to be processed. -/
def isStale (request : Request Id) : Bool := maxShareAge < (world.now : ℤ) - request.timestamp

/-- The checks of a submission. -/
def submitRequest (c : WorkerContext) (params : Params) : Except Exn (List Text) := do
  if c.isAuthorized = false then throw (.stratum .unauthorizedWorker "Unauthorized worker")
  else if c.isSubscribed = false then throw (.stratum .notSubscribed "Not subscribed")
  else
    let some submitRequest ← paramsAs params | throw .nullReference
    if submitRequest.length ≠ 5 ∨ submitRequest.any fun value => value.getD [] = [] then
      throw (.stratum .minusOne "malformed PoW result")
    else return submitRequest.map fun value => value.getD []

/-- The worker of the session, as a job sees it. -/
def Session.worker (s : Session Id) : StratumClient where
  connectionId := s.connectionId
  remoteEndpoint := s.remoteEndpoint
  context :=
    { minerName := (s.context.minerName.map platform.string).getD ""
      workerName := s.context.workerName.map platform.string
      userAgent := s.context.userAgent.map platform.string
      extraNonce1 := s.context.extraNonce1
      difficulty := s.context.difficulty }

/-- `manager.SubmitShareAsync`. -/
def submitShare (request : List Text) : Handler Id (Mining.Share Double) := do
  let s ← get
  let result := s.manager.submitShareAsync world.toEnvironment (s.worker platform) request
  modify fun s => { s with manager := result.manager }
  MonadExcept.ofExcept result.result

/-- What `OnSubmitAsync` does with a valid share. -/
def acceptShare (id : Id) (share : Mining.Share Double) : Handler Id Unit := do
  send platform (.response id (.bool true))
  modify fun s => { s with bus := s.bus ++ [.clientShare share] }
  ensureInitialWorkSent platform
  modify fun s => s.mapContext fun c => { c with validShares := c.validShares + 1 }
  updateVarDiffAsync platform world

/-- The inner `try` block of `OnSubmitAsync`. -/
def processSubmit (id : Id) (request : List Text) : Handler Id Unit :=
  catchStratum
    (do
      let share ← submitShare platform world request
      acceptShare platform world id share)
    fun code message => do
      rejectShare settings
      throw (.stratum code message)

/-- The outer `try` block, of a submission that is not too old. -/
def submit (id : Id) (request : Request Id) : Handler Id Unit := do
  let s ← get
  let submitRequest ← MonadExcept.ofExcept (submitRequest s.context request.params)
  modify fun s => s.mapContext fun c => { c with lastActivity := world.now }
  processSubmit platform settings world id submitRequest

/-- The outer `catch` block. -/
def rejectSubmit (request : Request Id) (code : StratumError) (message : String) :
    Handler Id Unit := do
  send platform (.error request.id code message (some false))
  modify fun s => { s with
    bus := s.bus ++ [.invalidShare settings.poolId s.context.minerName s.context.workerName
      world.now] }
  rejectShare settings
  throw (.stratum code message)

/-- `OnSubmitAsync`. -/
def onSubmitAsync (request : Request Id) : Handler Id Unit :=
  catchStratum
    (do
      let id ← MonadExcept.ofExcept (requestId .minusOne request)
      if isStale world request then pure ()
      else submit platform settings world id request)
    (rejectSubmit platform settings world request)

/-! ## `OnReceive` -/

/-- The methods of `OnRequestAsync`. -/
def dispatch (request : Request Id) : Handler Id Unit :=
  if request.method = some (ascii "mining.subscribe") then onSubscribeAsync platform request
  else if request.method = some (ascii "mining.authorize") then
    onAuthorizeAsync platform settings world request
  else if request.method = some (ascii "mining.submit") then
    onSubmitAsync platform settings world request
  else
    send platform (.error request.id .other
      ("Unsupported request " ++ (request.method.map platform.string).getD "") none)

/-- `OnRequestAsync`. -/
def onRequestAsync (request : Request Id) : Handler Id Unit :=
  catchStratum (dispatch platform settings world request) fun code message =>
    send platform (.error request.id code message (some false))

/-- Junk is banned for. -/
def bansJunk : Bool :=
  settings.banning.any PoolShareBasedBanningConfig.enabled &&
    settings.clusterBanning.any fun config => config.banOnJunkReceive ≠ some false

/-- `OnReceive`, of a line that is a request; exceptions are logged. The pool has a ban manager when
its banning is enabled. -/
def onReceive (request : Request Id) (s : Session Id) : Session Id :=
  if settings.banning.any PoolShareBasedBanningConfig.enabled && s.banned then
    s.disconnectClient
  else
    match (onRequestAsync platform settings world request).run s with
    | .ok _ s => s
    | .error .jsonReader s => if bansJunk settings then s.ban else s
    | .error _ s => s

end AionPool.Aion.Pool
