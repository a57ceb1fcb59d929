import AionPool.Stratum1.Registry

/-!
# The requests of the clients

Every line a client hands over gets a task. A task looks whether the address of its client is
banned, and gets to the request only then.

* `TaskStep`: what a step does to the tasks. `Accounted`: every line has one task, which is waiting,
  or has passed the check, or has come to an end.
* **`received_of_run`**: no line is lost or handled twice, and what a task comes to is what the line
  is deserialized to, or that the client is disconnected.
* **`ban_holds`**: while an address is banned, no request is dispatched from it and no connection
  from it is accepted but those that had passed the check before.

About `StratumServer.cs:140-240` and `IntegratedBanManager.cs:38-54`.
-/

namespace AionPool.Stratum1.StratumServer

open AionPool.Extensions AionPool.Lib.Run AionPool.Util
open AionPool.Aion.Pool (Settings bansJunk)

variable {Request : Type}

/-! ## What a step does -/

/-- What a task comes to that has passed the check. -/
def outcome (now : DateTime) : Except Exn (Option Request) → Outcome Request
  | .ok (some request) => .dispatched request now
  | .ok none => .null
  | .error e => .failed e

/-- The tasks are the same, but for what is being handled. -/
structure Tasks.Same (t t' : Tasks Request) : Prop where
  received : t'.received = t.received
  waiting : t'.waiting = t.waiting
  checked : t'.checked = t.checked
  log : t'.log = t.log

theorem Tasks.Same.refl (t : Tasks Request) : t.Same t := ⟨rfl, rfl, rfl, rfl⟩

variable (settings : Settings) (deserializeRequest : List UInt8 → Except Exn (Option Request))

/-- What a step does to the tasks. -/
inductive TaskStep (s s' : State Request) : Prop where
  | keep (hsame : s.toTasks.Same s'.toTasks)
  | receive {i : ℕ} {lines : List (List UInt8)}
      (hsettled : lines ≠ [] → ∃ c, s'.connections[i]? = some c ∧
        c.expectingProxyProtocolHeader = false)
      (hreceived : s'.received = s.received ++ lines.map (i, ·))
      (hwaiting : s'.waiting = s.waiting ++ List.range' s.received.length lines.length)
      (hchecked : s'.checked = s.checked) (hlog : s'.log = s.log)
  | boot {n i : ℕ} {data : List UInt8} (hn : n ∈ s.waiting)
      (hdata : s.received[n]? = some (i, data)) (hreceived : s'.received = s.received)
      (hwaiting : s'.waiting = s.waiting.erase n) (hchecked : s'.checked = s.checked)
      (hlog : s'.log = s.log ++ [(n, .booted)])
  | pass {n i : ℕ} {data : List UInt8} {address : IPAddress} (hn : n ∈ s.waiting)
      (hdata : s.received[n]? = some (i, data)) (haddress : s.addressOf i = some address)
      (hbanned : s.isBanned settings address = false) (hreceived : s'.received = s.received)
      (hwaiting : s'.waiting = s.waiting.erase n) (hchecked : s'.checked = s.checked ++ [n])
      (hlog : s'.log = s.log)
  | handle {n i : ℕ} {data : List UInt8} (hn : n ∈ s.checked)
      (hdata : s.received[n]? = some (i, data)) (hreceived : s'.received = s.received)
      (hwaiting : s'.waiting = s.waiting) (hchecked : s'.checked = s.checked.erase n)
      (hlog : s'.log = s.log ++ [(n, outcome s.now (deserializeRequest data))])

section Runs

variable {settings deserializeRequest} {s s' : State Request}

theorem tasks_handle (s : State Request) (settings : Settings) (n i : ℕ)
    (r : Except Exn (Option Request)) :
    (s.handle settings n i r).received = s.received ∧
      (s.handle settings n i r).waiting = s.waiting ∧
      (s.handle settings n i r).checked = s.checked.erase n ∧
      (s.handle settings n i r).log = s.log ++ [(n, outcome s.now r)] := by
  unfold State.handle
  split
  · exact ⟨rfl, rfl, rfl, rfl⟩
  · exact ⟨rfl, rfl, rfl, rfl⟩
  · rename_i e
    obtain ⟨cache, hcache⟩ := caught_eq s i settings e
    rw [hcache]
    exact ⟨rfl, rfl, rfl, rfl⟩

/-- **What a step does to the tasks.** -/
theorem step_tasks {e : Event} (h : step settings deserializeRequest s e = some s') :
    TaskStep settings deserializeRequest s s' := by
  have hsame : ∀ {t : State Request}, t.toTasks = s.toTasks →
      TaskStep settings deserializeRequest s t := fun ht => .keep (ht ▸ .refl _)
  cases e with
  | connect peer proxyProtocol =>
    obtain rfl := Option.some.inj h
    refine hsame ?_
    unfold State.onClientConnected
    split <;> rfl
  | accept peer proxyProtocol =>
    obtain ⟨-, rfl⟩ := step_accept h
    exact hsame rfl
  | drawId | disconnect i | tick ticks =>
    obtain rfl := Option.some.inj h
    exact hsame rfl
  | read i header lines =>
    obtain ⟨c, hc, -, -, rfl⟩ := step_read h
    refine .receive (fun hlines => ⟨c.read s.now header lines, ?_, ?_⟩) rfl rfl rfl rfl
    · exact (List.getElem?_modify_eq _ _ _).trans (congrArg (Option.map _) hc)
    · have hempty : lines.isEmpty = false := by rwa [List.isEmpty_eq_false_iff]
      unfold Client.read
      rw [hempty, Bool.and_false]
  | dispose i =>
    obtain rfl := step_dispose h
    exact hsame rfl
  | receiveError i | disconnectClient i =>
    obtain rfl := Option.some.inj h
    exact hsame (toTasks_disconnectClient s i)
  | receiveComplete i =>
    obtain rfl := Option.some.inj h
    exact hsame (toTasks_disconnectClient _ i)
  | check n =>
    obtain ⟨i, data, address, hdata, haddress, hn, rfl⟩ := step_check h
    have hreceived := congrArg Tasks.received (toTasks_disconnectClient s i)
    have hchecked := congrArg Tasks.checked (toTasks_disconnectClient s i)
    unfold State.check
    split
    · exact .boot hn hdata hreceived rfl hchecked rfl
    · rename_i hbanned
      exact .pass hn hdata haddress (Bool.eq_false_iff.mpr hbanned) rfl rfl rfl rfl
  | handle n =>
    obtain ⟨i, data, hdata, hn, rfl⟩ := step_handle h
    obtain ⟨hreceived, hwaiting, hchecked, hlog⟩ :=
      tasks_handle s settings n i (deserializeRequest data)
    exact .handle hn hdata hreceived hwaiting hchecked hlog
  | finish n thrown =>
    obtain ⟨i, -, -, -, rfl⟩ := step_finish h
    obtain ⟨cache, hcache⟩ := finish_eq { s with handling := s.handling.erase n } settings i thrown
    rw [hcache]
    exact .keep ⟨rfl, rfl, rfl, rfl⟩
  | ban address duration =>
    obtain rfl := Option.some.inj h
    obtain ⟨cache, hcache⟩ := ban_eq s address duration
    rw [hcache]
    exact hsame rfl
  | zombie i =>
    obtain ⟨c, due, -, -, -, rfl⟩ := step_zombie h
    refine hsame ?_
    split
    · exact toTasks_disconnectClient _ i
    · rfl

/-! ## Every line has one task -/

/-- A task comes to what its line is deserialized to, unless its client is booted. -/
def Ends (deserializeRequest : List UInt8 → Except Exn (Option Request))
    (received : List (ℕ × List UInt8)) (e : ℕ × Outcome Request) : Prop :=
  ∃ i data, received[e.1]? = some (i, data) ∧
    (e.2 = .booted ∨ ∃ now, e.2 = outcome now (deserializeRequest data))

/-- Every line has one task. -/
structure Accounted (deserializeRequest : List UInt8 → Except Exn (Option Request))
    (t : Tasks Request) : Prop where
  perm : (t.waiting ++ t.checked ++ t.log.map Prod.fst).Perm (List.range t.received.length)
  ends : ∀ e ∈ t.log, Ends deserializeRequest t.received e

namespace Accounted

variable {t : Tasks Request}

theorem lt_length (h : Accounted deserializeRequest t) {n : ℕ}
    (hn : n ∈ t.waiting ++ t.checked ++ t.log.map Prod.fst) : n < t.received.length :=
  List.mem_range.mp (h.perm.subset hn)

theorem ends_append {received lines : List (ℕ × List UInt8)} {e : ℕ × Outcome Request}
    (h : Ends deserializeRequest received e) : Ends deserializeRequest (received ++ lines) e := by
  obtain ⟨i, data, hdata, hend⟩ := h
  have hlt := (List.getElem?_eq_some_iff.mp hdata).1
  exact ⟨i, data, (List.getElem?_append_left hlt).trans hdata, hend⟩

/-- A task goes from one list to the next. -/
theorem perm_move {n : ℕ} {l m : List ℕ} (hn : n ∈ l) :
    (l.erase n ++ (m ++ [n])).Perm (l ++ m) := by
  have hlast : (l.erase n ++ (m ++ [n])).Perm (n :: l.erase n ++ m) := by
    rw [← List.append_assoc]
    exact List.perm_append_singleton n _
  exact hlast.trans ((List.perm_cons_erase hn).symm.append_right m)

/-- **One step** keeps the account. -/
theorem step (h : Accounted deserializeRequest s.toTasks)
    (hstep : TaskStep settings deserializeRequest s s') :
    Accounted deserializeRequest s'.toTasks := by
  have hlogged : ∀ {e : ℕ × Outcome Request}, s'.received = s.received →
      s'.log = s.log ++ [e] → Ends deserializeRequest s.received e →
      ∀ e ∈ s'.log, Ends deserializeRequest s'.received e := fun hreceived hlog he e hmem => by
    rw [hreceived]
    rw [hlog] at hmem
    rcases List.mem_append.mp hmem with hmem | hmem
    · exact h.ends e hmem
    · exact List.mem_singleton.mp hmem ▸ he
  cases hstep with
  | keep hsame =>
    refine ⟨?_, ?_⟩
    · rw [hsame.waiting, hsame.checked, hsame.log, hsame.received]
      exact h.perm
    · rw [hsame.log, hsame.received]
      exact h.ends
  | @receive i lines _ hreceived hwaiting hchecked hlog =>
    refine ⟨?_, fun e he => ?_⟩
    · have hrange : List.range (s.received.length + lines.length) =
          List.range s.received.length ++ List.range' s.received.length lines.length := by
        rw [List.range_eq_range', List.range_eq_range', ← List.range'_append_1, Nat.zero_add]
      rw [hwaiting, hchecked, hlog, hreceived, List.length_append, List.length_map, hrange,
        List.append_assoc, List.append_assoc]
      refine (List.perm_append_comm.append_left s.waiting).trans ?_
      rw [← List.append_assoc, ← List.append_assoc]
      exact h.perm.append_right _
    · rw [hreceived]
      exact ends_append (h.ends e (hlog ▸ he))
  | @boot n i data hn hdata hreceived hwaiting hchecked hlog =>
    refine ⟨?_, hlogged hreceived hlog ⟨i, data, hdata, .inl rfl⟩⟩
    rw [hwaiting, hchecked, hlog, hreceived, List.map_append, List.append_assoc,
      ← List.append_assoc s.checked]
    refine (perm_move hn).trans ?_
    rw [← List.append_assoc]
    exact h.perm
  | pass hn hdata haddress hbanned hreceived hwaiting hchecked hlog =>
    refine ⟨?_, fun e he => ?_⟩
    · rw [hwaiting, hchecked, hlog, hreceived]
      exact ((perm_move hn).append_right _).trans h.perm
    · rw [hreceived]
      exact h.ends e (hlog ▸ he)
  | @handle n i data hn hdata hreceived hwaiting hchecked hlog =>
    refine ⟨?_, hlogged hreceived hlog ⟨i, data, hdata, .inr ⟨s.now, rfl⟩⟩⟩
    rw [hwaiting, hchecked, hlog, hreceived, List.map_append, List.append_assoc]
    refine ((perm_move hn).append_left _).trans ?_
    rw [← List.append_assoc]
    exact h.perm

theorem init : Accounted deserializeRequest (⟨[], [], [], [], []⟩ : Tasks Request) :=
  ⟨.refl _, fun _ h => absurd h List.not_mem_nil⟩

theorem of_run {es : List Event} (h : Accounted deserializeRequest s.toTasks)
    (hrun : run (StratumServer.step settings deserializeRequest) s es = some s') :
    Accounted deserializeRequest s'.toTasks :=
  run_invariant_of_step (I := fun s => Accounted deserializeRequest s.toTasks)
    (fun _ _ _ h hstep => h.step (step_tasks hstep)) h hrun

end Accounted

/-- **Every line** is waiting, or has passed the check, or has come to an end, and only once; and a
task comes to what its line is deserialized to, unless its client is booted. -/
theorem received_of_run {now : DateTime} {lastId : Int64} {cache : BanCache} {es : List Event}
    (hrun : run (step settings deserializeRequest) (.init now lastId cache) es = some s) :
    (s.waiting ++ s.checked ++ s.log.map Prod.fst).Perm (List.range s.received.length) ∧
      ∀ e ∈ s.log, Ends deserializeRequest s.received e :=
  have h := Accounted.init.of_run hrun
  ⟨h.perm, h.ends⟩

/-- A pool that bans, for junk too. -/
def banningSettings : Settings := ⟨"aion1", some ⟨true, 50, .fin 50, 600⟩, some ⟨none, none⟩, 600⟩

/-- A client hands over two lines, of which the second is junk, and is banned and booted before the
first of them has been looked at. -/
theorem received_of_run_two :
    let deserializeRequest : List UInt8 → Except Exn (Option Unit) := fun line =>
      if line = [0x7b] then .error .jsonReader else .ok (some ())
    ∃ s : State Unit,
      run (step banningSettings deserializeRequest) (.init 0 0 fun _ => none)
        [.connect [1, 2, 3, 4] false, .accept [1, 2, 3, 4] false, .read 0 none [[0x31], [0x7b]],
          .check 1, .handle 1, .check 0] = some s ∧
      s.log.map Prod.fst = [1, 0] ∧ (∃ n, s.log[1]? = some (n, .booted)) ∧
      (s.waiting ++ s.checked ++ s.log.map Prod.fst).Perm (List.range s.received.length) ∧
      ∀ e ∈ s.log, Ends deserializeRequest s.received e := by
  intro deserializeRequest
  have hrun : run (step banningSettings deserializeRequest) (.init 0 0 fun _ => none)
      [.connect [1, 2, 3, 4] false, .accept [1, 2, 3, 4] false, .read 0 none [[0x31], [0x7b]],
        .check 1, .handle 1, .check 0] = some _ := rfl
  exact ⟨_, hrun, rfl, ⟨_, rfl⟩, received_of_run hrun⟩

/-! ## Bans -/

/-- A task of the address ends with a ban for junk. -/
def Junk (settings : Settings) (deserializeRequest : List UInt8 → Except Exn (Option Request))
    (address : IPAddress) (s : State Request) : Event → Prop
  | .handle n => bansJunk settings = true ∧ ∃ i data, s.received[n]? = some (i, data) ∧
      s.addressOf i = some address ∧ deserializeRequest data = .error .jsonReader
  | .finish n thrown => bansJunk settings = true ∧ ∃ i data, s.received[n]? = some (i, data) ∧
      s.addressOf i = some address ∧ thrown = some .jsonReader
  | _ => False

/-- A ban of the address that is made does not end earlier. -/
def Lasts (settings : Settings) (deserializeRequest : List UInt8 → Except Exn (Option Request))
    (address : IPAddress) (expiry : DateTime) (s : State Request) (e : Event) : Prop :=
  (∀ duration : ℤ, e = .ban address duration → 0 < duration →
    expiry ≤ s.now + duration.toNat) ∧
  (Junk settings deserializeRequest address s e → expiry ≤ s.now + seconds (30 * 60))

/-- The address a line came from. -/
def State.source (s : State Request) (n : ℕ) : Option IPAddress :=
  (s.received[n]?).bind fun r => s.addressOf r.1

theorem caught_cache (s : State Request) (i : ℕ) (e : Exn) :
    (s.caught settings i e).cache = s.cache ∨
      ∃ address, s.addressOf i = some address ∧ e = .jsonReader ∧ bansJunk settings = true ∧
        (s.caught settings i e).cache = (s.ban address (seconds (30 * 60))).cache := by
  unfold State.caught
  split
  · rename_i address haddress
    split
    · rename_i hjunk
      exact .inr ⟨address, haddress, hjunk.1, hjunk.2, rfl⟩
    · exact .inl rfl
  · exact .inl rfl

/-- **What a step does to the cache** is a ban. -/
theorem step_cache {e : Event} (h : step settings deserializeRequest s e = some s') :
    s.now ≤ s'.now ∧ (s'.cache = s.cache ∨ ∃ address duration,
      s'.cache = (s.ban address duration).cache ∧
      (e = .ban address duration ∨
        Junk settings deserializeRequest address s e ∧ duration = seconds (30 * 60))) := by
  have hsame : ∀ {t : State Request}, t.now = s.now → t.cache = s.cache →
      s.now ≤ t.now ∧ (t.cache = s.cache ∨ ∃ address duration,
        t.cache = (s.ban address duration).cache ∧ (e = .ban address duration ∨
          Junk settings deserializeRequest address s e ∧ duration = seconds (30 * 60))) :=
    fun hnow hcache => ⟨hnow.ge, .inl hcache⟩
  cases e with
  | connect peer proxyProtocol =>
    obtain rfl := Option.some.inj h
    refine hsame ?_ ?_ <;> unfold State.onClientConnected <;> split <;> rfl
  | accept peer proxyProtocol =>
    obtain ⟨-, rfl⟩ := step_accept h
    exact hsame rfl rfl
  | drawId | disconnect i =>
    obtain rfl := Option.some.inj h
    exact hsame rfl rfl
  | read i header lines =>
    obtain ⟨c, -, -, -, rfl⟩ := step_read h
    exact hsame rfl rfl
  | dispose i =>
    obtain rfl := step_dispose h
    exact hsame rfl rfl
  | receiveError i | disconnectClient i | receiveComplete i =>
    obtain rfl := Option.some.inj h
    exact hsame (now_disconnectClient _ i) (cache_disconnectClient _ i)
  | check n =>
    obtain ⟨i, -, address, -, -, -, rfl⟩ := step_check h
    unfold State.check
    split
    · exact hsame (now_disconnectClient s i) (cache_disconnectClient s i)
    · exact hsame rfl rfl
  | handle n =>
    obtain ⟨i, data, hdata, -, rfl⟩ := step_handle h
    unfold State.handle
    split
    · exact hsame rfl rfl
    · exact hsame rfl rfl
    · rename_i e he
      obtain ⟨cache, hcache⟩ := caught_eq s i settings e
      refine ⟨le_of_eq (congrArg State.now hcache).symm, ?_⟩
      rcases @caught_cache _ settings s i e with
        hkeep | ⟨address, haddress, hjunk, hbans, hban⟩
      · exact .inl hkeep
      · exact .inr ⟨address, _, hban, .inr ⟨⟨hbans, i, data, hdata, haddress, hjunk ▸ he⟩, rfl⟩⟩
  | finish n thrown =>
    obtain ⟨i, data, hdata, -, rfl⟩ := step_finish h
    cases thrown with
    | none => exact hsame rfl rfl
    | some e =>
      obtain ⟨cache, hcache⟩ := caught_eq { s with handling := s.handling.erase n } i settings e
      refine ⟨le_of_eq (congrArg State.now hcache).symm, ?_⟩
      obtain hkeep | ⟨address, haddress, hjunk, hbans, hban⟩ :=
        @caught_cache _ settings { s with handling := s.handling.erase n } i e
      · exact .inl hkeep
      · refine .inr ⟨address, _, hban.trans ?_,
          .inr ⟨⟨hbans, i, data, hdata, haddress, congrArg some hjunk⟩, rfl⟩⟩
        unfold State.ban
        dsimp only
        split <;> rfl
  | ban address duration =>
    obtain rfl := Option.some.inj h
    obtain ⟨cache, hcache⟩ := ban_eq s address duration
    exact ⟨le_of_eq (congrArg State.now hcache).symm, .inr ⟨address, duration, rfl, .inl rfl⟩⟩
  | zombie i =>
    obtain ⟨c, due, -, -, -, rfl⟩ := step_zombie h
    split
    · exact hsame (now_disconnectClient _ i) (cache_disconnectClient _ i)
    · exact hsame rfl rfl
  | tick ticks =>
    obtain rfl := Option.some.inj h
    exact ⟨Nat.le_add_right _ _, .inl rfl⟩

/-- An entry of the cache is replaced by one that lasts as long. -/
theorem cache_ban {a address : IPAddress} {duration : ℤ} {expiry x : DateTime} (hx : expiry ≤ x)
    (hban : s.cache a = some x)
    (hlasts : address = a → 0 < duration → expiry ≤ s.now + duration.toNat) :
    ∃ y, expiry ≤ y ∧ (s.ban address duration).cache a = some y := by
  unfold State.ban BanCache.ban
  by_cases hpos : 0 < duration
  · rw [if_neg (not_not.mpr hpos)]
    split_ifs with hloop
    · exact ⟨x, hx, hban⟩
    · by_cases ha : address = a
      · subst ha
        exact ⟨_, hlasts rfl hpos, Function.update_self _ _ _⟩
      · exact ⟨x, hx, (Function.update_of_ne (Ne.symm ha) _ _).trans hban⟩
  · rw [if_pos hpos]
    exact ⟨x, hx, hban⟩

/-! ### Addresses do not change -/

/-- A client that has handed over a line does not expect the header of the proxy protocol. -/
def Settled (s : State Request) : Prop :=
  ∀ r ∈ s.received, ∃ c, s.connections[r.1]? = some c ∧ c.expectingProxyProtocolHeader = false

/-- Connections from the address, registered from the `n`-th on or on their way there. -/
def admittedFrom (n : ℕ) (address : IPAddress) (s : State Request) : ℕ :=
  ((s.connections.map Client.peerAddress).drop n).count address +
    (s.connecting.map Prod.fst).count address

theorem count_erase_connecting {l : List (IPAddress × Bool)} {peer : IPAddress}
    {proxyProtocol : Bool} (hmem : (peer, proxyProtocol) ∈ l) (address : IPAddress) :
    (l.map Prod.fst).count address = ((l.erase (peer, proxyProtocol)).map Prod.fst).count address +
      [peer].count address := by
  have hperm := ((List.perm_cons_erase hmem).map Prod.fst).count_eq address
  rw [hperm, List.map_cons, List.count_cons, List.count_singleton]

/-- **One step** admits a connection from the address if it is not banned. -/
theorem admittedFrom_step {e : Event} (h : step settings deserializeRequest s e = some s') {n : ℕ}
    (hn : n ≤ s.connections.length) (address : IPAddress) :
    n ≤ s'.connections.length ∧ (admittedFrom n address s' ≤ admittedFrom n address s ∨
      s.isBanned settings address = false) := by
  unfold admittedFrom
  cases step_registry h with
  | keep _ hconnecting hlater =>
    exact ⟨hlater.length_eq ▸ hn, .inl (by rw [hlater.peers, hconnecting])⟩
  | disconnect _ _ hconnecting hlater =>
    exact ⟨hlater.length_eq ▸ hn, .inl (by rw [hlater.peers, hconnecting])⟩
  | @connect peer proxyProtocol hadmitted _ hconnecting hconnections =>
    refine ⟨hconnections ▸ hn, ?_⟩
    by_cases hpeer : peer = address
    · exact .inr (hpeer ▸ hadmitted)
    · left
      rw [hconnections, hconnecting, List.map_append, List.count_append, List.map_singleton,
        List.count_eq_zero_of_not_mem (l := [peer]) (by simpa using Ne.symm hpeer), add_zero]
  | @accept c proxyProtocol hmem _ hconnecting _ hconnections =>
    refine ⟨by rw [hconnections, List.length_append]; omega, .inl (le_of_eq ?_)⟩
    rw [hconnections, hconnecting, List.map_append, List.map_singleton,
      List.drop_append_of_le_length (by rwa [List.length_map]), List.count_append,
      count_erase_connecting hmem]
    omega

theorem step_later {e : Event} (h : step settings deserializeRequest s e = some s') {i : ℕ}
    {c : Client} (hc : s.connections[i]? = some c) :
    ∃ c', s'.connections[i]? = some c' ∧ c.Later c' := by
  cases step_registry h with
  | keep _ _ hlater => exact hlater.exists_after hc
  | disconnect _ _ _ hlater => exact hlater.exists_after hc
  | connect _ _ _ hconnections => exact ⟨c, hconnections ▸ hc, .refl c⟩
  | accept _ _ _ _ hconnections =>
    refine ⟨c, ?_, .refl c⟩
    rw [hconnections, List.getElem?_append_left (List.getElem?_eq_some_iff.mp hc).1]
    exact hc

theorem received_append {e : Event} (h : step settings deserializeRequest s e = some s') :
    ∃ lines, s'.received = s.received ++ lines ∧ ∀ r ∈ lines, ∃ c,
      s'.connections[r.1]? = some c ∧ c.expectingProxyProtocolHeader = false := by
  have hnone : s'.received = s.received → ∃ lines, s'.received = s.received ++ lines ∧
      ∀ r ∈ lines, ∃ c, s'.connections[r.1]? = some c ∧ c.expectingProxyProtocolHeader = false :=
    fun hsame => ⟨[], by rw [hsame, List.append_nil], fun _ hr => absurd hr List.not_mem_nil⟩
  cases step_tasks h with
  | keep hsame => exact hnone hsame.received
  | boot _ _ hreceived => exact hnone hreceived
  | pass _ _ _ _ hreceived => exact hnone hreceived
  | handle _ _ hreceived => exact hnone hreceived
  | receive hsettled hreceived =>
    refine ⟨_, hreceived, fun r hr => ?_⟩
    obtain ⟨line, hline, rfl⟩ := List.mem_map.mp hr
    exact hsettled (List.ne_nil_of_mem hline)

theorem Settled.of_step (hsettled : Settled s) {e : Event}
    (h : step settings deserializeRequest s e = some s') : Settled s' := by
  obtain ⟨lines, hreceived, hlines⟩ := received_append h
  intro r hr
  rw [hreceived] at hr
  rcases List.mem_append.mp hr with hr | hr
  · obtain ⟨c, hc, hfalse⟩ := hsettled r hr
    obtain ⟨c', hc', hlater⟩ := step_later h hc
    exact ⟨c', hc', (hlater.settled hfalse).1⟩
  · exact hlines r hr

/-- **The address** a line came from stays what it was. -/
theorem Settled.source_eq (hsettled : Settled s) {e : Event}
    (h : step settings deserializeRequest s e = some s') {n : ℕ} (hn : n < s.received.length) :
    s'.source n = s.source n := by
  obtain ⟨lines, hreceived, -⟩ := received_append h
  obtain ⟨c, hc, hfalse⟩ := hsettled s.received[n] (List.getElem_mem hn)
  obtain ⟨c', hc', hlater⟩ := step_later h hc
  unfold State.source State.addressOf
  rw [hreceived, List.getElem?_append_left hn, List.getElem?_eq_getElem hn, Option.bind_some,
    Option.bind_some, hc, hc', Option.map_some, Option.map_some, (hlater.settled hfalse).2]

/-! ### While a ban lasts -/

/-- What holds after an address was banned in the state `s₀`. -/
structure Held (deserializeRequest : List UInt8 → Except Exn (Option Request))
    (s₀ : State Request) (address : IPAddress) (expiry : DateTime) (s : State Request) :
    Prop where
  accounted : Accounted deserializeRequest s.toTasks
  settled : Settled s
  cache : ∃ x, expiry ≤ x ∧ s.cache address = some x
  checked : ∀ n ∈ s.checked, s.source n = some address → s.now < expiry → n ∈ s₀.checked
  dispatched : ∀ n request time, (n, .dispatched request time) ∈ s.log →
    (n, .dispatched request time) ∉ s₀.log → s.source n = some address → time < expiry →
    n ∈ s₀.checked
  length_le : s₀.connections.length ≤ s.connections.length
  admitted : s.now < expiry → admittedFrom s₀.connections.length address s ≤
    (s₀.connecting.map Prod.fst).count address

/-- An address that is not banned any more has served its time. -/
theorem expired_of_not_isBanned {address : IPAddress} {expiry : DateTime}
    (hbanning : State.banning settings = true)
    (hcache : ∃ x, expiry ≤ x ∧ s.cache address = some x)
    (h : s.isBanned settings address = false) : expiry ≤ s.now := by
  obtain ⟨x, hx, hcache⟩ := hcache
  unfold State.isBanned BanCache.isBanned at h
  rw [hbanning, hcache, Bool.true_and, Option.any_some, decide_eq_false_iff_not] at h
  exact hx.trans (Nat.le_of_not_lt h)

namespace Held

variable {s₀ : State Request} {address : IPAddress} {expiry : DateTime} {e : Event}

theorem source_eq (hheld : Held deserializeRequest s₀ address expiry s)
    (h : step settings deserializeRequest s e = some s') {n : ℕ}
    (hn : n ∈ s.waiting ++ s.checked ++ s.log.map Prod.fst) : s'.source n = s.source n :=
  hheld.settled.source_eq h (hheld.accounted.lt_length hn)

theorem cache_step (hheld : Held deserializeRequest s₀ address expiry s)
    (hlasts : Lasts settings deserializeRequest address expiry s e)
    (h : step settings deserializeRequest s e = some s') :
    ∃ x, expiry ≤ x ∧ s'.cache address = some x := by
  obtain ⟨x, hx, hban⟩ := hheld.cache
  rcases (step_cache h).2 with hkeep | ⟨banned, duration, hcache, hevent⟩
  · exact ⟨x, hx, hkeep ▸ hban⟩
  · rw [hcache]
    refine cache_ban hx hban ?_
    rintro rfl hpos
    rcases hevent with hevent | ⟨hjunk, hduration⟩
    · exact hlasts.1 duration hevent hpos
    · rw [hduration]
      exact hlasts.2 hjunk

/-- No task passes the check while the ban lasts. -/
theorem checked_step (hbanning : State.banning settings = true)
    (hheld : Held deserializeRequest s₀ address expiry s)
    (h : step settings deserializeRequest s e = some s') {n : ℕ} (hn : n ∈ s'.checked)
    (haddress : s'.source n = some address) (hlt : s'.now < expiry) : n ∈ s₀.checked := by
  have hlt := (step_cache h).1.trans_lt hlt
  have hbefore : n ∈ s.checked → n ∈ s₀.checked := fun hn => by
    rw [hheld.source_eq h (List.mem_append_left _ (List.mem_append_right _ hn))] at haddress
    exact hheld.checked n hn haddress hlt
  cases step_tasks h with
  | keep hsame => exact hbefore (hsame.checked ▸ hn)
  | receive _ _ _ hsame => exact hbefore (hsame ▸ hn)
  | boot _ _ _ _ hsame => exact hbefore (hsame ▸ hn)
  | handle _ _ _ _ hsame => exact hbefore (List.mem_of_mem_erase (hsame ▸ hn))
  | @pass m i data a hm hdata ha hbanned _ _ hsame =>
    rw [hsame] at hn
    rcases List.mem_append.mp hn with hn | hn
    · exact hbefore hn
    · -- the task has just passed the check
      obtain rfl := List.mem_singleton.mp hn
      rw [hheld.source_eq h (List.mem_append_left _ (List.mem_append_left _ hm))] at haddress
      unfold State.source at haddress
      rw [hdata, Option.bind_some, ha] at haddress
      obtain rfl := Option.some.inj haddress
      exact absurd hlt (Nat.not_lt.mpr (expired_of_not_isBanned hbanning hheld.cache hbanned))

/-- What is dispatched while the ban lasts had passed the check. -/
theorem dispatched_step (hheld : Held deserializeRequest s₀ address expiry s)
    (h : step settings deserializeRequest s e = some s') {n : ℕ} {request : Request}
    {time : DateTime} (hmem : (n, .dispatched request time) ∈ s'.log)
    (hnew : (n, .dispatched request time) ∉ s₀.log) (haddress : s'.source n = some address)
    (hlt : time < expiry) : n ∈ s₀.checked := by
  have hbefore : (n, .dispatched request time) ∈ s.log → n ∈ s₀.checked := fun hmem => by
    rw [hheld.source_eq h (List.mem_append_right _ (List.mem_map_of_mem hmem))] at haddress
    exact hheld.dispatched n request time hmem hnew haddress hlt
  cases step_tasks h with
  | keep hsame => exact hbefore (hsame.log ▸ hmem)
  | receive _ _ _ _ hsame => exact hbefore (hsame ▸ hmem)
  | pass _ _ _ _ _ _ _ hsame => exact hbefore (hsame ▸ hmem)
  | boot _ _ _ _ _ hsame =>
    rw [hsame] at hmem
    rcases List.mem_append.mp hmem with hmem | hmem
    · exact hbefore hmem
    · exact absurd (List.mem_singleton.mp hmem) (by simp)
  | @handle m i data hm _ _ _ _ hsame =>
    rw [hsame] at hmem
    rcases List.mem_append.mp hmem with hmem | hmem
    · exact hbefore hmem
    · obtain ⟨rfl, houtcome⟩ := Prod.mk.inj (List.mem_singleton.mp hmem)
      have htime : time = s.now := by
        unfold outcome at houtcome
        split at houtcome
        · exact (Outcome.dispatched.inj houtcome).2
        · exact absurd houtcome (by simp)
        · exact absurd houtcome (by simp)
      rw [hheld.source_eq h (List.mem_append_left _ (List.mem_append_right _ hm))] at haddress
      exact hheld.checked n hm haddress (htime ▸ hlt)

theorem of_step (hbanning : State.banning settings = true)
    (hheld : Held deserializeRequest s₀ address expiry s)
    (hlasts : Lasts settings deserializeRequest address expiry s e)
    (h : step settings deserializeRequest s e = some s') :
    Held deserializeRequest s₀ address expiry s' where
  accounted := hheld.accounted.step (step_tasks h)
  settled := hheld.settled.of_step h
  cache := hheld.cache_step hlasts h
  checked _ := hheld.checked_step hbanning h
  dispatched _ _ _ := hheld.dispatched_step h
  length_le := (admittedFrom_step h hheld.length_le address).1
  admitted hlt := by
    have hnow := (step_cache h).1
    rcases (admittedFrom_step h hheld.length_le address).2 with hle | hbanned
    · exact hle.trans (hheld.admitted (hnow.trans_lt hlt))
    · have hover := expired_of_not_isBanned hbanning hheld.cache hbanned
      exact absurd (hover.trans hnow) (Nat.not_le.mpr hlt)

end Held

/-- **A ban holds** against everything that happens at the same time: until it ends, or is replaced
by one that ends earlier, no request is dispatched from the address and no connection from it is
accepted but those that had passed the check when it was made. -/
theorem ban_holds {now : DateTime} {lastId : Int64} {cache : BanCache} {es₀ es : List Event}
    {address : IPAddress} {expiry : DateTime} (hbanning : State.banning settings = true)
    (hbefore : run (step settings deserializeRequest) (.init now lastId cache) es₀ = some s)
    (hban : s.cache address = some expiry)
    (hrun : run (step settings deserializeRequest) s es = some s')
    (hlasts : Along (step settings deserializeRequest)
      (Lasts settings deserializeRequest address expiry) s es) :
    (∀ n request time, (n, .dispatched request time) ∈ s'.log →
      (n, .dispatched request time) ∉ s.log → s'.source n = some address → time < expiry →
      n ∈ s.checked) ∧
    (s'.now < expiry →
      ((s'.connections.map Client.peerAddress).drop s.connections.length).count address ≤
        (s.connecting.map Prod.fst).count address) := by
  have hsettled : Settled s :=
    run_invariant_of_step (fun _ _ _ h hstep => h.of_step hstep)
      (fun _ hr => absurd hr List.not_mem_nil) hbefore
  have hnone : (s.connections.map Client.peerAddress).drop s.connections.length = [] :=
    List.drop_eq_nil_of_le (List.length_map _).le
  have hstart : Held deserializeRequest s address expiry s :=
    ⟨Accounted.init.of_run hbefore, hsettled, ⟨expiry, le_rfl, hban⟩, fun _ hn _ _ => hn,
      fun _ _ _ hmem hnew => absurd hmem hnew, le_rfl, fun _ => by
        rw [admittedFrom, hnone, List.count_nil, Nat.zero_add]⟩
  have hheld := run_invariant (fun _ _ _ h hlasts hstep => h.of_step hbanning hlasts hstep)
    hstart hlasts hrun
  exact ⟨hheld.dispatched, fun hlt => (Nat.le_add_right _ _).trans (hheld.admitted hlt)⟩

/-- When the address is banned two lines are waiting, the task of one has passed the check, and so
has one connection; the next connection does not. -/
theorem ban_holds_two :
    ∃ s s' : State Unit,
      run (step banningSettings fun _ => .ok (some ())) (.init 0 0 fun _ => none)
        [.connect [1, 2, 3, 4] false, .accept [1, 2, 3, 4] false, .read 0 none [[0x31], [0x32]],
          .check 0, .connect [1, 2, 3, 4] true, .ban [1, 2, 3, 4] (seconds 60)] = some s ∧
      run (step banningSettings fun _ => .ok (some ())) s
        [.handle 0, .check 1, .accept [1, 2, 3, 4] true, .connect [1, 2, 3, 4] false] = some s' ∧
      s'.connections.length = 2 ∧ s'.connecting = [] ∧
      (∀ n request time, (n, .dispatched request time) ∈ s'.log →
        (n, .dispatched request time) ∉ s.log → s'.source n = some [1, 2, 3, 4] →
        time < seconds 60 → n ∈ s.checked) ∧
      (s'.now < seconds 60 →
        ((s'.connections.map Client.peerAddress).drop s.connections.length).count [1, 2, 3, 4] ≤
          (s.connecting.map Prod.fst).count [1, 2, 3, 4]) := by
  have hquiet : ∀ (s : State Unit) (e : Event), (∀ address duration, e ≠ .ban address duration) →
      (∀ n thrown, e ≠ .finish n thrown) →
      Lasts banningSettings (fun _ => .ok (some ())) [1, 2, 3, 4] (seconds 60) s e :=
    fun s e hban hfinish => by
      refine ⟨fun duration he => absurd he (hban _ duration), fun hjunk => ?_⟩
      cases e with
      | handle n =>
        obtain ⟨-, i, data, -, -, hthrown⟩ := hjunk
        exact absurd hthrown (by simp)
      | finish n thrown => exact absurd rfl (hfinish n thrown)
      | _ => exact hjunk.elim
  refine ⟨_, _, rfl, rfl, rfl, rfl, @ban_holds Unit banningSettings (fun _ => .ok (some ())) _ _
    0 0 (fun _ => none)
    [.connect [1, 2, 3, 4] false, .accept [1, 2, 3, 4] false, .read 0 none [[0x31], [0x32]],
      .check 0, .connect [1, 2, 3, 4] true, .ban [1, 2, 3, 4] (seconds 60)]
    [.handle 0, .check 1, .accept [1, 2, 3, 4] true, .connect [1, 2, 3, 4] false]
    [1, 2, 3, 4] (seconds 60) rfl rfl rfl rfl
    ⟨hquiet _ _ ?_ ?_, fun _ _ => ⟨hquiet _ _ ?_ ?_, fun _ _ => ⟨hquiet _ _ ?_ ?_,
      fun _ _ => ⟨hquiet _ _ ?_ ?_, fun _ _ => trivial⟩⟩⟩⟩⟩
  all_goals simp

end Runs

end AionPool.Stratum1.StratumServer
