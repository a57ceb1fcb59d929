import Mathlib.Data.List.Infix

/-!
# Observables

An observable over the events `ε` of a system says what it does at an event: which effects it
performs and which values it emits, given the events since it was subscribed. The first of them is
the one it was subscribed at, the last the present one.

* `timer`, `fromEvent`, `takeUntil`, `take`, `filter`, `select`: none of them performs an effect of
  its own (`effects_select` and its like).
* `fromAsync`: cold; its effect is performed at the event it is subscribed at.
* `merge` subscribes to the observables that an observable emits; **`effects_merge_select`**: of
  cold ones, each is performed when it is emitted. Without a `merge` nothing subscribes to them.
-/

namespace AionPool.Lib.Rx

/-- What happens at an event. -/
structure Reaction (ω α : Type*) where
  effects : List ω
  values : List α

/-- No effect and no value. -/
def Reaction.none {ω α : Type*} : Reaction ω α := ⟨[], []⟩

/-- What an observable does at the last of the events since it was subscribed. -/
abbrev Observable (ε ω α : Type*) := List ε → Reaction ω α

namespace Observable

variable {ε ω α β : Type*}

/-- A stream of the system itself. -/
def fromEvent (f : ε → Option α) : Observable ε ω α := fun es =>
  ⟨[], (es.getLast?.bind f).toList⟩

/-- One value, when it expires for the first time. -/
def timer (expires : ε → Bool) : Observable ε ω Unit := fun es =>
  match es.getLast? with
  | none => .none
  | some e => if expires e && !es.dropLast.any expires then ⟨[], [()]⟩ else .none

/-- The observable has emitted a value. -/
def emitted (o : Observable ε ω α) (es : List ε) : Bool :=
  es.inits.any fun p => !(o p).values.isEmpty

/-- `TakeUntil`: silent from the first value of `stop` on. -/
def takeUntil (o : Observable ε ω α) (stop : Observable ε ω β) : Observable ε ω α := fun es =>
  if stop.emitted es.dropLast then .none
  else if (stop es).values.isEmpty then ⟨(stop es).effects ++ (o es).effects, (o es).values⟩
  else ⟨(stop es).effects, []⟩

/-- `Take`: the first `n` values. -/
def take (n : ℕ) (o : Observable ε ω α) : Observable ε ω α := fun es =>
  let earlier := (es.dropLast.inits.flatMap fun p => (o p).values).length
  if earlier < n then ⟨(o es).effects, (o es).values.take (n - earlier)⟩ else .none

/-- `Where`, of a condition that reads the system at the present event. -/
def filter (p : ε → Bool) (o : Observable ε ω α) : Observable ε ω α := fun es =>
  ⟨(o es).effects, (o es).values.filter fun _ => es.getLast?.any p⟩

/-- `Select`. -/
def select (f : α → β) (o : Observable ε ω α) : Observable ε ω β := fun es =>
  ⟨(o es).effects, (o es).values.map f⟩

/-- `FromAsync`. -/
def fromAsync (effect : ω) : Observable ε ω Unit := fun es =>
  if es.length = 1 then ⟨[effect], [()]⟩ else .none

/-- `Merge`; `Concat` is the same while no two of the inner observables run at a time. -/
def merge (o : Observable ε ω (Observable ε ω α)) : Observable ε ω α := fun es =>
  let inner := es.inits.flatMap fun p =>
    (o p).values.map fun inner => inner (es.drop (p.length - 1))
  ⟨(o es).effects ++ inner.flatMap Reaction.effects, inner.flatMap Reaction.values⟩

/-! ## Observables without effects -/

/-- The observable performs no effects. -/
def Silent (o : Observable ε ω α) : Prop := ∀ es, (o es).effects = []

variable {o : Observable ε ω α}

theorem silent_fromEvent (f : ε → Option α) : (fromEvent f : Observable ε ω α).Silent :=
  fun _ => rfl

theorem silent_timer (expires : ε → Bool) : (timer expires : Observable ε ω Unit).Silent := by
  intro es
  unfold timer
  split
  · rfl
  · split <;> rfl

theorem Silent.takeUntil (h : o.Silent) {stop : Observable ε ω β} (h' : stop.Silent) :
    (o.takeUntil stop).Silent := by
  intro es
  unfold Observable.takeUntil
  split
  · rfl
  · split
    · dsimp only
      rw [h es, h' es, List.append_nil]
    · exact h' es

theorem Silent.take (h : o.Silent) (n : ℕ) : (o.take n).Silent := by
  intro es
  unfold Observable.take
  dsimp only
  split
  · exact h es
  · rfl

theorem Silent.filter (h : o.Silent) (p : ε → Bool) : (o.filter p).Silent := fun es => h es

/-- `Select` only maps the values: what is built by it is not subscribed. -/
theorem Silent.select (h : o.Silent) (f : α → β) : (o.select f).Silent := fun es => h es

/-! ## What is emitted -/

/-- A stream of the system has emitted if some event was one of its own. -/
theorem emitted_fromEvent (f : ε → Option α) (es : List ε) :
    (fromEvent f : Observable ε ω α).emitted es = es.any fun e => (f e).isSome := by
  induction es using List.reverseRecOn with
  | nil => rfl
  | append_singleton es e ih =>
    unfold emitted at ih ⊢
    rw [List.inits_append, List.any_append, ih, List.any_append]
    cases h : f e <;> simp [fromEvent, h]

/-- Before its stream stops it, an observable is as it was. -/
theorem values_takeUntil_fromEvent (o : Observable ε ω α) (f : ε → Option β) (es : List ε) :
    (o.takeUntil (fromEvent f) es).values =
      if es.any (fun e => (f e).isSome) then [] else (o es).values := by
  unfold takeUntil
  rw [emitted_fromEvent]
  induction es using List.reverseRecOn with
  | nil => rfl
  | append_singleton es e =>
    rw [List.dropLast_concat, List.any_append]
    cases hes : es.any fun e => (f e).isSome with
    | true => simp [Reaction.none]
    | false => cases h : f e <;> simp [fromEvent, h]

/-- An observable that emits one value at most is not cut by `Take(1)`. -/
theorem values_take_one (o : Observable ε ω Unit) (es : List ε)
    (h : (o es).values ≠ [] → (o es).values = [()] ∧ ∀ p ∈ es.dropLast.inits, (o p).values = []) :
    (o.take 1 es).values = (o es).values := by
  unfold take
  dsimp only
  by_cases hv : (o es).values = []
  · rw [hv, List.take_nil]
    split <;> rfl
  · obtain ⟨hone, hearlier⟩ := h hv
    have hnil : (es.dropLast.inits.flatMap fun p => (o p).values) = [] :=
      List.flatMap_eq_nil_iff.mpr hearlier
    rw [hnil, List.length_nil, if_pos Nat.one_pos, hone]
    rfl

theorem values_timer_concat (expires : ε → Bool) (es : List ε) (e : ε) :
    (timer expires (es ++ [e]) : Reaction ω Unit).values =
      if expires e && !es.any expires then [()] else [] := by
  unfold timer
  rw [List.getLast?_concat, List.dropLast_concat]
  dsimp only
  split <;> rfl

/-- A timer emits nothing before it expires. -/
theorem values_timer_of_prefix {expires : ε → Bool} {es p : List ε}
    (hes : es.any expires = false) (hp : p <+: es) :
    (timer expires p : Reaction ω Unit).values = [] := by
  induction p using List.reverseRecOn with
  | nil => rfl
  | append_singleton p e =>
    rw [values_timer_concat]
    have he : expires e = false := by
      have hmem : e ∈ es := hp.subset (List.mem_append_right p (List.mem_singleton_self e))
      exact Bool.eq_false_iff.mpr fun h =>
        Bool.eq_false_iff.mp hes (List.any_eq_true.mpr ⟨e, hmem, h⟩)
    rw [he]
    rfl

/-- **What a timer that is awaited emits**: its value, if it expires for the first time and before
the stream that stops it. -/
theorem values_take_one_takeUntil_timer (expires : ε → Bool) (f : ε → Option β) (es : List ε)
    (e : ε) :
    (((timer expires).takeUntil (fromEvent f)).take 1 (es ++ [e]) : Reaction ω Unit).values =
      if (expires e && !es.any expires && !(es ++ [e]).any fun e => (f e).isSome) = true then [()]
      else [] := by
  have hvalues : ∀ es' : List ε,
      ((timer expires).takeUntil (fromEvent f) es' : Reaction ω Unit).values =
        if es'.any (fun e => (f e).isSome) then []
        else (timer expires es' : Reaction ω Unit).values :=
    values_takeUntil_fromEvent (timer expires) f
  rw [values_take_one]
  · rw [hvalues, values_timer_concat]
    cases (es ++ [e]).any fun e => (f e).isSome <;> cases expires e && !es.any expires <;> rfl
  · intro h
    rw [hvalues, values_timer_concat] at h ⊢
    split at h
    · exact absurd rfl h
    · rename_i hstop
      split at h
      · rename_i hnow
        rw [if_neg hstop, if_pos hnow]
        refine ⟨rfl, fun p hp => ?_⟩
        rw [List.dropLast_concat] at hp
        rw [hvalues]
        split
        · rfl
        · rw [Bool.and_eq_true, Bool.not_eq_true'] at hnow
          exact values_timer_of_prefix hnow.2 ((List.mem_inits p es).mp hp)
      · exact absurd rfl h

/-- A cold observable performs its effect when it is subscribed, and never again. -/
theorem effects_fromAsync (effect : ω) (es : List ε) :
    (fromAsync effect es : Reaction ω Unit).effects = if es.length = 1 then [effect] else [] := by
  unfold fromAsync
  split <;> rfl

/-- The inner observables that were emitted before the present event. -/
theorem effects_earlier (o : Observable ε ω α) (hnil : (o []).values = []) (effect : ω)
    (es : List ε) (e : ε) :
    (es.inits.flatMap fun p => ((o.select fun _ => fromAsync effect) p).values.map fun inner =>
      (inner ((es ++ [e]).drop (p.length - 1)) : Reaction ω Unit)).flatMap
        Reaction.effects = [] := by
  refine List.flatMap_eq_nil_iff.mpr fun r hr => ?_
  obtain ⟨p, hp, hr⟩ := List.mem_flatMap.mp hr
  obtain ⟨inner, hinner, rfl⟩ := List.mem_map.mp hr
  obtain ⟨v, hv, rfl⟩ := List.mem_map.mp hinner
  have hlen : p.length ≤ es.length := ((List.mem_inits p es).mp hp).length_le
  have hpos : 0 < p.length := by
    cases p with
    | nil =>
      rw [hnil] at hv
      exact absurd hv List.not_mem_nil
    | cons => exact Nat.succ_pos _
  rw [effects_fromAsync, if_neg]
  rw [List.length_drop, List.length_append, List.length_singleton]
  omega

/-- **Cold observables are performed when they are emitted**, once they are merged. -/
theorem effects_merge_select (o : Observable ε ω α) (h : o.Silent) (hnil : (o []).values = [])
    (effect : ω) (es : List ε) :
    ((o.select fun _ => fromAsync effect).merge es).effects =
      (o es).values.map fun _ => effect := by
  induction es using List.reverseRecOn with
  | nil => simp [merge, select, h [], hnil]
  | append_singleton es e =>
    have hinits : (es ++ [e]).inits = es.inits ++ [es ++ [e]] := by
      rw [List.inits_append]
      rfl
    unfold merge
    dsimp only
    rw [hinits, List.flatMap_append, List.flatMap_append, effects_earlier o hnil,
      h.select _ (es ++ [e]), List.nil_append, List.nil_append, List.flatMap_cons, List.flatMap_nil,
      List.append_nil, List.length_append, List.length_singleton, Nat.add_sub_cancel,
      List.drop_left, List.flatMap_map]
    unfold select
    rw [List.flatMap_map]
    exact List.map_eq_flatMap.symm

end Observable

end AionPool.Lib.Rx
