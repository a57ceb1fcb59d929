import Mathlib.Data.List.Basic

/-!
# Runs of a partial step function

A system is a partial step function `step : σ → ε → Option σ`: the event `e` is enabled in `s`
when `step s e` is some state. The environment's choices (which request fails, what an answer
says, who moves next) are the events, so a statement about every list of events is a statement
about every interleaving and every pattern of failures.

* `run` follows a list of events and is `none` as soon as one of them is not enabled.
* `Along G` says that every event of a run meets `G` in the state it is taken from.
* **`run_invariant`**: what the start satisfies and every guarded step keeps holds at the end of
  every guarded run.
-/

namespace AionPool.Lib.Run

variable {σ ε : Type*} (step : σ → ε → Option σ)

/-- The state after `es`, `none` when one of them is not enabled where it comes. -/
def run : σ → List ε → Option σ
  | s, [] => some s
  | s, e :: es => (step s e).bind fun s' => run s' es

/-- Every event of `es` meets `G` in the state the run takes it from. -/
def Along (G : σ → ε → Prop) : σ → List ε → Prop
  | _, [] => True
  | s, e :: es => G s e ∧ ∀ s', step s e = some s' → Along G s' es

variable {step}

@[simp] theorem run_nil (s : σ) : run step s [] = some s := rfl

theorem run_cons {s s' : σ} {e : ε} {es : List ε} :
    run step s (e :: es) = some s' ↔ ∃ t, step s e = some t ∧ run step t es = some s' := by
  simp only [run, Option.bind_eq_some_iff]

/-- A system whose events are always enabled. -/
theorem run_total (f : σ → ε → σ) (s : σ) (es : List ε) :
    run (fun s e => some (f s e)) s es = some (es.foldl f s) := by
  induction es generalizing s with
  | nil => rfl
  | cons e es ih => exact ih (f s e)

/-- Whether a guard holds along a run can be evaluated. -/
instance decidableAlong {G : σ → ε → Prop} [∀ s e, Decidable (G s e)] :
    ∀ (s : σ) (es : List ε), Decidable (Along step G s es)
  | _, [] => isTrue trivial
  | s, e :: es =>
    match h : step s e with
    | none => decidable_of_iff (G s e)
        ⟨fun hG => ⟨hG, fun s' hs => absurd (h.symm.trans hs) (by simp)⟩, And.left⟩
    | some s' =>
      have : Decidable (Along step G s' es) := decidableAlong s' es
      decidable_of_iff (G s e ∧ Along step G s' es)
        ⟨fun hG => ⟨hG.1, fun t ht => Option.some.inj (h.symm.trans ht) ▸ hG.2⟩,
          fun hG => ⟨hG.1, hG.2 s' h⟩⟩

theorem along_append {G : σ → ε → Prop} {es es' : List ε} {s : σ} :
    Along step G s (es ++ es') ↔
      Along step G s es ∧ ∀ t, run step s es = some t → Along step G t es' := by
  induction es generalizing s with
  | nil => exact ⟨fun h => ⟨trivial, fun t ht => Option.some.inj ht ▸ h⟩, fun h => h.2 s rfl⟩
  | cons e es ih =>
    constructor
    · rintro ⟨hG, hrest⟩
      refine ⟨⟨hG, fun t ht => (ih.mp (hrest t ht)).1⟩, fun u hu => ?_⟩
      obtain ⟨t, ht, hu⟩ := run_cons.mp hu
      exact (ih.mp (hrest t ht)).2 u hu
    · rintro ⟨⟨hG, hrest⟩, hend⟩
      exact ⟨hG, fun t ht => ih.mpr ⟨hrest t ht, fun u hu => hend u (run_cons.mpr ⟨t, ht, hu⟩)⟩⟩

/-- Guards that agree in every state agree along a run. -/
theorem along_congr {G G' : σ → ε → Prop} (h : ∀ s e, G s e ↔ G' s e) :
    ∀ {s : σ} {es : List ε}, Along step G s es ↔ Along step G' s es
  | _, [] => Iff.rfl
  | s, e :: _ => and_congr (h s e) (forall_congr' fun _ => imp_congr_right fun _ => along_congr h)

/-- **The invariant rule.** -/
theorem run_invariant {I : σ → Prop} {G : σ → ε → Prop}
    (hstep : ∀ s e s', I s → G s e → step s e = some s' → I s') :
    ∀ {es : List ε} {s s' : σ}, I s → Along step G s es → run step s es = some s' → I s'
  | [], s, s', hI, _, h => by
    obtain rfl : s = s' := Option.some.inj h
    exact hI
  | e :: es, s, s', hI, hG, h => by
    obtain ⟨t, ht, hr⟩ := run_cons.mp h
    exact run_invariant hstep (hstep s e t hI hG.1 ht) (hG.2 t ht) hr

/-- What the invariant and the guard give of each step holds along every guarded run. -/
theorem along_of_invariant {I : σ → Prop} {G P : σ → ε → Prop} (hP : ∀ s e, I s → G s e → P s e)
    (hstep : ∀ s e s', I s → G s e → step s e = some s' → I s') :
    ∀ {es : List ε} {s : σ}, I s → Along step G s es → Along step P s es
  | [], _, _, _ => trivial
  | e :: _, s, hI, hG => ⟨hP s e hI hG.1, fun s' hs =>
      along_of_invariant hP hstep (hstep s e s' hI hG.1 hs) (hG.2 s' hs)⟩

/-- A guard that every event meets holds along every run. -/
theorem along_of_forall {G : σ → ε → Prop} (h : ∀ s e, G s e) :
    ∀ (s : σ) (es : List ε), Along step G s es
  | _, [] => trivial
  | s, e :: es => ⟨h s e, fun s' _ => along_of_forall h s' es⟩

/-- A guard on the event alone holds along a run when every event of the run meets it. -/
theorem along_of_forall_mem {G : ε → Prop} :
    ∀ {s : σ} {es : List ε}, (∀ e ∈ es, G e) → Along step (fun _ e => G e) s es
  | _, [], _ => trivial
  | _, e :: _, h => ⟨h e List.mem_cons_self, fun _ _ =>
      along_of_forall_mem fun e' he => h e' (List.mem_cons_of_mem e he)⟩

/-- What every step keeps needs no guard. -/
theorem run_invariant_of_step {I : σ → Prop}
    (hstep : ∀ s e s', I s → step s e = some s' → I s') {es : List ε} {s s' : σ} (hI : I s)
    (hrun : run step s es = some s') : I s' :=
  run_invariant (G := fun _ _ => True) (fun s e s' hI _ h => hstep s e s' hI h) hI
    (along_of_forall (fun _ _ => trivial) s es) hrun

end AionPool.Lib.Run
