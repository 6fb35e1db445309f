import Mathlib.Data.List.Induction

/-!
# Runs of a partial machine

A machine takes an input in a state and either refuses it or moves to a next
state with an output.  A run feeds it a list of inputs and fails when one of
them is refused.  The trace of a run pairs each input with its output, so
that an invariant may speak about everything that has happened so far.
-/

namespace Machine

variable {σ α β : Type*} (step : σ → α → Option (σ × β))

/-- The state after these inputs, and the trace. -/
def run (s : σ) : List α → Option (σ × List (α × β))
  | [] => some (s, [])
  | a :: as =>
      (step s a).bind fun (m, b) =>
        (run m as).map fun (t, trace) => (t, (a, b) :: trace)

/-- Every input that the run reaches is given in a state where `ok` holds. -/
def Along (ok : σ → α → Prop) (s : σ) : List α → Prop
  | [] => True
  | a :: as => ok s a ∧ ∀ m b, step s a = some (m, b) → Along ok m as

variable {step}

instance decidableAlong {ok : σ → α → Prop} [∀ s a, Decidable (ok s a)] :
    ∀ s as, Decidable (Along step ok s as)
  | _, [] => isTrue trivial
  | s, a :: as =>
      match taken : step s a with
      | none => decidable_of_iff (ok s a)
          ⟨fun allowed => ⟨allowed, fun m b stepped => by simp [taken] at stepped⟩,
            And.left⟩
      | some (m, _) =>
          have : Decidable (Along step ok m as) := decidableAlong m as
          decidable_of_iff (ok s a ∧ Along step ok m as) (by
            simp only [Along, taken, Option.some.injEq, Prod.mk.injEq]
            constructor
            · rintro ⟨allowed, later⟩
              exact ⟨allowed, fun _ _ same => same.1 ▸ later⟩
            · rintro ⟨allowed, later⟩
              exact ⟨allowed, later m _ ⟨rfl, rfl⟩⟩)

theorem run_cons_eq_some {s t : σ} {a : α} {as : List α}
    {trace : List (α × β)} :
    run step s (a :: as) = some (t, trace) ↔
      ∃ m b rest, step s a = some (m, b) ∧ run step m as = some (t, rest) ∧
        trace = (a, b) :: rest := by
  constructor
  · intro ran
    simp only [run, Option.bind_eq_some_iff, Option.map_eq_some_iff,
      Prod.exists, Prod.mk.injEq] at ran
    obtain ⟨m, b, stepped, t, rest, continued, rfl, rfl⟩ := ran
    exact ⟨m, b, rest, stepped, continued, rfl⟩
  · rintro ⟨m, b, rest, stepped, continued, rfl⟩
    simp [run, stepped, continued]

theorem run_append_eq_some {s t : σ} {as more : List α}
    {trace : List (α × β)} :
    run step s (as ++ more) = some (t, trace) ↔
      ∃ m before after, run step s as = some (m, before) ∧
        run step m more = some (t, after) ∧ trace = before ++ after := by
  induction as generalizing s trace with
  | nil => simp [run]
  | cons a as ih =>
      simp only [List.cons_append, run_cons_eq_some, ih]
      constructor
      · rintro ⟨m, b, _, stepped, ⟨n, before, after, ran, rest, rfl⟩, rfl⟩
        exact ⟨n, _, after, ⟨m, b, before, stepped, ran, rfl⟩, rest, rfl⟩
      · rintro ⟨n, _, after, ⟨m, b, before, stepped, ran, rfl⟩, rest, rfl⟩
        exact ⟨m, b, _, stepped, ⟨n, before, after, ran, rest, rfl⟩, rfl⟩

theorem run_singleton_eq_some {s t : σ} {a : α} {trace : List (α × β)} :
    run step s [a] = some (t, trace) ↔
      ∃ b, step s a = some (t, b) ∧ trace = [(a, b)] := by
  rw [run_cons_eq_some]
  constructor
  · rintro ⟨m, b, rest, stepped, finished, rfl⟩
    obtain ⟨rfl, rfl⟩ : m = t ∧ [] = rest := by simpa [run] using finished
    exact ⟨b, stepped, rfl⟩
  · rintro ⟨b, stepped, rfl⟩
    exact ⟨t, b, [], stepped, rfl, rfl⟩

theorem run_concat {s m t : σ} {as : List α} {a : α} {b : β} {trace : List (α × β)}
    (ran : run step s as = some (m, trace)) (stepped : step m a = some (t, b)) :
    run step s (as ++ [a]) = some (t, trace ++ [(a, b)]) :=
  run_append_eq_some.mpr
    ⟨m, trace, [(a, b)], ran, run_singleton_eq_some.mpr ⟨b, stepped, rfl⟩, rfl⟩

/-- A run that starts as another one goes on from where that one ended. -/
theorem run_continues {s m t : σ} {as more : List α} {before trace : List (α × β)}
    (ran : run step s as = some (m, before))
    (whole : run step s (as ++ more) = some (t, trace)) :
    ∃ after, run step m more = some (t, after) := by
  obtain ⟨n, _, after, ranAgain, continued, _⟩ := run_append_eq_some.mp whole
  cases ran.symm.trans ranAgain
  exact ⟨after, continued⟩

theorem map_fst_run {s t : σ} {as : List α} {trace : List (α × β)}
    (ran : run step s as = some (t, trace)) : trace.map Prod.fst = as := by
  induction as generalizing s trace with
  | nil =>
      obtain ⟨_, rfl⟩ : s = t ∧ [] = trace := by simpa [run] using ran
      rfl
  | cons a as ih =>
      obtain ⟨m, b, rest, _, continued, rfl⟩ := run_cons_eq_some.mp ran
      rw [List.map_cons, ih continued]

theorem along_append {ok : σ → α → Prop} {s : σ} {as more : List α} :
    Along step ok s (as ++ more) ↔
      Along step ok s as ∧
        ∀ m trace, run step s as = some (m, trace) → Along step ok m more := by
  induction as generalizing s with
  | nil => simp [Along, run]
  | cons a as ih =>
      simp only [List.cons_append, Along, ih, run_cons_eq_some]
      constructor
      · rintro ⟨allowed, later⟩
        refine ⟨⟨allowed, fun m b stepped => (later m b stepped).1⟩, ?_⟩
        rintro t _ ⟨m, b, rest, stepped, ran, rfl⟩
        exact (later m b stepped).2 t rest ran
      · rintro ⟨⟨allowed, later⟩, last⟩
        refine ⟨allowed, fun m b stepped => ⟨later m b stepped, ?_⟩⟩
        intro t rest ran
        exact last t _ ⟨m, b, rest, stepped, ran, rfl⟩

/-! ## Invariants of the state and the trace -/

section

variable {motive : List (α × β) → σ → Prop} {ok : σ → α → Prop}

private theorem run_keeps {past : List (α × β)} {s t : σ} {as : List α}
    {trace : List (α × β)}
    (next : ∀ past s a m b, motive past s → ok s a →
      step s a = some (m, b) → motive (past ++ [(a, b)]) m)
    (start : motive past s) (along : Along step ok s as)
    (ran : run step s as = some (t, trace)) : motive (past ++ trace) t := by
  induction as generalizing past s trace with
  | nil =>
      obtain ⟨rfl, rfl⟩ : s = t ∧ [] = trace := by simpa [run] using ran
      simpa using start
  | cons a as ih =>
      obtain ⟨m, b, rest, stepped, continued, rfl⟩ := run_cons_eq_some.mp ran
      obtain ⟨allowed, later⟩ := along
      have after := ih (next past s a m b start allowed stepped)
        (later m b stepped) continued
      simpa using after

/-- What holds at the start and is kept by every allowed step holds after
every run of allowed steps. -/
theorem run_along {s t : σ} {as : List α} {trace : List (α × β)}
    (next : ∀ past s a m b, motive past s → ok s a →
      step s a = some (m, b) → motive (past ++ [(a, b)]) m)
    (start : motive [] s) (along : Along step ok s as)
    (ran : run step s as = some (t, trace)) : motive trace t :=
  run_keeps next start along ran

theorem along_true {s : σ} {as : List α} :
    Along step (fun _ _ => True) s as := by
  induction as generalizing s with
  | nil => trivial
  | cons a as ih => exact ⟨trivial, fun _ _ _ => ih⟩

/-- What holds at the start and is kept by every step holds after every run. -/
theorem run_induct {s t : σ} {as : List α} {trace : List (α × β)}
    (next : ∀ past s a m b, motive past s →
      step s a = some (m, b) → motive (past ++ [(a, b)]) m)
    (start : motive [] s) (ran : run step s as = some (t, trace)) :
    motive trace t :=
  run_along (fun past s a m b kept _ => next past s a m b kept) start
    along_true ran

/-- If, as long as an invariant holds, a step is allowed exactly when its output
is good, then so is a run. -/
theorem along_iff {inv : σ → Prop} {good : β → Prop} {s t : σ} {as : List α}
    {trace : List (α × β)}
    (next : ∀ s a m b, inv s → step s a = some (m, b) → inv m ∧ (ok s a ↔ good b))
    (start : inv s) (ran : run step s as = some (t, trace)) :
    Along step ok s as ↔ ∀ output ∈ trace.map Prod.snd, good output := by
  induction as generalizing s trace with
  | nil =>
      obtain ⟨_, rfl⟩ : s = t ∧ [] = trace := by simpa [run] using ran
      simp [Along]
  | cons a as ih =>
      obtain ⟨m, b, rest, stepped, continued, rfl⟩ := run_cons_eq_some.mp ran
      obtain ⟨kept, allowed⟩ := next s a m b start stepped
      simp only [Along, stepped, Option.some.injEq, Prod.mk.injEq, and_imp,
        List.map_cons, List.forall_mem_cons]
      rw [allowed, ← ih kept continued]
      exact and_congr_right fun _ =>
        ⟨fun later => later m b rfl rfl, fun later _ _ same _ => same ▸ later⟩

/-- If an invariant lets every allowed step be taken, then a run of allowed
steps succeeds. -/
theorem run_of_along {s : σ} {as : List α}
    (next : ∀ past s a, motive past s → ok s a →
      ∃ m b, step s a = some (m, b) ∧ motive (past ++ [(a, b)]) m)
    (start : motive [] s) (along : Along step ok s as) :
    ∃ t trace, run step s as = some (t, trace) ∧ motive trace t := by
  suffices goes : ∀ past s, motive past s → Along step ok s as →
      ∃ t trace, run step s as = some (t, trace) ∧ motive (past ++ trace) t from
    goes [] s start along
  clear start along s
  induction as with
  | nil =>
      intro past s kept _
      exact ⟨s, [], rfl, by simpa using kept⟩
  | cons a as ih =>
      intro past s kept along
      obtain ⟨allowed, later⟩ := along
      obtain ⟨m, b, stepped, after⟩ := next past s a kept allowed
      obtain ⟨t, rest, continued, finished⟩ := ih _ m after (later m b stepped)
      refine ⟨t, (a, b) :: rest, ?_, by simpa using finished⟩
      exact run_cons_eq_some.mpr ⟨m, b, rest, stepped, continued, rfl⟩

/-- If an invariant lets the first `bound` steps be taken, then every run of
at most that length succeeds. -/
theorem run_total {bound : Nat} {s : σ}
    (next : ∀ past s a, past.length < bound → motive past s →
      ∃ m b, step s a = some (m, b) ∧ motive (past ++ [(a, b)]) m)
    (start : motive [] s) (as : List α) (short : as.length ≤ bound) :
    ∃ t trace, run step s as = some (t, trace) ∧ motive trace t := by
  induction as using List.reverseRecOn with
  | nil => exact ⟨s, [], rfl, start⟩
  | append_singleton as a ih =>
      rw [List.length_append, List.length_singleton] at short
      obtain ⟨m, past, ran, kept⟩ := ih (by omega)
      have size : past.length = as.length := by
        rw [← map_fst_run ran, List.length_map]
      obtain ⟨t, b, stepped, after⟩ := next past m a (by omega) kept
      exact ⟨t, past ++ [(a, b)], run_append_eq_some.mpr
        ⟨m, past, _, ran, run_singleton_eq_some.mpr ⟨b, stepped, rfl⟩, rfl⟩, after⟩

end

end Machine
