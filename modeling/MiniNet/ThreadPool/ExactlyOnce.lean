import MiniNet.ThreadPool
import Mathlib.Tactic.Abel

/-!
# Every accepted task is executed once

What has been taken off the queue, followed by what is still on it, is what
was accepted, in that order.  A taken task is held by one worker until it is
called.  Once the destructor has woken the sleepers, every further step of a
worker brings the end of the joins nearer.
-/

namespace MiniNet

namespace ThreadPool

variable {ι τ : Type*} [Fintype ι]

/-! ## What the workers hold -/

/-- The task that a worker has taken and not yet called. -/
def held : Worker τ → Multiset (Task τ)
  | .holding task => {task}
  | _ => 0

/-- The steps a worker has before it in any case. -/
def toGo : Worker τ → Nat
  | .ready => 1
  | .waiting => 1
  | .holding _ => 3
  | .executing _ => 2
  | .returned => 0

/-- Bounds the steps of the workers when no more tasks come in. -/
def rank (s : ThreadPool ι τ) : Nat := 4 * s.tasks.length + ∑ w, toGo (s.workers w)

/-! ## The invariant -/

structure Inv (s : ThreadPool ι τ) : Prop where
  order : s.taken ++ s.tasks = s.accepted
  kept : (∑ w, held (s.workers w)) + s.executed = (s.taken : Multiset (Task τ))
  numbered : ∀ task ∈ s.accepted ++ s.refused, task.1 < s.submits
  distinct : (s.accepted ++ s.refused).Nodup
  returned : ∀ w, s.workers w = .returned → s.stop = true ∧ s.tasks = []
  alive : s.stop = false ↔ s.destructor = .alive
  awake : s.destructor = .joining ∨ s.destructor = .joined →
    ∀ w, asleep (s.workers w) = false
  joined : s.destructor = .joined → ∀ w, s.workers w = .returned
  woken : (∀ w, asleep (s.workers w) = true) → s.tasks.length ≤ s.notifies

theorem inv_initial : Inv (initial : ThreadPool ι τ) where
  order := rfl
  kept := by simp [initial, held]
  numbered := fun task member => (by cases member)
  distinct := List.nodup_nil
  returned := fun w same => (by cases same)
  alive := by simp [initial]
  awake := fun done => (by rcases done with same | same <;> cases same)
  joined := fun same => (by cases same)
  woken := fun _ => Nat.le_refl 0

section

variable {s t : ThreadPool ι τ}

theorem Inv.submit (inv : Inv s) (f : τ) : Inv (s.submit f) := by
  have larger : ∀ task ∈ s.accepted ++ s.refused, task.1 < s.submits + 1 :=
    fun task member => Nat.lt_succ_of_lt (inv.numbered task member)
  have fresh : ∀ task ∈ s.accepted ++ s.refused, task ≠ (s.submits, f) := by
    rintro task member rfl
    exact Nat.lt_irrefl _ (inv.numbered _ member)
  unfold ThreadPool.submit
  simp only
  split
  · have grown : (s.accepted ++ (s.refused ++ [(s.submits, f)])).Nodup := by
      rw [← List.append_assoc]
      refine List.nodup_append.mpr ⟨inv.distinct, List.nodup_singleton _, ?_⟩
      intro task member other new
      rw [List.mem_singleton.mp new]
      exact fresh task member
    refine { inv with numbered := ?_, distinct := grown }
    intro task member
    rw [← List.append_assoc] at member
    rcases List.mem_append.mp member with old | new
    · exact larger task old
    · rw [List.mem_singleton.mp new]
      exact Nat.lt_succ_self _
  · rename_i running
    have notStopped : s.stop = false := Bool.eq_false_iff.mpr running
    have regrouped : (s.accepted ++ [(s.submits, f)] ++ s.refused).Perm
        ((s.submits, f) :: (s.accepted ++ s.refused)) := by
      rw [List.append_assoc]
      exact List.perm_middle
    refine { inv with
      order := by rw [← List.append_assoc, inv.order]
      numbered := ?_
      distinct := ?_
      returned := ?_
      woken := ?_ }
    · intro task member
      rcases List.mem_cons.mp (regrouped.subset member) with rfl | old
      · exact Nat.lt_succ_self _
      · exact larger task old
    · rw [regrouped.nodup_iff, List.nodup_cons]
      exact ⟨fun member => fresh _ member rfl, inv.distinct⟩
    · intro w same
      cases notStopped.symm.trans (inv.returned w same).1
    · intro all
      rw [List.length_append, List.length_singleton]
      exact Nat.succ_le_succ (inv.woken all)

theorem Inv.stop (inv : Inv s) :
    Inv { s with stop := true, destructor := .stopping } :=
  { inv with
    returned := fun w gone => ⟨rfl, (inv.returned w gone).2⟩
    alive := by simp
    awake := fun done => (by rcases done with same | same <;> cases same)
    joined := fun same => (by cases same) }

theorem Inv.notifyAll [Nonempty ι] (inv : Inv s) (stopping : s.destructor = .stopping) :
    Inv { s with workers := fun w => wake (s.workers w), destructor := .joining } := by
  have sameHeld : ∀ worker : Worker τ, held (wake worker) = held worker := by
    intro worker
    cases worker <;> rfl
  have isAwake : ∀ worker : Worker τ, asleep (wake worker) = false := by
    intro worker
    cases worker <;> rfl
  have notAlive : s.stop ≠ false := by
    intro running
    cases stopping.symm.trans (inv.alive.mp running)
  refine { inv with
    kept := ?_
    returned := ?_
    alive := iff_of_false notAlive fun same => (by cases same)
    awake := fun _ w => isAwake _
    joined := fun same => (by cases same)
    woken := ?_ }
  · simp only [sameHeld]
    exact inv.kept
  · intro w gone
    refine inv.returned w ?_
    cases worker : s.workers w with
    | returned => rfl
    | ready | waiting | holding task | executing task =>
        simp only [worker, wake] at gone
        cases gone
  · intro all
    obtain ⟨w⟩ := ‹Nonempty ι›
    cases (all w).symm.trans (isAwake _)

theorem Inv.join (inv : Inv s) (joining : s.destructor = .joining)
    (all : ∀ w, hasReturned (s.workers w) = true) : Inv { s with destructor := .joined } := by
  refine { inv with
    alive := ?_
    awake := fun _ => inv.awake (.inl joining)
    joined := ?_ }
  · rw [inv.alive, joining]
    exact iff_of_false (fun same => (by cases same)) fun same => (by cases same)
  · intro _ w
    have gone := all w
    cases worker : s.workers w with
    | returned => rfl
    | ready | waiting | holding task | executing task =>
        rw [worker] at gone
        cases gone

variable [DecidableEq ι]

/-- A step of one worker. -/
theorem Inv.move (inv : Inv s) {w : ι} {worker : Worker τ} {tasks taken executed : List (Task τ)}
    {notifies : Nat} (order : taken ++ tasks = s.accepted)
    (balance : (taken : Multiset (Task τ)) + (held (s.workers w) + s.executed) =
      s.taken + (held worker + executed))
    (fewer : s.tasks = [] → tasks = [])
    (leaves : worker = .returned → s.stop = true ∧ tasks = [])
    (sleeps : asleep worker = true → s.stop = false ∧ tasks = [])
    (running : s.workers w ≠ .returned) :
    Inv { s with
      workers := Function.update s.workers w worker
      tasks := tasks
      taken := taken
      executed := executed
      notifies := notifies } := by
  have stopped : s.destructor = .joining ∨ s.destructor = .joined → s.stop = true := by
    intro done
    by_contra still
    have alive := inv.alive.mp (Bool.eq_false_iff.mpr still)
    rw [alive] at done
    rcases done with same | same <;> cases same
  refine { inv with
    order := order, kept := ?_, returned := ?_, awake := ?_, joined := ?_, woken := ?_ }
  · have moved := Family.sum_update (fun _ => held) s.workers w worker
    apply add_right_cancel (b := held (s.workers w) + (s.executed : Multiset (Task τ)))
    calc
      (∑ u, held (Function.update s.workers w worker u)) + (executed : Multiset (Task τ)) +
            (held (s.workers w) + s.executed)
          = (∑ u, held (Function.update s.workers w worker u)) + held (s.workers w) +
              (s.executed + executed) := by abel
      _ = (∑ u, held (s.workers u)) + s.executed + (held worker + executed) := by
          rw [moved]
          abel
      _ = (taken : Multiset (Task τ)) + (held (s.workers w) + s.executed) := by
          rw [inv.kept, balance]
  · refine Function.forall_update_iff s.workers
      (p := fun _ worker => worker = .returned → s.stop = true ∧ tasks = []) |>.mpr ⟨leaves, ?_⟩
    intro u _ gone
    obtain ⟨isStopped, empty⟩ := inv.returned u gone
    exact ⟨isStopped, fewer empty⟩
  · intro done
    refine Function.forall_update_iff s.workers
      (p := fun _ worker => asleep worker = false) |>.mpr ⟨?_, fun u _ => inv.awake done u⟩
    by_contra sleeping
    cases (sleeps (Bool.not_eq_false _ ▸ sleeping)).1.symm.trans (stopped done)
  · intro done
    exact absurd (inv.joined done w) running
  · intro all
    have mine : asleep (Function.update s.workers w worker w) = true := all w
    rw [Function.update_self] at mine
    simp only [(sleeps mine).2]
    exact Nat.zero_le _

theorem Inv.work (inv : Inv s) {w : ι} (worked : s.work w = some t) : Inv t := by
  unfold ThreadPool.work at worked
  split at worked
  · rename_i ready
    have running : s.workers w ≠ .returned := by
      rw [ready]
      exact fun same => (by cases same)
    cases worked
    unfold take
    split
    · rename_i empty
      split
      · rename_i stopped
        exact inv.move inv.order (by rw [ready]; rfl) id (fun _ => ⟨stopped, empty⟩)
          (fun same => (by cases same)) running
      · rename_i notStopped
        exact inv.move inv.order (by rw [ready]; rfl) id (fun same => (by cases same))
          (fun _ => ⟨Bool.eq_false_iff.mpr notStopped, empty⟩) running
    · rename_i task rest queue
      refine inv.move ?_ ?_ ?_ (fun same => (by cases same)) (fun same => (by cases same))
        running
      · rw [List.append_assoc, ← inv.order, queue]
        rfl
      · rw [ready, ← Multiset.coe_add, Multiset.coe_singleton]
        simp only [held]
        abel
      · rw [queue]
        exact fun same => (by cases same)
  · cases worked
  · rename_i task holding
    cases worked
    refine inv.move inv.order ?_ id (fun same => (by cases same))
      (fun same => (by cases same)) ?_
    · rw [holding, ← Multiset.coe_add, Multiset.coe_singleton]
      simp only [held, setWorker]
      abel
    · rw [holding]
      exact fun same => (by cases same)
  · rename_i task executing
    cases worked
    refine inv.move inv.order ?_ id (fun same => (by cases same))
      (fun same => (by cases same)) ?_
    · rw [executing]
      rfl
    · rw [executing]
      exact fun same => (by cases same)
  · cases worked

theorem Inv.wakeOne (inv : Inv s) {w : ι} (sleeper : asleep (s.workers w) = true)
    (notifies : Nat) :
    Inv { s with workers := Function.update s.workers w .ready, notifies := notifies } := by
  have was : s.workers w = .waiting := by
    cases worker : s.workers w with
    | waiting => rfl
    | ready | holding task | executing task | returned =>
        rw [worker] at sleeper
        cases sleeper
  refine inv.move inv.order ?_ id (fun same => (by cases same)) (fun same => (by cases same)) ?_
  · rw [was]
    rfl
  · rw [was]
    exact fun same => (by cases same)

theorem Inv.step [Nonempty ι] {a : Action ι τ} {u : Unit} (inv : Inv s)
    (stepped : step s a = some (t, u)) : Inv t := by
  cases a with
  | submit f =>
      cases stepped
      exact inv.submit f
  | notifyOne sleeper =>
      cases sleeper with
      | none =>
          obtain ⟨⟨_, nobody⟩, same⟩ := Option.ite_none_right_eq_some.mp stepped
          cases same
          refine { inv with woken := fun all => ?_ }
          obtain ⟨w⟩ := ‹Nonempty ι›
          cases (all w).symm.trans (nobody w)
      | some w =>
          obtain ⟨⟨_, sleeper⟩, same⟩ := Option.ite_none_right_eq_some.mp stepped
          cases same
          exact inv.wakeOne sleeper _
  | spurious w =>
      obtain ⟨sleeper, same⟩ := Option.ite_none_right_eq_some.mp stepped
      cases same
      exact inv.wakeOne sleeper _
  | work w =>
      obtain ⟨m, worked, same⟩ := Option.map_eq_some_iff.mp stepped
      cases same
      exact inv.work worked
  | stop =>
      obtain ⟨_, same⟩ := Option.ite_none_right_eq_some.mp stepped
      cases same
      exact inv.stop
  | notifyAll =>
      obtain ⟨stopping, same⟩ := Option.ite_none_right_eq_some.mp stepped
      cases same
      exact inv.notifyAll stopping
  | join =>
      obtain ⟨⟨joining, all⟩, same⟩ := Option.ite_none_right_eq_some.mp stepped
      cases same
      exact inv.join joining all

/-! ## The joins come to an end -/

/-- The effect of a worker's step on the sum of the steps to go. -/
theorem sum_toGo {w : ι} {old : Worker τ} (was : s.workers w = old) (new : Worker τ) :
    (∑ u, toGo (Function.update s.workers w new u)) + toGo old =
      (∑ u, toGo (s.workers u)) + toGo new := by
  rw [← was]
  exact Family.sum_update (fun _ => toGo) s.workers w new

/-- After the stop every step of a worker counts. -/
theorem rank_work {w : ι} (stopped : s.stop = true) (worked : s.work w = some t) :
    t.stop = true ∧ t.destructor = s.destructor ∧ rank t < rank s := by
  unfold ThreadPool.work at worked
  split at worked
  · rename_i ready
    cases worked
    unfold take
    split
    · rename_i empty
      rw [if_pos stopped]
      have change : _ + 1 = _ + 0 := sum_toGo ready .returned
      refine ⟨stopped, rfl, ?_⟩
      simp only [rank, setWorker]
      omega
    · rename_i task rest queue
      have change : _ + 1 = _ + 3 := sum_toGo ready (.holding task)
      refine ⟨stopped, rfl, ?_⟩
      simp only [rank, setWorker, queue, List.length_cons]
      omega
  · cases worked
  · rename_i task holding
    cases worked
    have change : _ + 3 = _ + 2 := sum_toGo holding (.executing task)
    refine ⟨stopped, rfl, ?_⟩
    simp only [rank, setWorker]
    omega
  · rename_i task executing
    cases worked
    have change : _ + 2 = _ + 1 := sum_toGo executing .ready
    refine ⟨stopped, rfl, ?_⟩
    simp only [rank, setWorker]
    omega
  · cases worked

/-- The steps of workers alone. -/
def Working (actions : List (Action ι τ)) : Prop := ∀ a ∈ actions, ∃ w, a = .work w

theorem length_le_rank [Nonempty ι] {actions : List (Action ι τ)}
    {trace : List (Action ι τ × Unit)} (inv : Inv s) (joining : s.destructor = .joining)
    (working : Working actions) (ran : Machine.run step s actions = some (t, trace)) :
    Inv t ∧ t.destructor = .joining ∧ actions.length + rank t ≤ rank s := by
  induction actions generalizing s trace with
  | nil =>
      obtain ⟨rfl, rfl⟩ : s = t ∧ [] = trace := by simpa [Machine.run] using ran
      exact ⟨inv, joining, by simp⟩
  | cons a actions ih =>
      obtain ⟨m, u, rest, stepped, continued, rfl⟩ := Machine.run_cons_eq_some.mp ran
      obtain ⟨w, rfl⟩ := working a List.mem_cons_self
      obtain ⟨_, worked, same⟩ := Option.map_eq_some_iff.mp stepped
      cases same
      have stopped : s.stop = true := by
        by_contra running
        cases joining.symm.trans (inv.alive.mp (Bool.eq_false_iff.mpr running))
      obtain ⟨_, same, less⟩ := rank_work stopped worked
      obtain ⟨invT, joiningT, shorter⟩ := ih (inv.work worked) (same.trans joining)
        (fun b member => working b (List.mem_cons_of_mem _ member)) continued
      refine ⟨invT, joiningT, ?_⟩
      rw [List.length_cons]
      omega

/-- A worker that cannot go on during the joins has returned. -/
theorem Inv.returned_of_stuck (inv : Inv s) (joining : s.destructor = .joining) {w : ι}
    (stuck : s.work w = none) : s.workers w = .returned := by
  have isAwake := inv.awake (.inl joining) w
  unfold ThreadPool.work at stuck
  split at stuck
  · cases stuck
  · rename_i waiting
    rw [waiting] at isAwake
    cases isAwake
  · cases stuck
  · cases stuck
  · rename_i gone
    exact gone

/-! ## Exactly once -/

/-- What becomes of the submitted tasks. -/
structure Accounted (s : ThreadPool ι τ) : Prop where
  /-- Tasks are taken in the order of submission. -/
  order : s.taken ++ s.tasks = s.accepted
  /-- Only accepted tasks are executed, each at most once. -/
  once : s.executed.Nodup ∧ s.executed ⊆ s.accepted
  refused : ∀ task ∈ s.refused, task ∉ s.executed
  returned : ∀ w, s.workers w = .returned → s.tasks = []
  /-- A task on the queue is not forgotten by a pool that sleeps. -/
  noticed : s.tasks ≠ [] → (∃ w, asleep (s.workers w) = false) ∨ 0 < s.notifies
  /-- During the joins the workers come to an end, and then all have returned. -/
  ends : s.destructor = .joining → ∀ actions t trace, Working actions →
    Machine.run step s actions = some (t, trace) →
      actions.length ≤ rank s ∧
        ((∀ w, t.work w = none) → ∀ w, t.workers w = .returned)
  joined : s.destructor = .joined → s.executed.Perm s.accepted

theorem Inv.accounted [Nonempty ι] (inv : Inv s) : Accounted s := by
  have inTaken : s.executed ⊆ s.taken := by
    intro task member
    have all : task ∈ (∑ w, held (s.workers w)) + (s.executed : Multiset (Task τ)) :=
      Multiset.mem_add.mpr (.inr member)
    rw [inv.kept] at all
    exact all
  have inAccepted : s.executed ⊆ s.accepted := by
    intro task member
    rw [← inv.order]
    exact List.mem_append_left _ (inTaken member)
  have accepted := (List.nodup_append.mp inv.distinct).1
  have takenOnce : s.taken.Nodup := by
    rw [← inv.order] at accepted
    exact (List.nodup_append.mp accepted).1
  exact {
    order := inv.order
    once := by
      refine ⟨?_, inAccepted⟩
      have fewer : (s.executed : Multiset (Task τ)) ≤ s.taken := by
        rw [← inv.kept]
        exact Multiset.le_add_left _ _
      exact Multiset.coe_nodup.mp (Multiset.nodup_of_le fewer (Multiset.coe_nodup.mpr takenOnce))
    refused := by
      intro task wasRefused wasExecuted
      exact (List.nodup_append.mp inv.distinct).2.2 task (inAccepted wasExecuted) task
        wasRefused rfl
    returned := fun w gone => (inv.returned w gone).2
    noticed := by
      intro some_task
      by_contra unnoticed
      obtain ⟨allAsleep, none⟩ := not_or.mp unnoticed
      have few := inv.woken fun w => by
        by_contra awake
        exact allAsleep ⟨w, Bool.eq_false_iff.mpr awake⟩
      have positive := List.length_pos_iff.mpr some_task
      omega
    ends := by
      intro joining actions t trace working ran
      obtain ⟨invT, joiningT, shorter⟩ := length_le_rank inv joining working ran
      refine ⟨by omega, ?_⟩
      intro stuck w
      exact invT.returned_of_stuck joiningT (stuck w)
    joined := by
      intro joined
      obtain ⟨w⟩ := ‹Nonempty ι›
      have empty := (inv.returned w (inv.joined joined w)).2
      have nothing : ∑ w, held (s.workers w) = 0 := by
        refine Finset.sum_eq_zero fun u _ => ?_
        rw [inv.joined joined u]
        rfl
      have all := inv.kept
      rw [nothing, zero_add] at all
      have order := inv.order
      rw [empty, List.append_nil] at order
      rw [← order]
      exact Multiset.coe_eq_coe.mp all }

end

theorem workerCount_ne_zero (threads : Nat) : workerCount threads ≠ 0 := by
  unfold workerCount
  split
  · exact Nat.one_ne_zero
  · assumption

instance (threads : Nat) : NeZero (workerCount threads) := ⟨workerCount_ne_zero threads⟩

/-- In every run of a pool with any number of threads every accepted task is
executed exactly once. -/
theorem accounted_of_run {threads : Nat} {actions : List (Action (Fin (workerCount threads)) τ)}
    {s : ThreadPool (Fin (workerCount threads)) τ}
    {trace : List (Action (Fin (workerCount threads)) τ × Unit)}
    (ran : Machine.run step initial actions = some (s, trace)) : Accounted s := by
  apply Inv.accounted
  refine Machine.run_induct (motive := fun _ s => Inv s) ?_ inv_initial ran
  intro _ s a m u inv stepped
  exact inv.step stepped

/-- Two workers, two accepted tasks and one that comes too late. -/
theorem accounted_of_shutdown :
    ∃ s trace, Machine.run (@step (Fin (workerCount 2)) Nat _ _) initial
        [.work 0, .submit 7, .submit 8, .notifyOne (some 0), .work 1, .stop, .submit 9,
          .notifyAll, .work 0, .work 0, .work 1, .work 0, .work 1, .work 0, .work 1, .join] =
          some (s, trace) ∧
      s.executed = [(1, 8), (0, 7)] ∧ s.refused = [(2, 9)] ∧ s.destructor = .joined ∧
      Accounted s := by
  have ends : ((Machine.run (@step (Fin (workerCount 2)) Nat _ _) initial
      [.work 0, .submit 7, .submit 8, .notifyOne (some 0), .work 1, .stop, .submit 9,
        .notifyAll, .work 0, .work 0, .work 1, .work 0, .work 1, .work 0, .work 1,
        .join]).any fun r => decide (r.1.executed = [(1, 8), (0, 7)] ∧
          r.1.refused = [(2, 9)] ∧ r.1.destructor = .joined)) = true := by
    decide +kernel
  obtain ⟨r, ran, ends⟩ := (Option.any_eq_true _ _).mp ends
  obtain ⟨executed, refused, joined⟩ := of_decide_eq_true ends
  exact ⟨r.1, r.2, ran, executed, refused, joined, accounted_of_run ran⟩

end ThreadPool

end MiniNet
