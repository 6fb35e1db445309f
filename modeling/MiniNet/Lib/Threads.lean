import MiniNet.Lib.Family

/-!
# Threads with stacks and queues

Each thread has a stack of frames, which is what it still has to do, and a
queue of tasks that other threads have sent to it.  A property of all frames
and tasks, and a weight summed over all of them, change with the four
operations on stacks and queues in the obvious way.
-/

namespace Threads

structure Thread (F T : Type*) where
  frames : List F := []
  pending : List T := []

abbrev Pool (ι F T : Type*) := ι → Thread F T

variable {ι F T : Type*}

/-- Every frame satisfies `p` and every task satisfies `q`, of the thread that
has it. -/
def AllAt (p : ι → F → Prop) (q : ι → T → Prop) (pool : Pool ι F T) : Prop :=
  ∀ t, (∀ f ∈ (pool t).frames, p t f) ∧ ∀ k ∈ (pool t).pending, q t k

instance [Fintype ι] (p : ι → F → Prop) (q : ι → T → Prop) [∀ t, DecidablePred (p t)]
    [∀ t, DecidablePred (q t)] (pool : Pool ι F T) : Decidable (AllAt p q pool) :=
  inferInstanceAs (Decidable (∀ t, (∀ f ∈ (pool t).frames, p t f) ∧
    ∀ k ∈ (pool t).pending, q t k))

/-- Every frame satisfies `p` and every task satisfies `q`. -/
def All (p : F → Prop) (q : T → Prop) (pool : Pool ι F T) : Prop :=
  ∀ t, (∀ f ∈ (pool t).frames, p f) ∧ ∀ k ∈ (pool t).pending, q k

instance [Fintype ι] (p : F → Prop) (q : T → Prop) [DecidablePred p]
    [DecidablePred q] (pool : Pool ι F T) : Decidable (All p q pool) :=
  inferInstanceAs (Decidable (∀ t, (∀ f ∈ (pool t).frames, p f) ∧
    ∀ k ∈ (pool t).pending, q k))

/-- The sum of the weights of all frames and tasks. -/
def weight [Fintype ι] (w : F → Nat) (v : T → Nat) (pool : Pool ι F T) : Nat :=
  ∑ t, (((pool t).frames.map w).sum + ((pool t).pending.map v).sum)

theorem all_empty {p : F → Prop} {q : T → Prop} :
    All p q fun _ : ι => ({} : Thread F T) := by
  intro t
  constructor
  · intro f member
    cases member
  · intro k member
    cases member

theorem AllAt.mono {p p' : ι → F → Prop} {q q' : ι → T → Prop} {pool : Pool ι F T}
    (all : AllAt p q pool) (frames : ∀ t f, p t f → p' t f)
    (tasks : ∀ t k, q t k → q' t k) : AllAt p' q' pool :=
  fun t => ⟨fun f member => frames t f ((all t).1 f member),
    fun k member => tasks t k ((all t).2 k member)⟩

theorem All.mono {p p' : F → Prop} {q q' : T → Prop} {pool : Pool ι F T}
    (all : All p q pool) (frames : ∀ f, p f → p' f) (tasks : ∀ k, q k → q' k) :
    All p' q' pool :=
  fun t => ⟨fun f member => frames f ((all t).1 f member),
    fun k member => tasks k ((all t).2 k member)⟩

theorem All.and {p p' : F → Prop} {q q' : T → Prop} {pool : Pool ι F T}
    (all : All p q pool) (others : All p' q' pool) :
    All (fun f => p f ∧ p' f) (fun k => q k ∧ q' k) pool :=
  fun t => ⟨fun f member => ⟨(all t).1 f member, (others t).1 f member⟩,
    fun k member => ⟨(all t).2 k member, (others t).2 k member⟩⟩

section

variable [Fintype ι] {w : F → Nat} {v : T → Nat}

theorem weight_eq_zero_iff {pool : Pool ι F T} :
    weight w v pool = 0 ↔ All (fun f => w f = 0) (fun k => v k = 0) pool := by
  simp only [weight, Finset.sum_eq_zero_iff, Finset.mem_univ, true_implies,
    Nat.add_eq_zero_iff, List.sum_eq_zero_iff_forall_eq_nat, List.forall_mem_map]
  rfl

end

section

variable [DecidableEq ι]

/-- Put frames on top of a stack. -/
def push (t : ι) (frames : List F) (pool : Pool ι F T) : Pool ι F T :=
  Function.update pool t ⟨frames ++ (pool t).frames, (pool t).pending⟩

/-- Take the top frame off a stack. -/
def pop (t : ι) (pool : Pool ι F T) : Option (F × Pool ι F T) :=
  match (pool t).frames with
  | [] => none
  | f :: rest => some (f, Function.update pool t ⟨rest, (pool t).pending⟩)

/-- Put a task at the end of a queue. -/
def enqueue (t : ι) (k : T) (pool : Pool ι F T) : Pool ι F T :=
  Function.update pool t ⟨(pool t).frames, (pool t).pending ++ [k]⟩

/-- Take the first task off a queue. -/
def poll (t : ι) (pool : Pool ι F T) : Option (T × Pool ι F T) :=
  match (pool t).pending with
  | [] => none
  | k :: rest => some (k, Function.update pool t ⟨(pool t).frames, rest⟩)

theorem head_of_pop {pool rest : Pool ι F T} {t : ι} {f : F}
    (popped : pop t pool = some (f, rest)) : f ∈ (pool t).frames.head? := by
  unfold pop at popped
  split at popped
  · cases popped
  · rename_i top below stack
    cases popped
    rw [stack]
    rfl

/-! ## The stacks of the other threads -/

theorem frames_push_of_ne {pool : Pool ι F T} {t u : ι} {frames : List F} (other : u ≠ t) :
    (push t frames pool u).frames = (pool u).frames := by
  rw [push, Function.update_of_ne other]

theorem frames_enqueue {pool : Pool ι F T} {t u : ι} {k : T} :
    (enqueue t k pool u).frames = (pool u).frames := by
  by_cases same : u = t
  · subst same
    rw [enqueue, Function.update_self]
  · rw [enqueue, Function.update_of_ne same]

theorem frames_pop_of_ne {pool rest : Pool ι F T} {t u : ι} {f : F}
    (popped : pop t pool = some (f, rest)) (other : u ≠ t) :
    (rest u).frames = (pool u).frames := by
  unfold pop at popped
  split at popped
  · cases popped
  · cases popped
    rw [Function.update_of_ne other]

theorem frames_poll {pool rest : Pool ι F T} {t u : ι} {k : T}
    (polled : poll t pool = some (k, rest)) : (rest u).frames = (pool u).frames := by
  unfold poll at polled
  split at polled
  · cases polled
  · cases polled
    by_cases same : u = t
    · subst same
      rw [Function.update_self]
    · rw [Function.update_of_ne same]

/-! ## All frames and tasks -/

section

variable {p : ι → F → Prop} {q : ι → T → Prop}

private theorem allAt_update {pool : Pool ι F T} {t : ι} {thread : Thread F T} :
    AllAt p q (Function.update pool t thread) ↔
      ((∀ f ∈ thread.frames, p t f) ∧ ∀ k ∈ thread.pending, q t k) ∧
        ∀ u, u ≠ t → (∀ f ∈ (pool u).frames, p u f) ∧ ∀ k ∈ (pool u).pending, q u k := by
  constructor
  · intro all
    refine ⟨by simpa using all t, fun u other => ?_⟩
    simpa [other] using all u
  · rintro ⟨here, elsewhere⟩ u
    by_cases same : u = t
    · subst u
      simpa using here
    · simpa [same] using elsewhere u same

private theorem allAt_iff {pool : Pool ι F T} (t : ι) :
    AllAt p q pool ↔
      ((∀ f ∈ (pool t).frames, p t f) ∧ ∀ k ∈ (pool t).pending, q t k) ∧
        ∀ u, u ≠ t → (∀ f ∈ (pool u).frames, p u f) ∧ ∀ k ∈ (pool u).pending, q u k := by
  rw [← allAt_update, Function.update_eq_self]

theorem allAt_push {pool : Pool ι F T} {t : ι} {frames : List F} :
    AllAt p q (push t frames pool) ↔ (∀ f ∈ frames, p t f) ∧ AllAt p q pool := by
  rw [push, allAt_update, allAt_iff t, List.forall_mem_append]
  tauto

theorem allAt_enqueue {pool : Pool ι F T} {t : ι} {k : T} :
    AllAt p q (enqueue t k pool) ↔ q t k ∧ AllAt p q pool := by
  rw [enqueue, allAt_update, allAt_iff t, List.forall_mem_append,
    List.forall_mem_singleton]
  tauto

theorem allAt_pop {pool rest : Pool ι F T} {t : ι} {f : F}
    (popped : pop t pool = some (f, rest)) :
    AllAt p q pool ↔ p t f ∧ AllAt p q rest := by
  unfold pop at popped
  split at popped
  · cases popped
  · rename_i top below stack
    cases popped
    rw [allAt_update, allAt_iff t, stack, List.forall_mem_cons]
    tauto

theorem allAt_poll {pool rest : Pool ι F T} {t : ι} {k : T}
    (polled : poll t pool = some (k, rest)) :
    AllAt p q pool ↔ q t k ∧ AllAt p q rest := by
  unfold poll at polled
  split at polled
  · cases polled
  · rename_i first later queue
    cases polled
    rw [allAt_update, allAt_iff t, queue, List.forall_mem_cons]
    tauto

/-- A thread that ends leaves nothing behind. -/
theorem allAt_end {pool : Pool ι F T} {t : ι} (all : AllAt p q pool) :
    AllAt p q (Function.update pool t {}) := by
  refine allAt_update.mpr ⟨⟨fun f member => ?_, fun k member => ?_⟩, fun u _ => all u⟩
  · cases member
  · cases member

end

section

variable {p : F → Prop} {q : T → Prop}

theorem all_push {pool : Pool ι F T} {t : ι} {frames : List F} :
    All p q (push t frames pool) ↔ (∀ f ∈ frames, p f) ∧ All p q pool :=
  allAt_push

theorem all_enqueue {pool : Pool ι F T} {t : ι} {k : T} :
    All p q (enqueue t k pool) ↔ q k ∧ All p q pool :=
  allAt_enqueue

theorem all_pop {pool rest : Pool ι F T} {t : ι} {f : F}
    (popped : pop t pool = some (f, rest)) : All p q pool ↔ p f ∧ All p q rest :=
  allAt_pop popped

theorem all_poll {pool rest : Pool ι F T} {t : ι} {k : T}
    (polled : poll t pool = some (k, rest)) : All p q pool ↔ q k ∧ All p q rest :=
  allAt_poll polled

end

/-! ## Below the top of the stacks -/

/-- Every frame but the top one of each stack satisfies `p`. -/
def Below (p : F → Prop) (pool : Pool ι F T) : Prop :=
  ∀ t, ∀ f ∈ (pool t).frames.tail, p f

private theorem below_update {p : F → Prop} {pool : Pool ι F T} {t : ι}
    {thread : Thread F T} (below : Below p pool)
    (here : ∀ f ∈ thread.frames.tail, p f) :
    Below p (Function.update pool t thread) := by
  intro u
  by_cases same : u = t
  · subst u
    rwa [Function.update_self]
  · rw [Function.update_of_ne same]
    exact below u

/-- The top frame is replaced by others. -/
theorem below_push_of_pop {p : F → Prop} {pool rest : Pool ι F T} {t : ι} {f : F}
    (popped : pop t pool = some (f, rest)) (below : Below p pool) {next : List F}
    (nextBelow : ∀ g ∈ next.tail, p g) : Below p (push t next rest) := by
  unfold pop at popped
  split at popped
  · cases popped
  · rename_i top stack frames
    cases popped
    have older : ∀ g ∈ stack, p g := by
      have here := below t
      rwa [frames] at here
    rw [push, Function.update_idem, Function.update_self]
    apply below_update below
    cases next with
    | nil => exact fun g member => older g (List.mem_of_mem_tail member)
    | cons first later =>
        intro g member
        rcases List.mem_append.mp member with new | old
        · exact nextBelow g new
        · exact older g old

theorem below_push_of_idle {p : F → Prop} {pool : Pool ι F T} {t : ι}
    (idle : (pool t).frames = []) (below : Below p pool) {next : List F}
    (nextBelow : ∀ g ∈ next.tail, p g) : Below p (push t next pool) := by
  apply below_update below
  rwa [idle, List.append_nil]

theorem below_enqueue {p : F → Prop} {pool : Pool ι F T} {t : ι} {k : T}
    (below : Below p pool) : Below p (enqueue t k pool) :=
  below_update below (below t)

theorem below_poll {p : F → Prop} {pool rest : Pool ι F T} {t : ι} {k : T}
    (polled : poll t pool = some (k, rest)) (below : Below p pool) :
    Below p rest ∧ (rest t).frames = (pool t).frames := by
  unfold poll at polled
  split at polled
  · cases polled
  · cases polled
    exact ⟨below_update below (below t), by rw [Function.update_self]⟩

/-! ## Weights -/

variable [Fintype ι] {w : F → Nat} {v : T → Nat}

private theorem weight_update (w : F → Nat) (v : T → Nat) (pool : Pool ι F T)
    (t : ι) (frames : List F) (pending : List T) :
    weight w v (Function.update pool t ⟨frames, pending⟩) +
        (((pool t).frames.map w).sum + ((pool t).pending.map v).sum) =
      weight w v pool + ((frames.map w).sum + (pending.map v).sum) :=
  Family.sum_update
    (fun _ thread => (thread.frames.map w).sum + (thread.pending.map v).sum)
    pool t ⟨frames, pending⟩

theorem weight_push {pool : Pool ι F T} {t : ι} {frames : List F} :
    weight w v (push t frames pool) = (frames.map w).sum + weight w v pool := by
  have changed := weight_update w v pool t (frames ++ (pool t).frames)
    (pool t).pending
  simp only [List.map_append, List.sum_append] at changed
  rw [push]
  omega

theorem weight_enqueue {pool : Pool ι F T} {t : ι} {k : T} :
    weight w v (enqueue t k pool) = v k + weight w v pool := by
  have changed := weight_update w v pool t (pool t).frames
    ((pool t).pending ++ [k])
  simp only [List.map_append, List.sum_append, List.map_cons, List.map_nil,
    List.sum_cons, List.sum_nil] at changed
  rw [enqueue]
  omega

theorem weight_pop {pool rest : Pool ι F T} {t : ι} {f : F}
    (popped : pop t pool = some (f, rest)) :
    weight w v pool = w f + weight w v rest := by
  unfold pop at popped
  split at popped
  · cases popped
  · rename_i top below stack
    cases popped
    have changed := weight_update w v pool t below (pool t).pending
    simp only [stack, List.map_cons, List.sum_cons] at changed
    omega

theorem weight_poll {pool rest : Pool ι F T} {t : ι} {k : T}
    (polled : poll t pool = some (k, rest)) :
    weight w v pool = v k + weight w v rest := by
  unfold poll at polled
  split at polled
  · cases polled
  · rename_i first later queue
    cases polled
    have changed := weight_update w v pool t (pool t).frames later
    simp only [queue, List.map_cons, List.sum_cons] at changed
    omega

theorem weight_push_of_light {pool : Pool ι F T} {t : ι} {frames : List F}
    (light : ∀ f ∈ frames, w f = 0) : weight w v (push t frames pool) = weight w v pool := by
  have nothing : (frames.map w).sum = 0 := by
    rw [List.sum_eq_zero_iff_forall_eq_nat, List.forall_mem_map]
    exact light
  rw [weight_push, nothing, Nat.zero_add]

/-- A task that runs weighs what it weighed in the queue. -/
theorem weight_push_poll {pool rest : Pool ι F T} {t : ι} {k : T} {f : F}
    (polled : poll t pool = some (k, rest)) (same : w f = v k) :
    weight w v (push t [f] rest) = weight w v pool := by
  rw [weight_push, weight_poll polled, List.map_singleton, List.sum_singleton, same]

end

end Threads
