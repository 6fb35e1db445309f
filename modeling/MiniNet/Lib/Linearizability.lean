import MiniNet.Lib.Machine
import Mathlib.Data.List.Nodup
import Mathlib.Logic.Function.Basic

/-!
# Operations on a shared object

Operations that overlap in time share an object.  An operation is invoked, at
some later time it takes effect in one step, and at some later time it
responds.  Every history of such operations is linearizable: there is an order
of the operations that have taken effect in which the object, used by one
operation after the other, gives the same results, and an operation that has
responded before another one was invoked comes before it.

An operation that calls the object at most once takes effect in one step, since
what it does before and after the call is its own.
-/

namespace Linearizability

/-! ## Operations with one call -/

/-- What an operation does with the object: nothing, or one call. -/
inductive Plan (γ ρ β : Type*) where
  | answer (b : β)
  | ask (c : γ) (finish : ρ → β)

def Plan.perform {σ γ ρ β : Type*} (call : σ → γ → Option (σ × ρ)) (s : σ) :
    Plan γ ρ β → Option (σ × β)
  | .answer b => some (s, b)
  | .ask c finish => (call s c).map fun (s, r) => (s, finish r)

/-- A run taken apart at one of its steps. -/
theorem run_split {σ α β : Type*} {act : σ → α → Option (σ × β)} {s t : σ} {a : α} {b : β}
    {trace before after : List (α × β)}
    (ran : Machine.run act s (trace.map Prod.fst) = some (t, trace))
    (split : trace = before ++ (a, b) :: after) :
    ∃ m n, Machine.run act s (before.map Prod.fst) = some (m, before) ∧
      act m a = some (n, b) ∧
      Machine.run act n (after.map Prod.fst) = some (t, after) := by
  rw [split, List.map_append, Machine.run_append_eq_some] at ran
  obtain ⟨m, past, future, ranBefore, ranAfter, split⟩ := ran
  have size : before.length = past.length := by
    rw [← List.length_map Prod.fst, ← Machine.map_fst_run ranBefore, List.length_map]
  obtain ⟨rfl, rfl⟩ := List.append_inj split size
  rw [List.map_cons, Machine.run_cons_eq_some] at ranAfter
  obtain ⟨n, b, rest, performed, continued, same⟩ := ranAfter
  cases same
  exact ⟨m, n, ranBefore, performed, continued⟩

/-! ## Histories -/

/-- The order of two members of a list. -/
def Precedes {ε : Type*} (xs : List ε) (x y : ε) : Prop := [x, y].Sublist xs

instance {ε : Type*} [DecidableEq ε] (xs : List ε) (x y : ε) : Decidable (Precedes xs x y) :=
  inferInstanceAs (Decidable ([x, y].Sublist xs))

theorem precedes_concat_iff {ε : Type*} {xs : List ε} {x y z : ε} :
    Precedes (xs ++ [z]) x y ↔ Precedes xs x y ∨ x ∈ xs ∧ y = z := by
  constructor
  · intro precedes
    obtain ⟨front, back, split, inXs, last⟩ := List.sublist_append_iff.mp precedes
    rcases List.sublist_singleton.mp last with rfl | rfl
    · rw [List.append_nil] at split
      exact .inl (by rwa [Precedes, split])
    · obtain ⟨rfl, same⟩ := List.append_inj' (show [x] ++ [y] = front ++ [z] from split) rfl
      exact .inr ⟨List.singleton_sublist.mp inXs, List.singleton_inj.mp same⟩
  · rintro (earlier | ⟨member, rfl⟩)
    · exact earlier.trans (List.sublist_append_left xs [z])
    · exact (List.singleton_sublist.mpr member).append_right [y]

theorem Precedes.mem {ε : Type*} {xs : List ε} {x y : ε} (precedes : Precedes xs x y) :
    x ∈ xs ∧ y ∈ xs :=
  ⟨precedes.subset (by simp), precedes.subset (by simp)⟩

private theorem mem_of_pair_sublist {ε : Type*} {front back : List ε} {x y : ε}
    (once : (front ++ y :: back).Nodup) (precedes : [x, y].Sublist (front ++ y :: back)) :
    x ∈ front := by
  induction front with
  | nil =>
      have notLater := (List.nodup_cons.mp once).1
      cases precedes with
      | cons _ later => exact absurd (later.subset (by simp)) notLater
      | cons_cons _ later => exact absurd (later.subset (by simp)) notLater
  | cons z front ih =>
      cases precedes with
      | cons _ later => exact List.mem_cons_of_mem z (ih (List.nodup_cons.mp once).2 later)
      | cons_cons _ later => exact List.mem_cons_self

private theorem not_mem_of_pair_sublist {ε : Type*} {front back : List ε} {x y : ε}
    (once : (front ++ x :: back).Nodup) (precedes : [x, y].Sublist (front ++ x :: back)) :
    y ∉ front := by
  induction front with
  | nil => exact List.not_mem_nil
  | cons z front ih =>
      obtain ⟨different, rest⟩ := List.nodup_cons.mp once
      cases precedes with
      | cons _ later =>
          intro member
          rcases List.mem_cons.mp member with rfl | inFront
          · exact different (later.subset (by simp))
          · exact ih rest later inFront
      | cons_cons _ later => exact absurd (by simp) different

inductive Event (α β : Type*) where
  | invoke (i : Nat) (a : α)
  | respond (i : Nat) (b : β)
  deriving DecidableEq

variable {σ α β : Type*}

/-- In the order, one operation after the other leads the object from `start` to
`finish`, with the results that they have in the history. -/
structure Linearizes (act : σ → α → Option (σ × β)) (start finish : σ)
    (history : List (Event α β)) (order : List (Nat × α × β)) : Prop where
  legal : Machine.run act start (order.map (·.2.1)) = some (finish, order.map (·.2))
  once : (order.map (·.1)).Nodup
  invoked : ∀ i a b, (i, a, b) ∈ order → ∀ c, .invoke i c ∈ history ↔ c = a
  complete : ∀ i b, .respond i b ∈ history → ∃ a, (i, a, b) ∈ order
  realTime : ∀ i b j a, Precedes history (.respond i b) (.invoke j a) →
    j ∈ order.map (·.1) → Precedes (order.map (·.1)) i j

namespace Linearizes

variable {act : σ → α → Option (σ × β)} {start finish : σ} {history : List (Event α β)}
  {order : List (Nat × α × β)}

theorem eq_of_fst_eq (linearizes : Linearizes act start finish history order)
    {x y : Nat × α × β} (xMember : x ∈ order) (yMember : y ∈ order) (same : x.1 = y.1) :
    x = y :=
  List.inj_on_of_nodup_map linearizes.once xMember yMember same

theorem mem (linearizes : Linearizes act start finish history order) {i : Nat} {a : α} {b : β}
    (invoked : .invoke i a ∈ history) (responded : .respond i b ∈ history) :
    (i, a, b) ∈ order := by
  obtain ⟨c, member⟩ := linearizes.complete i b responded
  rwa [(linearizes.invoked i c b member a).mp invoked]

/-- An operation that is invoked after the response of another one finds the
object as that one has left it, but for operations in between. -/
theorem successive (linearizes : Linearizes act start finish history order) {i j : Nat}
    {a c : α} {b d : β} (invoked : .invoke i a ∈ history)
    (precedes : Precedes history (.respond i b) (.invoke j c))
    (responded : .respond j d ∈ history) :
    ∃ before s past t between m trace n,
      Machine.run act start before = some (s, past) ∧ act s a = some (t, b) ∧
      Machine.run act t between = some (m, trace) ∧ act m c = some (n, d) := by
  have first := linearizes.mem invoked precedes.mem.1
  have second := linearizes.mem precedes.mem.2 responded
  obtain ⟨pair, inOrder, ids⟩ := List.sublist_map_iff.mp
    (linearizes.realTime i b j c precedes (List.mem_map_of_mem second))
  obtain ⟨x, y, rfl⟩ : ∃ x y, pair = [x, y] :=
    List.length_eq_two.mp (by rw [← List.length_map, ← ids]; rfl)
  obtain ⟨firstId, secondId⟩ : i = x.1 ∧ j = y.1 := by simpa using ids
  obtain rfl : x = (i, a, b) :=
    linearizes.eq_of_fst_eq (inOrder.subset List.mem_cons_self) first firstId.symm
  obtain rfl : y = (j, c, d) :=
    linearizes.eq_of_fst_eq (inOrder.subset (List.mem_of_mem_tail List.mem_cons_self)) second
      secondId.symm
  obtain ⟨front, back, rfl, inFront, inBack⟩ := List.cons_sublist_iff.mp inOrder
  obtain ⟨before, between, rfl⟩ := List.append_of_mem inFront
  obtain ⟨between', after, rfl⟩ := List.append_of_mem (List.singleton_sublist.mp inBack)
  have legal := linearizes.legal
  rw [← Function.comp_def Prod.fst, ← List.map_map] at legal
  have split : (before ++ (i, a, b) :: between ++ (between' ++ (j, c, d) :: after)).map
      Prod.snd = before.map Prod.snd ++ (a, b) ::
        ((between ++ between').map Prod.snd ++ (c, d) :: after.map Prod.snd) := by
    simp
  obtain ⟨s, t, ranBefore, performed, ran⟩ := run_split legal split
  obtain ⟨m, n, ranBetween, performedNext, _⟩ := run_split ran rfl
  exact ⟨_, s, _, t, _, m, _, n, ranBefore, performed, ranBetween, performedNext⟩

/-- An operation finds the object as the operations before it have left it.
All that had responded when it was invoked are among these, and none that was
invoked after its response. -/
theorem split (linearizes : Linearizes act start finish history order) {i : Nat} {a : α}
    {b : β} (member : (i, a, b) ∈ order) :
    ∃ before s t, before ⊆ order ∧ (before.map Prod.fst).Nodup ∧
      Machine.run act start ((before.map Prod.snd).map Prod.fst) =
        some (s, before.map Prod.snd) ∧ act s a = some (t, b) ∧
      (∀ k c, Precedes history (.respond k c) (.invoke i a) → k ∈ before.map Prod.fst) ∧
      ∀ k ∈ before.map Prod.fst, ∀ c, ¬Precedes history (.respond i b) (.invoke k c) := by
  obtain ⟨before, after, rfl⟩ := List.append_of_mem member
  have legal := linearizes.legal
  rw [← Function.comp_def Prod.fst, ← List.map_map] at legal
  obtain ⟨s, t, ran, performed, _⟩ := run_split legal (by
    rw [List.map_append, List.map_cons])
  have ids : ((before.map Prod.fst) ++ i :: after.map Prod.fst).Nodup := by
    have once := linearizes.once
    rwa [List.map_append, List.map_cons] at once
  have inOrder {j k : Nat} {c : β} {d : α}
      (precedes : Precedes history (.respond j c) (.invoke k d))
      (among : k ∈ before.map Prod.fst ∨ k = i) :
      [j, k].Sublist (before.map Prod.fst ++ i :: after.map Prod.fst) := by
    have sublist := linearizes.realTime j c k d precedes (by
      rw [List.map_append, List.map_cons, List.mem_append, List.mem_cons]
      exact among.imp id .inl)
    rwa [Precedes, List.map_append, List.map_cons] at sublist
  refine ⟨before, s, t, List.subset_append_left _ _, (List.nodup_append.mp ids).1, ran,
    performed, ?_, ?_⟩
  · intro k c precedes
    exact mem_of_pair_sublist ids (inOrder precedes (.inr rfl))
  · intro k early c precedes
    exact not_mem_of_pair_sublist ids (inOrder precedes (.inl early)) early

end Linearizes

/-! ## The machine -/

inductive Stage (α β : Type*) where
  | absent
  | invoked (a : α)
  | performed (a : α) (b : β)
  | responded (a : α) (b : β)

/-- The object and the operations so far, which are numbered. -/
structure State (σ α β : Type*) where
  object : σ
  next : Nat := 0
  stages : Nat → Stage α β := fun _ => .absent

inductive Action (α : Type*) where
  | invoke (a : α)
  | perform (i : Nat)
  | respond (i : Nat)
  deriving DecidableEq

def State.setStage (s : State σ α β) (i : Nat) (stage : Stage α β) : State σ α β :=
  { s with stages := Function.update s.stages i stage }

def step (act : σ → α → Option (σ × β)) (s : State σ α β) :
    Action α → Option (State σ α β × List (Event α β))
  | .invoke a => some ({ s.setStage s.next (.invoked a) with next := s.next + 1 },
      [.invoke s.next a])
  | .perform i =>
      match s.stages i with
      | .invoked a => (act s.object a).map fun (object, b) =>
          ({ s.setStage i (.performed a b) with object }, [])
      | _ => none
  | .respond i =>
      match s.stages i with
      | .performed a b => some (s.setStage i (.responded a b), [.respond i b])
      | _ => none

/-- What the operation has been invoked for. -/
def Stage.request : Stage α β → Option α
  | .absent => none
  | .invoked a | .performed a _ | .responded a _ => some a

/-- The operation and its result, once it has taken effect. -/
def Stage.effect : Stage α β → Option (α × β)
  | .absent | .invoked _ => none
  | .performed a b | .responded a b => some (a, b)

/-! ## Every history is linearizable -/

/-- The order in which the operations have taken effect. -/
structure Ordered (act : σ → α → Option (σ × β)) (start : σ)
    (history : List (Event α β)) (s : State σ α β) (order : List (Nat × α × β)) : Prop where
  legal : Machine.run act start (order.map (·.2.1)) = some (s.object, order.map (·.2))
  once : (order.map (·.1)).Nodup
  effects : ∀ i a b, (i, a, b) ∈ order ↔ (s.stages i).effect = some (a, b)
  requests : ∀ i a, .invoke i a ∈ history ↔ (s.stages i).request = some a
  responses : ∀ i b, .respond i b ∈ history → ∃ a, s.stages i = .responded a b
  fresh : ∀ i, s.next ≤ i → s.stages i = .absent
  realTime : ∀ i b j a, Precedes history (.respond i b) (.invoke j a) →
    j ∈ order.map (·.1) → Precedes (order.map (·.1)) i j

variable {act : σ → α → Option (σ × β)} {start finish : σ}
  {history : List (Event α β)} {s : State σ α β} {order : List (Nat × α × β)}

theorem Ordered.linearizes (ordered : Ordered act start history s order) :
    Linearizes act start s.object history order where
  legal := ordered.legal
  once := ordered.once
  invoked i a b member c := by
    rw [ordered.requests]
    have effect := (ordered.effects i a b).mp member
    cases stage : s.stages i with
    | absent | invoked _ =>
        rw [stage] at effect
        cases effect
    | performed _ _ | responded _ _ =>
        rw [stage] at effect
        cases effect
        exact ⟨fun same => (Option.some.inj same).symm, fun same => congrArg some same.symm⟩
  complete i b member := by
    obtain ⟨a, stage⟩ := ordered.responses i b member
    exact ⟨a, (ordered.effects i a b).mpr (by rw [stage]; rfl)⟩
  realTime := ordered.realTime

theorem ordered_create (act : σ → α → Option (σ × β)) (start : σ) :
    Ordered act start [] { object := start } [] where
  legal := rfl
  once := List.nodup_nil
  effects _ _ _ := iff_of_false List.not_mem_nil nofun
  requests _ _ := iff_of_false List.not_mem_nil nofun
  responses _ _ member := absurd member List.not_mem_nil
  fresh _ _ := rfl
  realTime _ _ _ _ precedes _ := absurd precedes.mem.1 List.not_mem_nil

theorem mem_order_iff (ordered : Ordered act start history s order) {i : Nat} :
    i ∈ order.map (·.1) ↔ (s.stages i).effect ≠ none := by
  rw [List.mem_map, Option.ne_none_iff_exists']
  constructor
  · rintro ⟨⟨_, a, b⟩, member, rfl⟩
    exact ⟨(a, b), (ordered.effects _ _ _).mp member⟩
  · rintro ⟨⟨a, b⟩, effect⟩
    exact ⟨(i, a, b), (ordered.effects _ _ _).mpr effect, rfl⟩

theorem stages_setStage_self (s : State σ α β) (i : Nat) (stage : Stage α β) :
    (s.setStage i stage).stages i = stage :=
  Function.update_self _ _ _

theorem stages_setStage_of_ne (s : State σ α β) {i j : Nat} (other : j ≠ i)
    (stage : Stage α β) : (s.setStage i stage).stages j = s.stages j :=
  Function.update_of_ne other _ _

theorem Ordered.invoke (ordered : Ordered act start history s order) (a : α) :
    Ordered act start (history ++ [.invoke s.next a])
      { s.setStage s.next (.invoked a) with next := s.next + 1 } order := by
  have absent := ordered.fresh s.next (Nat.le_refl _)
  have unordered : s.next ∉ order.map (·.1) := by
    rw [mem_order_iff ordered, absent]
    exact fun some => some rfl
  refine ⟨ordered.legal, ordered.once, ?_, ?_, ?_, ?_, ?_⟩
  · intro i b c
    rw [ordered.effects]
    by_cases same : i = s.next
    · subst same
      rw [absent]
      exact iff_of_false nofun (by rw [stages_setStage_self]; exact nofun)
    · rw [stages_setStage_of_ne s same]
  · intro i b
    rw [List.mem_append, List.mem_singleton, ordered.requests]
    by_cases same : i = s.next
    · subst same
      rw [absent, stages_setStage_self, Event.invoke.injEq]
      exact ⟨fun either => either.elim nofun fun this => congrArg some this.2.symm,
        fun this => .inr ⟨rfl, (Option.some.inj this).symm⟩⟩
    · rw [stages_setStage_of_ne s same, Event.invoke.injEq]
      exact or_iff_left fun this => same this.1
  · intro i b member
    rcases List.mem_append.mp member with old | new
    · obtain ⟨c, stage⟩ := ordered.responses i b old
      have other : i ≠ s.next := by
        rintro rfl
        cases absent.symm.trans stage
      exact ⟨c, (stages_setStage_of_ne s other _).trans stage⟩
    · cases List.mem_singleton.mp new
  · intro i later
    have other : i ≠ s.next := Nat.ne_of_gt later
    exact (stages_setStage_of_ne s other _).trans (ordered.fresh i (Nat.le_of_lt later))
  · intro i b j c precedes member
    rcases precedes_concat_iff.mp precedes with earlier | ⟨_, same⟩
    · exact ordered.realTime i b j c earlier member
    · cases same
      exact absurd member unordered

theorem Ordered.perform {i : Nat} {a : α} {b : β} {object : σ}
    (ordered : Ordered act start history s order) (stage : s.stages i = .invoked a)
    (performed : act s.object a = some (object, b)) :
    Ordered act start history { s.setStage i (.performed a b) with object }
      (order ++ [(i, a, b)]) := by
  have unordered : i ∉ order.map (·.1) := by
    rw [mem_order_iff ordered, stage]
    exact fun some => some rfl
  refine ⟨?_, ?_, ?_, ?_, ?_, ?_, ?_⟩
  · rw [List.map_append, List.map_append]
    exact Machine.run_concat ordered.legal performed
  · rw [List.map_append, List.nodup_append]
    refine ⟨ordered.once, List.nodup_singleton _, ?_⟩
    rintro j member _ new rfl
    cases List.mem_singleton.mp new
    exact unordered member
  · intro j c d
    rw [List.mem_append, List.mem_singleton, ordered.effects]
    by_cases same : j = i
    · subst same
      rw [stage, stages_setStage_self, Prod.mk.injEq]
      exact ⟨fun either => either.elim nofun fun this => congrArg some this.2.symm,
        fun this => .inr ⟨rfl, (Option.some.inj this).symm⟩⟩
    · rw [stages_setStage_of_ne s same, Prod.mk.injEq]
      exact or_iff_left fun this => same this.1
  · intro j c
    rw [ordered.requests]
    by_cases same : j = i
    · subst same
      rw [stage, stages_setStage_self]
      rfl
    · rw [stages_setStage_of_ne s same]
  · intro j c member
    obtain ⟨d, responded⟩ := ordered.responses j c member
    have other : j ≠ i := by
      rintro rfl
      cases stage.symm.trans responded
    exact ⟨d, (stages_setStage_of_ne s other _).trans responded⟩
  · intro j later
    have absent := ordered.fresh j later
    have other : j ≠ i := by
      rintro rfl
      cases stage.symm.trans absent
    exact (stages_setStage_of_ne s other _).trans absent
  · intro j c k d precedes member
    rw [List.map_append] at member ⊢
    refine precedes_concat_iff.mpr ?_
    rcases List.mem_append.mp member with old | new
    · exact .inl (ordered.realTime j c k d precedes old)
    · obtain ⟨e, responded⟩ := ordered.responses j c precedes.mem.1
      refine .inr ⟨(mem_order_iff ordered).mpr ?_, List.mem_singleton.mp new⟩
      rw [responded]
      exact nofun

theorem Ordered.respond {i : Nat} {a : α} {b : β}
    (ordered : Ordered act start history s order) (stage : s.stages i = .performed a b) :
    Ordered act start (history ++ [.respond i b]) (s.setStage i (.responded a b))
      order := by
  refine ⟨ordered.legal, ordered.once, ?_, ?_, ?_, ?_, ?_⟩
  · intro j c d
    rw [ordered.effects]
    by_cases same : j = i
    · subst same
      rw [stage, stages_setStage_self]
      rfl
    · rw [stages_setStage_of_ne s same]
  · intro j c
    rw [List.mem_append, List.mem_singleton, ordered.requests, or_iff_left nofun]
    by_cases same : j = i
    · subst same
      rw [stage, stages_setStage_self]
      rfl
    · rw [stages_setStage_of_ne s same]
  · intro j c member
    by_cases same : j = i
    · subst same
      rcases List.mem_append.mp member with old | new
      · obtain ⟨d, responded⟩ := ordered.responses j c old
        cases stage.symm.trans responded
      · cases List.mem_singleton.mp new
        exact ⟨a, stages_setStage_self _ _ _⟩
    · rcases List.mem_append.mp member with old | new
      · obtain ⟨d, responded⟩ := ordered.responses j c old
        exact ⟨d, (stages_setStage_of_ne s same _).trans responded⟩
      · cases List.mem_singleton.mp new
        exact absurd rfl same
  · intro j later
    have absent := ordered.fresh j later
    have other : j ≠ i := by
      rintro rfl
      cases stage.symm.trans absent
    exact (stages_setStage_of_ne s other _).trans absent
  · intro j c k d precedes member
    rcases precedes_concat_iff.mp precedes with earlier | ⟨_, same⟩
    · exact ordered.realTime j c k d earlier member
    · cases same

theorem Ordered.step {m : State σ α β} {x : Action α} {events : List (Event α β)}
    (ordered : Ordered act start history s order)
    (stepped : step act s x = some (m, events)) :
    ∃ order, Ordered act start (history ++ events) m order := by
  cases x with
  | invoke a =>
      cases stepped
      exact ⟨order, ordered.invoke a⟩
  | perform i =>
      unfold Linearizability.step at stepped
      cases stage : s.stages i with
      | invoked a =>
          simp only [stage, Option.map_eq_some_iff, Prod.exists] at stepped
          obtain ⟨object, b, performed, result⟩ := stepped
          cases result
          rw [List.append_nil]
          exact ⟨_, ordered.perform stage performed⟩
      | absent | performed _ _ | responded _ _ =>
          simp only [stage] at stepped
          cases stepped
  | respond i =>
      unfold Linearizability.step at stepped
      cases stage : s.stages i with
      | performed a b =>
          simp only [stage] at stepped
          cases stepped
          exact ⟨order, ordered.respond stage⟩
      | absent | invoked _ | responded _ _ =>
          simp only [stage] at stepped
          cases stepped

/-- The object at the end is the one that the operations in the order lead to. -/
theorem exists_linearizes {actions : List (Action α)}
    {trace : List (Action α × List (Event α β))}
    (ran : Machine.run (step act) { object := start } actions = some (s, trace)) :
    ∃ order, Linearizes act start s.object (trace.flatMap Prod.snd) order := by
  obtain ⟨order, ordered⟩ := Machine.run_induct
    (motive := fun past s => ∃ order,
      Ordered act start (past.flatMap Prod.snd) s order)
    (fun past _ x _ events => by
      rintro ⟨order, ordered⟩ stepped
      rw [List.flatMap_append, List.flatMap_singleton]
      exact ordered.step stepped)
    ⟨[], ordered_create act start⟩ ran
  exact ⟨order, ordered.linearizes⟩

end Linearizability
