import Mathlib.Data.Finset.Card
import Mathlib.Data.Finset.Dedup
import Mathlib.Data.List.TakeWhile

/-!
# Numbering by first occurrence

The different members of a list are numbered from one in the order in which
they first occur.
-/

namespace Serial

variable {α : Type*} [DecidableEq α]

/-- The number of `x`: one more than the different members before it.  A
value that does not occur gets the next free number. -/
def serial (xs : List α) (x : α) : Nat :=
  (xs.takeWhile (· ≠ x)).toFinset.card + 1

theorem serial_append_of_mem {xs : List α} {x : α} (member : x ∈ xs)
    (more : List α) : serial (xs ++ more) x = serial xs x := by
  have stops : (xs.takeWhile (· ≠ x)).length ≠ xs.length := by
    intro same
    have whole : xs.takeWhile (· ≠ x) = xs :=
      (List.takeWhile_prefix _).eq_of_length same
    simpa using List.takeWhile_eq_self_iff.mp whole x member
  rw [serial, serial, List.takeWhile_append, if_neg stops]

private theorem takeWhile_of_notMem {xs : List α} {x : α} (absent : x ∉ xs) :
    xs.takeWhile (· ≠ x) = xs := by
  rw [List.takeWhile_eq_self_iff]
  intro y member
  simp only [ne_eq, decide_eq_true_eq]
  rintro rfl
  exact absent member

/-- A value that is new to the list gets the next number there. -/
theorem serial_append_self {xs : List α} {x : α} (absent : x ∉ xs)
    (more : List α) : serial (xs ++ x :: more) x = xs.toFinset.card + 1 := by
  have whole := takeWhile_of_notMem absent
  rw [serial, List.takeWhile_append, whole, if_pos rfl,
    List.takeWhile_cons_of_neg (by simp), List.append_nil]

/-- Seeing a value again, or for the first time, does not change its number. -/
theorem serial_concat_self (xs : List α) (x : α) :
    serial (xs ++ [x]) x = serial xs x := by
  by_cases member : x ∈ xs
  · exact serial_append_of_mem member [x]
  · rw [serial_append_self member, serial, takeWhile_of_notMem member]

theorem serial_le_card {xs : List α} {x : α} (member : x ∈ xs) :
    serial xs x ≤ xs.toFinset.card := by
  have fewer : (xs.takeWhile (· ≠ x)).toFinset ⊂ xs.toFinset := by
    rw [Finset.ssubset_iff_of_subset]
    · refine ⟨x, List.mem_toFinset.mpr member, ?_⟩
      intro inFront
      simpa using List.mem_takeWhile_imp (List.mem_toFinset.mp inFront)
    · intro y inFront
      have taken := List.mem_toFinset.mp inFront
      exact List.mem_toFinset.mpr ((List.takeWhile_sublist _).subset taken)
  exact Finset.card_lt_card fewer

end Serial
