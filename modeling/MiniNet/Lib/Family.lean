import Mathlib.Algebra.BigOperators.Group.Finset.Basic
import Mathlib.Algebra.Ring.Nat
import Mathlib.Data.Fintype.Basic

/-!
# Families of which one member changes

A sum over a finite family changes by what its one changed member
contributes.  The contribution may depend on the index.
-/

namespace Family

variable {ι α M : Type*} [Fintype ι] [DecidableEq ι] [AddCommMonoid M]

/-- The contribution of the changed member may itself be another one afterwards. -/
theorem sum_update_of_eq {f g : ι → α → M} (members : ι → α) (i : ι) (member : α)
    (others : ∀ j, j ≠ i → f j = g j) :
    ∑ j, g j (Function.update members i member j) + f i (members i) =
      ∑ j, f j (members j) + g i member := by
  have same : ∑ j ∈ Finset.univ.erase i, g j (Function.update members i member j) =
      ∑ j ∈ Finset.univ.erase i, f j (members j) := by
    apply Finset.sum_congr rfl
    intro j other
    have different := Finset.ne_of_mem_erase other
    rw [Function.update_of_ne different, others j different]
  rw [← Finset.add_sum_erase _ _ (Finset.mem_univ i), same,
    ← Finset.add_sum_erase _ (fun j => f j (members j)) (Finset.mem_univ i),
    Function.update_self, add_assoc, add_comm, add_comm (f i (members i))]

/-- The sum as the share of the others and that of the changed member. -/
theorem sum_update_eq_erase_add (f : ι → α → M) (members : ι → α) (i : ι) (member : α) :
    ∑ j, f j (Function.update members i member j) =
      ∑ j ∈ Finset.univ.erase i, f j (members j) + f i member := by
  rw [← Finset.sum_erase_add _ _ (Finset.mem_univ i), Function.update_self]
  congr 1
  refine Finset.sum_congr rfl fun j other => ?_
  rw [Function.update_of_ne (Finset.ne_of_mem_erase other)]

theorem sum_update (f : ι → α → M) (members : ι → α) (i : ι) (member : α) :
    ∑ j, f j (Function.update members i member j) + f i (members i) =
      ∑ j, f j (members j) + f i member :=
  sum_update_of_eq members i member fun _ _ => rfl

end Family
